import WaterNet.Tcp.Fabric.Step

/-!
# What a channel carries

The writer of a channel pushes the sid of its net and then whole frames; the reader takes the sid and
then whole frames, whatever the sizes of the pieces in between.

* `NetsOk`, `netsOk_trans` — what holds of the nets, and where the threads of the bridges can be;
* `frameGoal_eq` — a reader that is past the header of a frame knows how long the frame is;
* `ChannelOk`, `channelOk_trans` — **the frames that were handed on are the first of those that were
  made, unchanged and in order, and the bytes in the channel are exactly the others**.
-/

namespace WaterNet.Tcp

open WaterNet.Lib (Pipe)
open WaterNet.Lib.Machine (run StepsMeet run_invariant run_invariant_of)
open WaterNet.Lib.Pool (getElem?_set_eq_some)
open WaterNet.Traffic (World rawReturned rawReturned_snoc sentContents sentContents_snoc)

namespace Topology

variable {κ ι : Type} (T : Topology κ ι)

/-- Two ends on one net have nothing in common. -/
structure Proper : Prop where
  ep : ∀ d d', (T.near d).net = (T.near d').net → (T.near d).ep = (T.near d').ep → d = d'
  tx : ∀ d d', (T.near d).net = (T.near d').net → (T.near d).tx = (T.near d').tx → d = d'
  rx : ∀ d d', (T.near d).net = (T.near d').net → (T.near d).rx = (T.near d').rx → d = d'
  apart : ∀ d d', (T.near d).net = (T.near d').net → (T.near d).tx ≠ (T.near d').rx

theorem far_eq_near (d : Direction κ) : T.far d = T.near (d.1, d.2.other) := rfl

theorem Proper.far_rx {T : Topology κ ι} (hT : T.Proper) {d d' : Direction κ}
    (hnet : (T.far d).net = (T.far d').net) (hrx : (T.far d).rx = (T.far d').rx) : d = d' := by
  obtain ⟨k, w⟩ := d
  obtain ⟨k', w'⟩ := d'
  have h := hT.rx (k, w.other) (k', w'.other) hnet hrx
  rw [Prod.mk.injEq] at h ⊢
  exact ⟨h.1, by rw [← Which.other_other w, h.2, Which.other_other]⟩

variable [Fintype κ] [DecidableEq ι]

theorem ownsTx_near (d : Direction κ) : T.ownsTx (T.near d).net (T.near d).tx = true :=
  decide_eq_true ⟨d, rfl, rfl⟩

theorem ownsRx_near (d : Direction κ) : T.ownsRx (T.near d).net (T.near d).rx = true :=
  decide_eq_true ⟨d, rfl, rfl⟩

theorem ownsEp_near (d : Direction κ) : T.ownsEp (T.near d).net (T.near d).ep = true :=
  decide_eq_true ⟨d, rfl, rfl⟩

end Topology

/-! ### Frames -/

/-- Past its header the length of a frame is known. -/
theorem frameGoal_eq {x : Carried} (hx : Sendable x) {got : Stream} (hpre : got <+: frameBytes x)
    (hlen : 41 ≤ got.length) : frameGoal got = (frameBytes x).length := by
  have hword : (writeBeU64 (1 + 8 * 4 + x.2.len)).length = 8 := WaterNet.Lib.BigEndian.length_bytes _ _
  have hsize : 1 + 8 * 4 + x.2.len - (1 + 8 * 4) = x.2.len := by
    rw [UInt64.add_comm, UInt64.add_sub_cancel]
  obtain ⟨rest, hgot⟩ : ∃ rest, got = writeBeU64 (1 + 8 * 4 + x.2.len) ++ rest := by
    rw [frameBytes_eq] at hpre
    have hhead := List.prefix_of_prefix_length_le (List.prefix_append _ _) hpre
      (by rw [hword]; omega)
    exact ⟨_, (List.prefix_iff_eq_append.mp hhead).symm⟩
  rw [frameGoal, if_neg (Nat.not_lt.mpr hlen), hgot, readBeU64_write, frameBytes_length hx.2]
  show 41 + (1 + 8 * 4 + x.2.len - (1 + 8 * 4)).toNat = _
  rw [hsize]

/-- A reader inside a frame wants more bytes exactly as long as the frame has more. -/
theorem lt_frameGoal_iff {x : Carried} (hx : Sendable x) {got : Stream}
    (hpre : got <+: frameBytes x) :
    got.length < frameGoal got ↔ got.length < (frameBytes x).length := by
  by_cases hlen : got.length < 41
  · have hframe := frameBytes_length hx.2
    rw [frameGoal, if_pos hlen]
    omega
  · rw [frameGoal_eq hx hpre (Nat.not_lt.mp hlen)]

/-- A message that `thread_rx` makes fills its buffer. -/
theorem rxOne_full {junk : ℕ → UInt8} {st st' : Store} {s rest : Stream} {msg : Message}
    (h : rxOne junk st s = .sendx msg st' rest) :
    (st'.buf msg.buf).len = (st'.buf msg.buf).cap := by
  obtain ⟨msgsize, s₁, hdr, s₂, -, -, -, hmsg, -⟩ := rxOne_eq_sendx h
  simp only [rxMessage, Option.bind_eq_bind, Option.bind_eq_some_iff] at hmsg
  obtain ⟨i, hwrite, hmsg⟩ := hmsg
  cases hmsg
  show ((st.newBuf i).2.buf st.nbuf).len = ((st.newBuf i).2.buf st.nbuf).cap
  rw [Store.newBuf_buf_self]
  unfold RawMessage.Internal.writeFromSlice at hwrite
  split at hwrite
  · cases hwrite
  · rename_i hle
    cases hwrite
    exact if_neg hle

/-! ### One channel -/

/-- The sid in front of the frames, as long as `thread_rx` has not taken it. -/
def Channel.preamble (sid : ID) (c : Channel) : List Stream :=
  if c.tx ≠ .starting ∧ c.rx = .greeting then [writeBeU64 sid] else []

/-- The messages whose frames `thread_rx` has not taken. -/
def Channel.inFlight (c : Channel) : List Carried := c.framed.drop c.handed.length

/-- What was handed on is what the first frames were made of, and the others are in the pipe. -/
structure ChannelOk (sid : ID) (c : Channel) : Prop where
  sendable : ∀ x ∈ c.framed, Sendable x
  le : c.handed.length ≤ c.framed.length
  handed : c.handed.map wire = (c.framed.take c.handed.length).map wire
  pipe : c.rx ≠ .done → c.pipe.Carries (c.preamble sid ++ c.inFlight.map frameBytes)
  starting : c.tx = .starting → c.framed = [] ∧ c.rx ≠ .looping

theorem channelOk_new (sid : ID) : ChannelOk sid Channel.new where
  sendable x hx := by cases hx
  le := le_rfl
  handed := rfl
  pipe _ := Pipe.carries_empty
  starting _ := ⟨rfl, by decide⟩

section Channel

variable {sid : ID} {c : Channel}

theorem ChannelOk.hello (h : ChannelOk sid c) (htx : c.tx = .starting) :
    ChannelOk sid { c with pipe := c.pipe.push (writeBeU64 sid), tx := .running } where
  sendable := h.sendable
  le := h.le
  handed := h.handed
  pipe hrx := by
    obtain ⟨hnil, hloop⟩ := h.starting htx
    have hgreet : c.rx = .greeting := by
      cases hc : c.rx with
      | greeting => rfl
      | looping => exact absurd hc hloop
      | done => exact absurd hc hrx
    have hpre : c.preamble sid = [] := if_neg fun hn => hn.1 htx
    have hflight : c.inFlight = [] := by simp [Channel.inFlight, hnil]
    have hcar := (h.pipe hrx).push (writeBeU64 sid)
    rw [hpre, hflight] at hcar
    simpa [Channel.preamble, Channel.inFlight, hgreet, hnil] using hcar
  starting hc := by cases hc

theorem ChannelOk.frame (h : ChannelOk sid c) (htx : c.tx = .running) {x : Carried}
    (hx : Sendable x) :
    ChannelOk sid { c with pipe := c.pipe.push (frameBytes x), framed := c.framed ++ [x] } where
  sendable y hy := (List.mem_append.mp hy).elim (h.sendable y) fun hy => List.mem_singleton.mp hy ▸ hx
  le := by
    show c.handed.length ≤ (c.framed ++ [x]).length
    rw [List.length_append]
    exact Nat.le_add_right_of_le h.le
  handed := by
    show c.handed.map wire = ((c.framed ++ [x]).take c.handed.length).map wire
    rw [List.take_append_of_le_length h.le]
    exact h.handed
  pipe hrx := by
    have hflight : (c.framed ++ [x]).drop c.handed.length = c.inFlight ++ [x] :=
      List.drop_append_of_le_length h.le
    show (c.pipe.push (frameBytes x)).Carries
      (c.preamble sid ++ ((c.framed ++ [x]).drop c.handed.length).map frameBytes)
    rw [hflight, List.map_append, ← List.append_assoc]
    exact (h.pipe hrx).push (frameBytes x)
  starting hc := by rw [htx] at hc; cases hc

theorem ChannelOk.forward {terminate : TypeId} (h : ChannelOk sid c) (htx : c.tx = .running) {msg : Message}
    {content : RawMessage.Internal} (hx : msg.isRaw = true → Sendable (msg, content)) :
    ChannelOk sid (Fabric.forward terminate c msg content) := by
  unfold Fabric.forward
  split
  · refine ⟨h.sendable, h.le, h.handed, fun hrx => ?_, fun hc => by cases hc⟩
    have hpre : ({ c with tx := .done } : Channel).preamble sid = c.preamble sid := by
      simp [Channel.preamble, htx]
    rw [hpre]
    exact h.pipe hrx
  · split
    · exact h
    · rename_i hraw
      exact h.frame htx (hx (by simpa using hraw))

theorem ChannelOk.write (h : ChannelOk sid c) (n : ℕ) :
    ChannelOk sid { c with pipe := c.pipe.write n } :=
  ⟨h.sendable, h.le, h.handed, fun hrx => (h.pipe hrx).write n, h.starting⟩

/-- The chunk that the reader is in, if it has read a byte or there is one to read. -/
theorem ChannelOk.chunk (h : ChannelOk sid c) (hrx : c.rx ≠ .done) (hbyte : c.pipe ≠ Pipe.empty) :
    (c.rx = .greeting ∧ c.tx ≠ .starting ∧ c.preamble sid = [writeBeU64 sid]) ∨
      (c.rx = .looping ∧ c.preamble sid = [] ∧ ∃ x rest, c.inFlight = x :: rest ∧ Sendable x) := by
  have hcar := h.pipe hrx
  cases hc : c.rx with
  | done => exact absurd hc hrx
  | greeting =>
    by_cases htx : c.tx = .starting
    · obtain ⟨hnil, -⟩ := h.starting htx
      have hpre : c.preamble sid = [] := if_neg fun hn => hn.1 htx
      have hflight : c.inFlight = [] := by simp [Channel.inFlight, hnil]
      rw [hpre, hflight] at hcar
      exact absurd hcar.of_nil hbyte
    · exact Or.inl ⟨rfl, htx, if_pos ⟨htx, hc⟩⟩
  | looping =>
    have hpre : c.preamble sid = [] := if_neg fun hn => by rw [hc] at hn; cases hn.2
    cases hflight : c.inFlight with
    | nil =>
      rw [hpre, hflight] at hcar
      exact absurd hcar.of_nil hbyte
    | cons x rest =>
      have hx : x ∈ c.inFlight := by rw [hflight]; exact List.mem_cons_self
      exact Or.inr ⟨rfl, hpre, x, rest, rfl, h.sendable x (List.mem_of_mem_drop hx)⟩

theorem ChannelOk.read (h : ChannelOk sid c) (hlt : c.pipe.got.length < c.goal) {p : Pipe UInt8}
    (hp : c.pipe.read = some p) : ChannelOk sid { c with pipe := p } := by
  refine ⟨h.sendable, h.le, h.handed, fun hrx => ?_, h.starting⟩
  have hcar := h.pipe hrx
  have hbyte : c.pipe ≠ Pipe.empty := fun he => by rw [he] at hp; cases hp
  show p.Carries (c.preamble sid ++ c.inFlight.map frameBytes)
  rcases h.chunk hrx hbyte with ⟨hc, -, hpre⟩ | ⟨hc, hpre, x, rest, hflight, hx⟩
  · rw [hpre] at hcar ⊢
    rw [Channel.goal, hc] at hlt
    have hword : (writeBeU64 sid).length = 8 := WaterNet.Lib.BigEndian.length_bytes _ _
    exact hcar.read (by rw [hword]; exact hlt) hp
  · rw [hpre, hflight] at hcar ⊢
    rw [Channel.goal, hc] at hlt
    exact hcar.read ((lt_frameGoal_iff hx hcar.inside).mp hlt) hp

/-- What `thread_rx` takes for the sid of the peer is that. -/
theorem ChannelOk.greet (h : ChannelOk sid c) (hrx : c.rx = .greeting)
    (hlen : 8 ≤ c.pipe.got.length) {rsid : ID} {rest : Stream}
    (hsid : readBeU64 c.pipe.got = some (rsid, rest)) :
    rsid = sid ∧ ChannelOk sid { c with pipe := c.pipe.take, rx := .looping } := by
  have hcar := h.pipe (by simp [hrx])
  have hbyte : c.pipe ≠ Pipe.empty := fun he => by rw [he] at hlen; simp [Pipe.empty] at hlen
  rcases h.chunk (by simp [hrx]) hbyte with ⟨-, htx, hpre⟩ | ⟨hc, -⟩
  · rw [hpre] at hcar
    have hword : (writeBeU64 sid).length = 8 := WaterNet.Lib.BigEndian.length_bytes _ _
    have hgot := hcar.got_eq (le_antisymm hcar.inside.length_le (by rw [hword]; exact hlen))
    rw [hgot, ← List.append_nil (writeBeU64 sid), readBeU64_write] at hsid
    cases hsid
    refine ⟨rfl, h.sendable, h.le, h.handed, fun _ => ?_, fun hc => absurd hc htx⟩
    have hpre' : ({ c with pipe := c.pipe.take, rx := .looping } : Channel).preamble sid = [] :=
      if_neg fun hn => by cases hn.2
    rw [hpre']
    exact hcar.take hgot
  · rw [hrx] at hc
    cases hc

theorem ChannelOk.ended (h : ChannelOk sid c) : ChannelOk sid { c with rx := .done } :=
  ⟨h.sendable, h.le, h.handed, fun hrx => absurd rfl hrx, fun htx => ⟨(h.starting htx).1, nofun⟩⟩

/-- **A pass of `thread_rx`** that comes to a message has read the next frame, and nothing else. -/
theorem ChannelOk.pass (h : ChannelOk sid c) (hrx : c.rx = .looping) {after : RxState}
    (hafter : after = .looping ∨ after = .done)
    (hclean : c.pipe.got.length < 41 ∨ c.goal ≤ c.pipe.got.length) {junk : ℕ → UInt8}
    {st₀ st : Store} {msg : Message} {rest : Stream}
    (hone : rxOne junk st₀ c.pipe.got = .sendx msg st rest) :
    ∃ x ys, c.inFlight = x :: ys ∧ Sendable x ∧ msg = received st₀ x ∧
      st = (st₀.newBuf (receivedBuf x)).2 ∧
      ChannelOk sid { c with pipe := c.pipe.take, rx := after
                             handed := c.handed ++ [(msg, st.buf msg.buf)] } := by
  have hnot : c.rx ≠ .done := by simp [hrx]
  have hcar := h.pipe hnot
  have hbyte : c.pipe ≠ Pipe.empty := fun he => by rw [he] at hone; cases hone
  rcases h.chunk hnot hbyte with ⟨hc, -⟩ | ⟨-, hpre, x, ys, hflight, hx⟩
  · rw [hrx] at hc
    cases hc
  rw [hpre, hflight] at hcar
  have hpre' : c.pipe.got <+: frameBytes x := hcar.inside
  -- before its end a frame yields no message
  have hwhole : c.pipe.got = frameBytes x := by
    refine hcar.got_eq (le_antisymm hpre'.length_le (Nat.not_lt.mp fun hlt => ?_))
    have htake : c.pipe.got = (frameBytes x).take c.pipe.got.length := List.prefix_iff_eq_take.mp hpre'
    have hshort : c.pipe.got.length < 41 := by
      rcases hclean with hshort | hgoal
      · exact hshort
      · rw [Channel.goal, hrx] at hgoal
        exact absurd ((lt_frameGoal_iff hx hpre').mpr hlt) (Nat.not_lt.mpr hgoal)
    have hnone := (rxOne_cut junk st₀ hx.2 hlt).mpr hshort
    rw [← htake, hone] at hnone
    cases hnone
  have hframe := rxOne_frameBytes junk st₀ hx []
  rw [List.append_nil, ← hwhole, hone] at hframe
  cases hframe
  have hwire := wire_received st₀ hx
  have hdrop : c.framed.drop (c.handed.length + 1) = ys := by
    rw [← List.drop_drop, ← Channel.inFlight, hflight]
    rfl
  have htake : c.framed.take (c.handed.length + 1) = c.framed.take c.handed.length ++ [x] := by
    have hget : c.framed[c.handed.length]? = some x := by
      rw [← List.head?_drop, ← Channel.inFlight, hflight]
      rfl
    rw [List.take_add_one, hget]
    rfl
  have hlt : c.handed.length < c.framed.length := by
    have hlen := congrArg List.length hflight
    rw [Channel.inFlight, List.length_drop, List.length_cons] at hlen
    omega
  refine ⟨x, ys, hflight, hx, rfl, rfl, h.sendable, ?_, ?_, fun _ => ?_, fun htx => ?_⟩
  · rw [List.length_append]
    exact hlt
  · rw [List.length_append, List.length_singleton, htake, List.map_append, List.map_append, ← h.handed]
    simp only [List.map_cons, List.map_nil, hwire]
  · have hpre'' : ∀ p hs, ({ c with pipe := p, rx := after, handed := hs } : Channel).preamble sid =
        [] := fun p hs => if_neg fun hn => by
      rcases hafter with rfl | rfl <;> cases hn.2
    rw [hpre'', Channel.inFlight, List.length_append, List.length_singleton, hdrop]
    exact hcar.take hwhole
  · exact absurd hrx (h.starting htx).2

end Channel

namespace Fabric

section

variable {κ ι : Type} {terminate : TypeId} {T : Topology κ ι} {f f' : Fabric κ ι} {a : Act κ ι}

/-! ### What holds all along a run -/

/-- Runs start with any nets, and with connections that have just been made. -/
structure Init (f : Fabric κ ι) : Prop where
  nets : ∀ i, (f.net i).Init
  chans : ∀ d, f.chan d = Channel.new

/-- What is known of the nets, and of the threads that the bridges run there. -/
structure NetsOk (T : Topology κ ι) (f : Fabric κ ι) : Prop where
  good : ∀ i, (f.net i).Good
  sized : ∀ i, (f.net i).Sized
  tx : ∀ d th, (f.net (T.near d).net).threads[(T.near d).tx]? = some th →
    th.pc.receives (T.near d).ep
  rx : ∀ d th, (f.net (T.near d).net).threads[(T.near d).rx]? = some th → th.pc.pending = []

/-- Nobody but its `thread_tx` is in a `recv` at the endpoint of a bridge, and the frames were made of
the raw messages that were returned there. -/
structure Forwards (T : Topology κ ι) (f : Fabric κ ι) (d : Direction κ) : Prop where
  alone : ∀ t th, (f.net (T.near d).net).threads[t]? = some th →
    th.pc.recvsAt = some (T.near d).ep → t = (T.near d).tx
  framed : (f.chan d).framed <+: rawReturned (T.near d).ep (f.net (T.near d).net).trace ∧
    ((f.chan d).tx ≠ .done →
      (f.chan d).framed = rawReturned (T.near d).ep (f.net (T.near d).net).trace)

/-- What `thread_rx` has sent on its net is what it has handed to `sendx`, in full buffers. -/
structure Puts (T : Topology κ ι) (f : Fabric κ ι) (d : Direction κ) : Prop where
  handed : (sentContents (T.far d).rx (f.net (T.far d).net).trace).map wire =
    (f.chan d).handed.map wire
  full : ∀ x ∈ sentContents (T.far d).rx (f.net (T.far d).net).trace, x.2.len = x.2.cap

/-- All of it. -/
structure Ok (T : Topology κ ι) (f : Fabric κ ι) : Prop where
  nets : NetsOk T f
  chans : ∀ d, ChannelOk (f.net (T.near d).net).net.sid (f.chan d)
  forwards : ∀ d, Forwards T f d
  puts : ∀ d, Puts T f d

theorem netsOk_init (h : f.Init) : NetsOk T f where
  good i := World.good_init (h.nets i)
  sized i := World.sized_init (h.nets i)
  tx d th hth := by
    rw [(h.nets _).threads th (List.mem_of_getElem? hth)]
    trivial
  rx d th hth := by
    rw [(h.nets _).threads th (List.mem_of_getElem? hth)]
    rfl

theorem Puts.same {d : Direction κ} (hi : Puts T f d)
    (htrace : sentContents (T.far d).rx (f'.net (T.far d).net).trace =
      sentContents (T.far d).rx (f.net (T.far d).net).trace)
    (hhanded : (f'.chan d).handed = (f.chan d).handed) : Puts T f' d := by
  refine ⟨?_, ?_⟩
  · rw [htrace, hhanded]
    exact hi.handed
  · rw [htrace]
    exact hi.full

theorem puts_init (h : f.Init) (d : Direction κ) : Puts T f d := by
  constructor
  · rw [h.chans d, (h.nets _).trace]
    rfl
  · rw [(h.nets _).trace]
    exact fun x hx => by cases hx

/-- The message that `thread_tx` goes on with is the one its `recv` returned. -/
theorem returned_of_forward (hi : NetsOk T f) {d : Direction κ} {w' : World} {msg : Message}
    {rest : List Message} (hw : (f.net (T.near d).net).step (.step (T.near d).tx) = some w')
    (hheld : w'.held.drop (f.net (T.near d).net).held.length = msg :: rest) :
    ∃ id copy, w'.trace = (f.net (T.near d).net).trace ++
      [.returned (T.near d).ep id copy msg (w'.net.store.buf msg.buf)] := by
  simp only [World.step, Option.bind_eq_bind, Option.bind_eq_some_iff] at hw
  obtain ⟨th, hth, hadv⟩ := hw
  rcases World.held_advance (hi.tx d th hth) hadv with hsame | ⟨id, copy, msg', hsnoc, hret⟩
  · rw [hsame, List.drop_length] at hheld
    cases hheld
  · rw [hsnoc, List.drop_left] at hheld
    cases hheld
    exact ⟨id, copy, hret⟩

theorem clean_of_handed {d : Direction κ} {junk : ℕ → UInt8} {after : RxState}
    (hrx : (f.chan d).rx = .looping) (hclean : f.clean a = true)
    (hact : (a = .pass d junk ∧ after = .looping ∧ (f.chan d).goal ≤ (f.chan d).pipe.got.length) ∨
      (a = .hangUp d junk ∧ after = .done)) :
    (after = .looping ∨ after = .done) ∧
      ((f.chan d).pipe.got.length < 41 ∨ (f.chan d).goal ≤ (f.chan d).pipe.got.length) := by
  rcases hact with ⟨-, hafter, hgoal⟩ | ⟨rfl, hafter⟩
  · exact ⟨Or.inl hafter, Or.inr hgoal⟩
  · refine ⟨Or.inr hafter, ?_⟩
    simpa [clean, hrx] using hclean

/-- A message that ends `thread_tx` is not raw. -/
theorem forward_framed (c : Channel) (msg : Message) (content : RawMessage.Internal) :
    (forward terminate c msg content).framed =
      c.framed ++ if msg.isRaw then [(msg, content)] else [] := by
  unfold forward
  by_cases hraw : msg.isRaw = true
  · obtain ⟨r, hr⟩ := Message.isRaw_iff.mp hraw
    have htype : msg.isType terminate = false := by simp [Message.isType, hr]
    simp [htype, hraw]
  · by_cases htype : msg.isType terminate = true <;> simp [htype, hraw]

theorem forwards_init (h : f.Init) (d : Direction κ) : Forwards T f d := by
  have hnet := h.nets (T.near d).net
  constructor
  · intro t th hth hat
    rw [hnet.threads th (List.mem_of_getElem? hth)] at hat
    cases hat
  · rw [h.chans d, hnet.trace]
    exact ⟨List.prefix_rfl, fun _ => rfl⟩

/-- A step that changes neither what was framed nor what was returned. -/
theorem Forwards.same {d : Direction κ} (hi : Forwards T f d)
    (halone : ∀ t th, (f'.net (T.near d).net).threads[t]? = some th →
      th.pc.recvsAt = some (T.near d).ep → t = (T.near d).tx)
    (hframed : (f'.chan d).framed = (f.chan d).framed)
    (hdone : (f.chan d).tx = .done → (f'.chan d).tx = .done)
    (htrace : rawReturned (T.near d).ep (f'.net (T.near d).net).trace =
      rawReturned (T.near d).ep (f.net (T.near d).net).trace) : Forwards T f' d := by
  refine ⟨halone, ?_⟩
  rw [hframed, htrace]
  exact ⟨hi.framed.1, fun hd => hi.framed.2 fun hd' => hd (hdone hd')⟩

theorem ok_init (h : f.Init) : Ok T f := by
  refine ⟨netsOk_init h, fun d => ?_, forwards_init h, puts_init h⟩
  rw [h.chans d]
  exact channelOk_new _

variable [DecidableEq κ] [DecidableEq ι] [Fintype κ]

/-! ### The nets and the threads of the bridges -/

/-- A thread of a bridge keeps a property of its program point that its own steps keep, if it is so
of the calls it makes. -/
theorem pc_trans {P : Traffic.Pc → Prop} {i : ι} {t : ℕ} (h : Trans terminate T f a f')
    (howns : T.ownsTx i t = true ∨ T.ownsRx i t = true)
    (hadv : ∀ (w : World) th w', P th.pc → w.advance t th = some w' →
      ∃ th', w'.threads = w.threads.set t th' ∧ P th'.pc)
    (hrecv : ∀ d, (T.near d).net = i → (T.near d).tx = t → P (.recvGet (T.near d).ep))
    (hsnap : ∀ d, (T.far d).net = i → (T.far d).rx = t → ∀ m, P (.sendSnap m))
    (hi : ∀ th, (f.net i).threads[t]? = some th → P th.pc) :
    ∀ th, (f'.net i).threads[t]? = some th → P th.pc := by
  -- a step of one net, which is this one or another
  have hstep : ∀ {j : ι} {b : Traffic.Act} {w' w'' : World}, (f.net j).step b = some w' →
      (j = i → ∀ e, b = .recv t e → P (.recvGet e)) → (j = i → ∀ k how, b ≠ .send t k how) →
      w''.threads = w'.threads →
      ∀ th, (Function.update f.net j w'' i).threads[t]? = some th → P th.pc := by
    intro j b w' w'' hw hr hs hsame th hth
    by_cases hij : i = j
    · subst hij
      rw [Function.update_self, hsame] at hth
      exact World.pc_step hw (hadv _) (hr rfl) (hs rfl) hi th hth
    · rw [Function.update_of_ne hij] at hth
      exact hi th hth
  cases h with
  | hello | write | read | ended => exact hi
  | @net j b w' hmay hw =>
    refine hstep hw (fun hj e hb => ?_) (fun hj k how hb => ?_) rfl
    · subst hj hb
      simp only [Topology.mayAct, Bool.and_eq_true, Bool.not_eq_true'] at hmay
      rcases howns with h | h <;> simp [h] at hmay
    · subst hj hb
      simp only [Topology.mayAct, Bool.and_eq_true, Bool.not_eq_true'] at hmay
      rcases howns with h | h <;> simp [h] at hmay
  | @recv d w' hw =>
    refine hstep hw (fun hj e hb => ?_) (fun _ _ _ hb => by cases hb) rfl
    cases hb
    exact hrecv d hj rfl
  | work hw => exact hstep hw (fun _ _ hb => by cases hb) (fun _ _ _ hb => by cases hb) rfl
  | forward htx hw => exact hstep hw (fun _ _ hb => by cases hb) (fun _ _ _ hb => by cases hb) rfl
  | @greet d rsid rest hrx hgoal hsid =>
    intro th hth
    by_cases hij : i = (T.far d).net
    · subst hij
      exact hi th (by simpa using hth)
    · exact hi th (by simpa [Function.update_of_ne hij] using hth)
  | @handed _ d junk after msg st rest th' hrx hact hone hth' hidle =>
    intro th hth
    by_cases hij : i = (T.far d).net
    · subst hij
      obtain ⟨m, hset⟩ := afterSendx_threads (f.net (T.far d).net) st (T.far d).rx th' msg
      have hth : (afterSendx (f.net (T.far d).net) st (T.far d).rx th' msg).threads[t]? = some th := by
        simpa using hth
      rw [hset] at hth
      rcases getElem?_set_eq_some hth with ⟨ht, rfl⟩ | ⟨-, hold⟩
      · exact hsnap d rfl ht.symm m
      · exact hi th hold
    · exact hi th (by simpa [Function.update_of_ne hij] using hth)

theorem netsOk_trans (hT : T.Proper) (h : Trans terminate T f a f') (hclean : f.clean a = true)
    (hi : NetsOk T f) : NetsOk T f' := by
  have hboth : ∀ i, (f'.net i).Good ∧ (f'.net i).Sized := by
    refine net_invariant (P := fun w => w.Good ∧ w.Sized) (fun w b w' hw hbytes hstep => ?_) h hclean
      fun i => ⟨hi.good i, hi.sized i⟩
    obtain ⟨own, hown⟩ := hw.1.owned
    exact ⟨World.good_trans (World.step_trans hstep) hw.1, World.sized_step hstep hbytes hown hw.2⟩
  refine ⟨fun i => (hboth i).1, fun i => (hboth i).2, fun d => ?_, fun d => ?_⟩
  · refine pc_trans h (Or.inl (T.ownsTx_near d)) (fun _ _ _ hpc => World.receives_advance hpc)
      (fun d' hnet htx => ?_) (fun d' hnet hrx _ => ?_) (hi.tx d)
    · rw [hT.tx d' d hnet htx]
      rfl
    · exact absurd hrx.symm (hT.apart d (d'.1, d'.2.other) hnet.symm)
  · exact pc_trans (P := fun pc => pc.pending = []) h (Or.inr (T.ownsRx_near d)) (fun _ _ _ _ => World.pending_advance)
      (fun _ _ _ => rfl) (fun _ _ _ _ => rfl) (hi.rx d)

/-! ### All channels -/

/-- What comes back from a `recv` of `thread_tx` can be made a frame of. -/
theorem sendable_returned {w : World} (hgood : w.Good) (hsized : w.Sized) {e : EpId}
    {id : Traffic.RecvId} {copy msg : Message} {content : RawMessage.Internal}
    (hret : .returned e id copy msg content ∈ w.trace) (hraw : msg.isRaw = true) :
    Sendable (msg, content) := by
  obtain ⟨-, m₀, content₀, ⟨hsent, -, -⟩, hcontent⟩ :=
    hgood.handedOut.content e id copy msg content hret
  obtain ⟨halloc, hcap⟩ := hsized.sent _ m₀ content₀ hsent
  have hbuf : content₀.buf.length = content₀.cap.toNat := halloc
  rw [hcontent hraw]
  refine ⟨hcap, ?_⟩
  show content₀.cap.toNat ≤ (content₀.buf.take content₀.cap.toNat).length
  rw [List.length_take, hbuf, Nat.min_self]

/-- The sid of a net does not change. -/
theorem sid_trans (h : Trans terminate T f a f') (i : ι) :
    (f'.net i).net.sid = (f.net i).net.sid := by
  obtain ⟨calls, -, hrun⟩ := net_step h i
  have hkeep : ∀ w b w', w.net.sid = (f.net i).net.sid → World.step w b = some w' →
      w'.net.sid = (f.net i).net.sid :=
    fun _ _ _ hs hstep => (World.sid_step hstep).trans hs
  exact run_invariant hkeep hrun rfl

/-- **Every channel carries what it should** after a clean step. -/
theorem channelOk_trans (h : Trans terminate T f a f') (hclean : f.clean a = true)
    (hn : NetsOk T f) (hi : ∀ d, ChannelOk (f.net (T.near d).net).net.sid (f.chan d))
    (d : Direction κ) : ChannelOk (f'.net (T.near d).net).net.sid (f'.chan d) := by
  rw [sid_trans h]
  have hone : ∀ {d' : Direction κ} {c : Channel}, ChannelOk (f.net (T.near d').net).net.sid c →
      ChannelOk (f.net (T.near d).net).net.sid (Function.update f.chan d' c d) := by
    intro d' c hc
    by_cases hd : d = d'
    · subst hd
      rw [Function.update_self]
      exact hc
    · rw [Function.update_of_ne hd]
      exact hi d
  cases h with
  | net | recv | work => exact hi d
  | @hello d' htx => exact hone ((hi d').hello htx)
  | @forward d' w' msg rest htx hw hheld =>
    obtain ⟨id, copy, htrace⟩ := returned_of_forward hn hw hheld
    have hret : .returned (T.near d').ep id copy msg (w'.net.store.buf msg.buf) ∈ w'.trace := by
      rw [htrace]
      exact List.mem_append_right _ (List.mem_singleton.mpr rfl)
    obtain ⟨own, hown⟩ := (hn.good (T.near d').net).owned
    have hgood := World.good_trans (World.step_trans hw) (hn.good (T.near d').net)
    have hsized := World.sized_step hw rfl hown (hn.sized (T.near d').net)
    exact hone ((hi d').forward htx fun hraw => sendable_returned hgood hsized hret hraw)
  | @write d' n => exact hone ((hi d').write n)
  | @read d' p hlt hp => exact hone ((hi d').read hlt hp)
  | @greet d' rsid rest hrx hgoal hsid => exact hone ((hi d').greet hrx hgoal hsid).2
  | @ended _ d' hrx => exact hone (hi d').ended
  | @handed _ d' junk after msg st rest th hrx hact hrx' hth hidle =>
    obtain ⟨hafter, hwhole⟩ := clean_of_handed hrx hclean hact
    obtain ⟨x, ys, -, -, -, -, hok⟩ := (hi d').pass hrx hafter hwhole hrx'
    exact hone hok

/-! ### What the frames are made of -/

/-- A step of one net that starts no `recv` at the endpoint of a bridge, unless it is the bridge's. -/
theorem alone_step {e : EpId} {t₀ : ℕ} {w w' : World} {b : Traffic.Act} (hw : w.step b = some w')
    (hb : ∀ t, b = .recv t e → t = t₀)
    (hi : ∀ t th, w.threads[t]? = some th → th.pc.recvsAt = some e → t = t₀) :
    ∀ t th, w'.threads[t]? = some th → th.pc.recvsAt = some e → t = t₀ := by
  intro t th hth hat
  rcases World.threads_step hw with hsame | ⟨u, thu, thu', hu, hset, hact⟩
  · rw [hsame] at hth
    exact hi t th hth hat
  by_cases hut : u = t
  · subst hut
    rcases hact with ⟨-, hadv⟩ | ⟨e', hrecv, hpc⟩ | ⟨i, how, m, hsend, hpc⟩
    · obtain ⟨th', hset', hback⟩ := World.recvsAt_advance hadv
      rw [hset'] at hth
      rcases getElem?_set_eq_some hth with ⟨-, rfl⟩ | ⟨hne, -⟩
      · exact hi u thu hu (hback _ hat)
      · exact absurd rfl hne
    · rw [hset] at hth
      rcases getElem?_set_eq_some hth with ⟨-, rfl⟩ | ⟨hne, -⟩
      · rw [hpc] at hat
        exact hb u (hrecv.trans (by rw [Option.some.inj hat]))
      · exact absurd rfl hne
    · rw [hset] at hth
      rcases getElem?_set_eq_some hth with ⟨-, rfl⟩ | ⟨hne, -⟩
      · rw [hpc] at hat
        cases hat
      · exact absurd rfl hne
  · rw [hset, List.getElem?_set_ne hut] at hth
    exact hi t th hth hat

theorem forwards_trans (hT : T.Proper) (h : Trans terminate T f a f') (hn : NetsOk T f)
    {d : Direction κ} (hi : Forwards T f d) : Forwards T f' d := by
  -- a step of one net, which is the one of this end or another
  have halone : ∀ {j : ι} {b : Traffic.Act} {w' : World} (w'' : World), (f.net j).step b = some w' →
      (j = (T.near d).net → ∀ t, b = .recv t (T.near d).ep → t = (T.near d).tx) →
      w''.threads = w'.threads → ∀ t th, (Function.update f.net j w'' (T.near d).net).threads[t]? =
        some th → th.pc.recvsAt = some (T.near d).ep → t = (T.near d).tx := by
    intro j b w' w'' hw hb hsame
    by_cases hij : (T.near d).net = j
    · subst hij
      rw [Function.update_self, hsame]
      exact alone_step hw (hb rfl) hi.alone
    · rw [Function.update_of_ne hij]
      exact hi.alone
  -- a channel that makes no frame
  have hchan : ∀ {d' : Direction κ} {c : Channel}, c.framed = (f.chan d').framed →
      ((f.chan d').tx = .done → c.tx = .done) → (Function.update f.chan d' c d).framed =
        (f.chan d).framed ∧ ((f.chan d).tx = .done → (Function.update f.chan d' c d).tx = .done) := by
    intro d' c hframed hdone
    by_cases hd : d = d'
    · subst hd
      rw [Function.update_self]
      exact ⟨hframed, hdone⟩
    · rw [Function.update_of_ne hd]
      exact ⟨rfl, id⟩
  -- a net at which nothing is returned
  have hlog : ∀ {j : ι} {w' : World}, rawReturned (T.near d).ep w'.trace =
      rawReturned (T.near d).ep (f.net j).trace →
      rawReturned (T.near d).ep (Function.update f.net j w' (T.near d).net).trace =
        rawReturned (T.near d).ep (f.net (T.near d).net).trace := by
    intro j w' hsame
    by_cases hij : (T.near d).net = j
    · subst hij
      rw [Function.update_self, hsame]
    · rw [Function.update_of_ne hij]
  cases h with
  | hello htx =>
    obtain ⟨hframed, hdone⟩ := hchan (c := { f.chan _ with tx := .running, pipe := _ }) rfl
      (fun hd => by rw [htx] at hd; cases hd)
    exact hi.same hi.alone hframed hdone rfl
  | @write d' n =>
    obtain ⟨hframed, hdone⟩ := hchan (c := { f.chan d' with pipe := (f.chan d').pipe.write n }) rfl id
    exact hi.same hi.alone hframed hdone rfl
  | @read d' p =>
    obtain ⟨hframed, hdone⟩ := hchan (c := { f.chan d' with pipe := p }) rfl id
    exact hi.same hi.alone hframed hdone rfl
  | @ended _ d' =>
    obtain ⟨hframed, hdone⟩ := hchan (c := { f.chan d' with rx := .done }) rfl id
    exact hi.same hi.alone hframed hdone rfl
  | @net j b w' hmay hw =>
    refine hi.same (halone _ hw (fun hj t hb => ?_) rfl) rfl id ?_
    · subst hj hb
      simp [Topology.mayAct, T.ownsEp_near d] at hmay
    · by_cases hij : (T.near d).net = j
      · subst hij
        rcases World.rawReturned_step hw (T.near d).ep with hsame | ⟨t, th, msg, rfl, hth, hat, -⟩
        · exact hlog hsame
        · rw [hi.alone t th hth hat] at hmay
          simp [Topology.mayAct, T.ownsTx_near d] at hmay
      · simp [Function.update_of_ne hij]
  | @recv d' w' hw =>
    refine hi.same (halone _ hw (fun hj t hb => ?_) rfl) rfl id (hlog ?_)
    · injection hb with ht he
      rw [← ht, hT.ep d' d hj he]
    · rcases World.rawReturned_step hw (T.near d).ep with hsame | ⟨t, th, msg, hb, -⟩
      · exact hsame
      · cases hb
  | @work d' w' hw hheld =>
    refine hi.same (halone _ hw (fun _ t hb => by cases hb) rfl) rfl id (hlog ?_)
    rcases World.rawReturned_step hw (T.near d).ep with hsame | ⟨t, th, msg, -, -, -, hsnoc, -⟩
    · exact hsame
    · rw [hsnoc, List.drop_left] at hheld
      cases hheld
  | @forward d' w' msg rest htx hw hheld =>
    obtain ⟨id, copy, htrace⟩ := returned_of_forward hn hw hheld
    have hal := halone (w'.hold (w'.held.eraseIdx (f.net (T.near d').net).held.length)) hw
      (fun _ t hb => by cases hb) rfl
    by_cases hd : d = d'
    · subst hd
      have hframed := hi.framed.2 (by rw [htx]; decide)
      have hlogged : rawReturned (T.near d).ep w'.trace = (f.chan d).framed ++
          if msg.isRaw then [(msg, w'.net.store.buf msg.buf)] else [] := by
        rw [htrace, rawReturned_snoc, hframed]
        by_cases hraw : msg.isRaw = true <;> simp [Traffic.Event.rawAt, hraw]
      have heq : (forward terminate (f.chan d) msg (w'.net.store.buf msg.buf)).framed =
          rawReturned (T.near d).ep w'.trace := by
        rw [forward_framed, hlogged]
      refine ⟨hal, ?_⟩
      simp only [setNet, setChan, Function.update_self, World.hold, heq]
      exact ⟨List.prefix_rfl, fun _ => trivial⟩
    · refine hi.same hal ?_ ?_ ?_
      · simp [Function.update_of_ne hd]
      · simp [Function.update_of_ne hd]
      · by_cases hij : (T.near d).net = (T.near d').net
        · have hep : (T.near d').ep ≠ (T.near d).ep := fun he => hd (hT.ep d d' hij he.symm)
          refine hlog ?_
          show rawReturned (T.near d).ep w'.trace = _
          rw [htrace, rawReturned_snoc]
          simp [Traffic.Event.rawAt, hep]
        · simp [Function.update_of_ne hij]
  | @greet d' rsid rest hrx hgoal hsid =>
    obtain ⟨hframed, hdone⟩ :=
      hchan (c := { f.chan d' with pipe := (f.chan d').pipe.take, rx := .looping }) rfl id
    refine hi.same (halone (b := .user (.setAddress (T.far d').ep _)) _ rfl (fun _ t hb => by cases hb) rfl)
      hframed hdone (hlog rfl)
  | @handed _ d' junk after msg st rest th' hrx hact hrx' hth' hidle =>
    obtain ⟨hframed, hdone⟩ := hchan (c := { f.chan d' with
      pipe := (f.chan d').pipe.take, rx := after
      handed := (f.chan d').handed ++ [(msg, st.buf msg.buf)] }) rfl id
    refine hi.same (fun t th hth hat => ?_) hframed hdone (hlog ?_)
    · by_cases hij : (T.near d).net = (T.far d').net
      · obtain ⟨m, hset⟩ := afterSendx_threads (f.net (T.far d').net) st (T.far d').rx th' msg
        have hth : (afterSendx (f.net (T.far d').net) st (T.far d').rx th' msg).threads[t]? =
            some th := by
          simpa [hij] using hth
        rw [hset] at hth
        rcases getElem?_set_eq_some hth with ⟨-, rfl⟩ | ⟨-, hold⟩
        · cases hat
        · rw [← hij] at hold
          exact hi.alone t th hold hat
      · exact hi.alone t th (by simpa [Function.update_of_ne hij] using hth) hat
    · rw [afterSendx]
      exact (rawReturned_snoc _ _ _).trans (List.append_nil _)

/-! ### What is put on the far net -/

theorem puts_trans (hT : T.Proper) (h : Trans terminate T f a f') (hn : NetsOk T f) {d : Direction κ}
    (hi : Puts T f d) : Puts T f' d := by
  -- a step of one net logs no send of this thread
  have hlog : ∀ {j : ι} {b : Traffic.Act} {w' : World} (w'' : World), (f.net j).step b = some w' →
      w''.trace = w'.trace → sentContents (T.far d).rx (Function.update f.net j w'' (T.far d).net).trace =
        sentContents (T.far d).rx (f.net (T.far d).net).trace := by
    intro j b w' w'' hw hsame
    by_cases hij : (T.far d).net = j
    · subst hij
      rw [Function.update_self, hsame]
      exact World.sentContents_step hw (hn.good _).order (hn.rx (d.1, d.2.other))
    · rw [Function.update_of_ne hij]
  have hchan : ∀ {d' : Direction κ} {c : Channel}, c.handed = (f.chan d').handed →
      (Function.update f.chan d' c d).handed = (f.chan d).handed := by
    intro d' c hc
    by_cases hd : d = d'
    · subst hd
      rw [Function.update_self, hc]
    · rw [Function.update_of_ne hd]
  cases h with
  | @hello d' htx =>
    exact hi.same rfl (hchan (c := { f.chan d' with
      pipe := (f.chan d').pipe.push (writeBeU64 (f.net (T.near d').net).net.sid), tx := .running }) rfl)
  | @write d' n =>
    exact hi.same rfl (hchan (c := { f.chan d' with pipe := (f.chan d').pipe.write n }) rfl)
  | @read d' p => exact hi.same rfl (hchan (c := { f.chan d' with pipe := p }) rfl)
  | @ended _ d' => exact hi.same rfl (hchan (c := { f.chan d' with rx := .done }) rfl)
  | net hmay hw => exact hi.same (hlog _ hw rfl) rfl
  | recv hw => exact hi.same (hlog _ hw rfl) rfl
  | work hw => exact hi.same (hlog _ hw rfl) rfl
  | @forward d' w' msg rest htx hw hheld =>
    have hhanded : (forward terminate (f.chan d') msg (w'.net.store.buf msg.buf)).handed =
        (f.chan d').handed := by
      unfold forward
      split
      · rfl
      · split <;> rfl
    exact hi.same (hlog (w'.hold (w'.held.eraseIdx (f.net (T.near d').net).held.length)) hw rfl)
      (hchan hhanded)
  | @greet d' rsid rest hrx hgoal hsid =>
    exact hi.same (hlog (b := .user (.setAddress (T.far d').ep _)) _ rfl rfl)
      (hchan (c := { f.chan d' with pipe := (f.chan d').pipe.take, rx := .looping }) rfl)
  | @handed _ d' junk after msg st rest th hrx hact hrx' hth hidle =>
    have hlogged : ∀ t, sentContents t
        (afterSendx (f.net (T.far d').net) st (T.far d').rx th msg).trace =
          sentContents t (f.net (T.far d').net).trace ++ if (T.far d').rx = t then
            [({ msg with origin := ⟨(T.far d').rx, th.sent⟩ }, st.buf msg.buf)] else [] := by
      intro t
      rw [afterSendx]
      refine (sentContents_snoc _ _ _).trans ?_
      by_cases ht : (T.far d').rx = t
      · simp [Traffic.Event.sentWith, ht]
        rfl
      · simp [Traffic.Event.sentWith, ht]
    by_cases hd : d = d'
    · subst hd
      constructor
      · simp only [setNet, setChan, Function.update_self, hlogged, if_true, List.map_append, hi.handed]
        rfl
      · simp only [setNet, setChan, Function.update_self, hlogged, if_true]
        intro x hx
        rcases List.mem_append.mp hx with hx | hx
        · exact hi.full x hx
        · rw [List.mem_singleton.mp hx]
          exact rxOne_full hrx'
    · refine hi.same ?_ (by simp [Function.update_of_ne hd])
      by_cases hij : (T.far d).net = (T.far d').net
      · have hrx : (T.far d').rx ≠ (T.far d).rx := fun h => hd (hT.far_rx hij h.symm)
        simp [hij, hlogged, hrx]
      · simp [Function.update_of_ne hij]

/-! ### A bridge is a FIFO -/

/-- **One clean step.** -/
theorem ok_step (hT : T.Proper) (hi : Ok T f) (hclean : f.clean a = true)
    (h : step terminate T f a = some f') : Ok T f' := by
  have htrans := step_trans h
  exact ⟨netsOk_trans hT htrans hclean hi.nets, channelOk_trans htrans hclean hi.nets hi.chans,
    fun d => forwards_trans hT htrans hi.nets (hi.forwards d),
    fun d => puts_trans hT htrans hi.nets (hi.puts d)⟩

theorem ok_run (hT : T.Proper) (hinit : f.Init) {acts : List (Act κ ι)}
    (hclean : StepsMeet (step terminate T) (fun f a => f.clean a = true) f acts)
    (hrun : run (step terminate T) f acts = some f') : Ok T f' :=
  run_invariant_of (fun _ _ _ hi hc h => ok_step hT hi hc h) hclean hrun (ok_init hinit)

/-- **What a bridge puts on a net.**  In every clean run, the messages `thread_rx` has sent on its net
are the first of the raw messages that the endpoint at the other end has received, with the addresses
and the bytes they had there: none is skipped, repeated, overtaken or changed.  While both threads run,
the bytes that are in the channel are the frames of the others. -/
theorem bridged_in_order (hT : T.Proper) (hinit : f.Init) {acts : List (Act κ ι)}
    (hclean : StepsMeet (step terminate T) (fun f a => f.clean a = true) f acts)
    (hrun : run (step terminate T) f acts = some f') (d : Direction κ) :
    let put := (sentContents (T.far d).rx (f'.net (T.far d).net).trace).map wire
    let received := rawReturned (T.near d).ep (f'.net (T.near d).net).trace
    let c := f'.chan d
    put <+: received.map wire ∧
      (c.tx ≠ .done → c.rx ≠ .done → ∃ rest : List Carried, received.map wire = put ++ rest.map wire ∧
        c.pipe.got ++ (c.pipe.wire ++ c.pipe.unsent) =
          (c.preamble (f'.net (T.near d).net).net.sid).flatten ++ rest.flatMap frameBytes) := by
  intro put received c
  have hok := ok_run hT hinit hclean hrun
  have hchan := hok.chans d
  have hput : put = (c.framed.take c.handed.length).map wire := (hok.puts d).handed.trans hchan.handed
  have hsplit : c.framed.map wire = put ++ c.inFlight.map wire := by
    rw [hput, ← List.map_append, Channel.inFlight, List.take_append_drop]
  refine ⟨?_, fun htx hrx => ⟨c.inFlight, ?_, ?_⟩⟩
  · refine List.IsPrefix.trans ?_ ((hok.forwards d).framed.1.map wire)
    rw [hsplit]
    exact List.prefix_append _ _
  · rw [← hsplit, (hok.forwards d).framed.2 htx]
  · rw [(hchan.pipe hrx).all, List.flatten_append, List.flatMap_def]

end

/-! #### Two nets and one connection -/

def joined : Topology Unit Which := fun _ w => ⟨w, 1, 1, 2⟩

/-- A net with an endpoint, the endpoint of a bridge and three threads. -/
def joinedNet (sid : ID) : World where
  net := bridgeEndpoint ((Net.new sid).newEndpoint 0) 1
  waitmutex _ := false
  threads := List.replicate 3 ⟨.idle, 0, 0⟩
  held := []
  trace := []

def joinedNets : Fabric Unit Which where
  net
    | .listener => joinedNet 100
    | .connector => joinedNet 200
  chan _ := Channel.new

theorem joined_proper : joined.Proper := by
  constructor <;> simp [joined, Topology.near]

theorem joinedNet_init (sid : ID) : (joinedNet sid).Init := by
  have hnd : [0, 1].Nodup := by decide
  refine ⟨hnd, rfl, fun _ => rfl, fun e => ?_, fun th hth => ?_, rfl, rfl⟩
  · by_cases h1 : e = 1 <;> by_cases h0 : e = 0 <;>
      simp [joinedNet, bridgeEndpoint, Net.getNeweid, Net.addEndpoint, Net.newEndpoint, Net.new,
        Endpoint.new, Function.update, h0, h1]
  · rw [List.eq_of_mem_replicate hth]

theorem joinedNets_init : joinedNets.Init where
  nets w := by cases w <;> exact joinedNet_init _
  chans _ := rfl

/-- A broadcast of two bytes: `thread_tx` makes a frame of it, which goes out in two pieces that do not
end where the sid or the frame does. -/
def crossing : List (Act Unit Which) :=
  let d : Direction Unit := ((), .listener)
  [Act.net .listener (.user (.newRaw (fun _ => 7) 2)), .net .listener (.send 0 0 (.send 0))] ++
    List.replicate 7 (Act.net .listener (.step 0)) ++ List.replicate 6 (Act.tx d) ++
    [Act.write d 20] ++ List.replicate 8 (Act.read d) ++ [Act.greet d] ++ List.replicate 12 (Act.read d) ++
    [Act.write d 40] ++ List.replicate 31 (Act.read d) ++ [Act.pass d fun _ => 0]

theorem crossing_clean :
    StepsMeet (step 9 joined) (fun f a => f.clean a = true) joinedNets crossing := by
  decide +kernel

/-- The message that arrives in the buffer `b`, sent there by the thread `t`. -/
def crossed (b t : ℕ) : Message :=
  { srcsid := 100, srceid := 0x10000, dstsid := 0, dsteid := 0, canloop := false, payload := .raw ⟨b⟩,
    origin := ⟨t, 0⟩ }

theorem crossing_traces : (run (step 9 joined) joinedNets crossing).map
      (fun f => ((f.net .listener).trace, (f.net .connector).trace)) = some
    ([.sent ⟨0, 0⟩ (crossed 0 0) ⟨2, 2, [7, 7]⟩, .put 1 (crossed 1 0), .got 1 ⟨1, 0⟩ (crossed 1 0),
      .returned 1 ⟨1, 0⟩ (crossed 1 0) (crossed 3 0) ⟨2, 2, [7, 7]⟩],
      [.sent ⟨2, 0⟩ (crossed 0 2) ⟨2, 2, [7, 7]⟩]) := by
  decide +kernel

theorem bridged_in_order_crossing : ∃ f, run (step 9 joined) joinedNets crossing = some f ∧
    (sentContents 2 (f.net .connector).trace).map wire = [(100, 0x10000, 0, 0, [7, 7])] ∧
    (sentContents 2 (f.net .connector).trace).map wire <+:
      (rawReturned 1 (f.net .listener).trace).map wire := by
  obtain ⟨f, hrun, htraces⟩ := Option.map_eq_some_iff.mp crossing_traces
  rw [Prod.mk.injEq] at htraces
  refine ⟨f, hrun, by rw [htraces.2]; rfl, ?_⟩
  exact (bridged_in_order joined_proper joinedNets_init crossing_clean hrun ((), .listener)).1

/-- The net at the other end has sent what came over the connection, in a run of its own. -/
theorem net_run_crossing : ∃ f own, run (step 9 joined) joinedNets crossing = some f ∧
    run World.step (joinedNet 200) own = some (f.net .connector) ∧
      Projects 9 joined .connector joinedNets crossing own f ∧
      (f.net .connector).trace = [.sent ⟨2, 0⟩ (crossed 0 2) ⟨2, 2, [7, 7]⟩] := by
  obtain ⟨f, hrun, htraces⟩ := Option.map_eq_some_iff.mp crossing_traces
  rw [Prod.mk.injEq] at htraces
  obtain ⟨own, hown, hprojects⟩ := net_run hrun .connector
  exact ⟨f, own, hrun, hown, hprojects, htraces.2⟩

end Fabric

end WaterNet.Tcp
