import Mathlib.Data.Fintype.Prod
import WaterNet.Lib.Pipe
import WaterNet.Tcp.Bridge
import WaterNet.Tcp.Untrusted
import WaterNet.Traffic.Provenance

/-!
# Any number of nets joined by any number of connections (`tcp/mod.rs`)

Each net is a `Traffic.World`.  A connection has an `End` on two of them: the endpoint the bridge made
there, and the threads that run `thread_tx` and `thread_rx`.  Each direction of it is a channel of
bytes, on which a frame goes out in pieces of any size and is read a byte at a time.  One action is
one step of a net, one step of a `thread_tx`, one read or one pass of a `thread_rx`, a piece of the
stream on its way, or the end of a connection.  A run is any list of actions.

* `step` — the machine;
* `Trans`, `step_trans` — **inversion**: what one step can do;
* `Calls` — what each step of the fabric does on a net, as calls on that net alone;
* `net_run` — **each net makes a run of its own**, step by step of such calls: the bridges do nothing to a
  net that its threads could not do, so what holds of every run of a net holds in a fabric.

Until a `recv` has returned to `thread_tx` what it is to write, and from the first byte of the payload
that `thread_rx` copies until the send has duplicated it, a message is in the hands of one thread and
nobody else can reach it: these stretches are one step each.

`framed` and `handed` are history variables: the messages `thread_tx` has made frames of, and those
`thread_rx` has handed to `sendx`.
-/

namespace WaterNet.Tcp

open WaterNet.Lib (Pipe)
open WaterNet.Lib.Machine (run run_cons_eq_some run_append_eq_some StepsMeet run_invariant_of)
open WaterNet.Traffic (World)

instance : Fintype Which := ⟨{.listener, .connector}, fun w => by cases w <;> decide⟩

/-- Where a connection ends: the net, the endpoint the bridge made on it, and the two threads that
share the endpoint. -/
structure End (ι : Type) where
  net : ι
  ep : EpId
  tx : ℕ
  rx : ℕ
  deriving DecidableEq, Repr

abbrev Topology (κ ι : Type) := κ → Which → End ι

/-- One direction of a connection: the end whose `thread_tx` writes to it. -/
abbrev Direction (κ : Type) := κ × Which

namespace Topology

variable {κ ι : Type} (T : Topology κ ι)

/-- The end that writes. -/
def near (d : Direction κ) : End ι := T d.1 d.2

/-- The end that reads. -/
def far (d : Direction κ) : End ι := T d.1 d.2.other

variable [Fintype κ] [DecidableEq ι]

/-- The endpoint was made by a bridge. -/
def ownsEp (i : ι) (e : EpId) : Bool := decide (∃ d : Direction κ, (T.near d).net = i ∧ (T.near d).ep = e)

def ownsTx (i : ι) (t : ℕ) : Bool := decide (∃ d : Direction κ, (T.near d).net = i ∧ (T.near d).tx = t)

def ownsRx (i : ι) (t : ℕ) : Bool := decide (∃ d : Direction κ, (T.near d).net = i ∧ (T.near d).rx = t)

/-- What somebody else than a bridge may do on the net `i`, and the steps of a `sendx` that a
`thread_rx` is in. -/
def mayAct (i : ι) : Traffic.Act → Bool
  | .user (.setAddress e _) | .user (.setLimits e _ _) => !T.ownsEp i e
  | .user _ => true
  | .send t _ _ => !T.ownsTx i t && !T.ownsRx i t
  | .recv t e => !T.ownsTx i t && !T.ownsRx i t && !T.ownsEp i e
  | .step t => !T.ownsTx i t

end Topology

/-- Where `thread_tx` is between its `recvorblock` calls. -/
inductive TxState where
  /-- about to write the sid -/
  | starting
  | running
  | done
  deriving DecidableEq, Repr

/-- Where `thread_rx` is between its passes. -/
inductive RxState where
  /-- reading the sid of the peer -/
  | greeting
  | looping
  | done
  deriving DecidableEq, Repr

structure Channel where
  pipe : Pipe UInt8
  tx : TxState
  rx : RxState
  framed : List Carried
  handed : List Carried

def Channel.new : Channel := ⟨Pipe.empty, .starting, .greeting, [], []⟩

/-- How many bytes of a frame `thread_rx` reads, given those it has read: the size and the header, and
then the payload that the size announces. -/
def frameGoal (got : Stream) : ℕ :=
  if got.length < 41 then 41
  else
    match readBeU64 got with
    | none => 41
    | some (msgsize, _) => 41 + (msgsize - (1 + 8 * 4)).toNat

/-- How many bytes `thread_rx` reads before it looks at them. -/
def Channel.goal (c : Channel) : ℕ :=
  match c.rx with
  | .greeting => 8
  | .looping => frameGoal c.pipe.got
  | .done => 0

structure Fabric (κ ι : Type) where
  net : ι → World
  chan : Direction κ → Channel

namespace Fabric

inductive Act (κ ι : Type) where
  /-- a step on the net `i` -/
  | net (i : ι) (a : Traffic.Act)
  /-- one step of the `thread_tx` that writes to `d` -/
  | tx (d : Direction κ)
  /-- `n` bytes go out -/
  | write (d : Direction κ) (n : ℕ)
  /-- the `thread_rx` that reads from `d` reads one byte -/
  | read (d : Direction κ)
  /-- it has the sid of the peer -/
  | greet (d : Direction κ)
  /-- it has a whole frame -/
  | pass (d : Direction κ) (junk : ℕ → UInt8)
  /-- the stream ends for it -/
  | hangUp (d : Direction κ) (junk : ℕ → UInt8)

section

variable {κ ι : Type} [DecidableEq κ] [DecidableEq ι]

@[simp] def setNet (f : Fabric κ ι) (i : ι) (w : World) : Fabric κ ι :=
  { f with net := Function.update f.net i w }

@[simp] def setChan (f : Fabric κ ι) (d : Direction κ) (c : Channel) : Fabric κ ι :=
  { f with chan := Function.update f.chan d c }

/-- What `thread_tx` does with a message that `recvorblock` returned. -/
def forward (terminate : TypeId) (c : Channel) (msg : Message) (content : RawMessage.Internal) :
    Channel :=
  if msg.isType terminate then { c with tx := .done }
  else if !msg.isRaw then c
  else { c with pipe := c.pipe.push (frameBytes (msg, content)), framed := c.framed ++ [(msg, content)] }

/-- One step of the `thread_tx` of the end `e`.  A message is dropped when it is dealt with. -/
def txStep (terminate : TypeId) (f : Fabric κ ι) (d : Direction κ) (e : End ι) :
    Option (Fabric κ ι) :=
  let c := f.chan d
  let w := f.net e.net
  match c.tx with
  | .starting =>
    some (f.setChan d { c with pipe := c.pipe.push (writeBeU64 w.net.sid), tx := .running })
  | .running => do
    let th ← w.threads[e.tx]?
    if th.pc = .idle then
      let w' ← w.step (.recv e.tx e.ep)
      some (f.setNet e.net w')
    else
      let w' ← w.step (.step e.tx)
      match w'.held.drop w.held.length with
      | [] => some (f.setNet e.net w')
      | msg :: _ =>
        let w'' ← w'.step (.user (.drop w.held.length))
        some ((f.setNet e.net w'').setChan d
          (forward terminate c msg (w'.net.store.buf msg.buf)))
  | .done => none

/-- The `thread_rx` of the end `e` is not inside a `sendx`. -/
def atRead (f : Fabric κ ι) (e : End ι) : Bool :=
  match (f.net e.net).threads[e.rx]? with
  | some th => th.pc = .idle
  | none => false

/-- What `thread_rx` does with the bytes it has read: the rest of a pass, or what it makes of the end
of the stream.  It is at `after` if a message comes of it. -/
def passStep (f : Fabric κ ι) (d : Direction κ) (e : End ι) (junk : ℕ → UInt8) (after : RxState) :
    Option (Fabric κ ι) :=
  let c := f.chan d
  let w := f.net e.net
  match rxOne junk w.net.store c.pipe.got with
  | .returned | .panicked => some (f.setChan d { c with rx := .done })
  | .sendx msg st _ => do
    -- `ep.sendx(msg.clone())`, and the message is dropped at the end of the pass
    let n := w.held.length
    let w' ← run World.step ((w.setStore st).hold (w.held ++ [msg]))
      [.user (.clone n), .send e.rx (n + 1) .sendx, .user (.drop n), .step e.rx]
    some ((f.setNet e.net w').setChan d
      { c with pipe := c.pipe.take, rx := after, handed := c.handed ++ [(msg, st.buf msg.buf)] })

variable [Fintype κ]

/-- `terminate` is the type identity of `TerminateMessage`. -/
def step (terminate : TypeId) (T : Topology κ ι) (f : Fabric κ ι) : Act κ ι → Option (Fabric κ ι)
  | .net i a =>
    if T.mayAct i a then ((f.net i).step a).map (f.setNet i) else none
  | .tx d => f.txStep terminate d (T.near d)
  | .write d n =>
    let c := f.chan d
    some (f.setChan d { c with pipe := c.pipe.write n })
  | .read d =>
    let c := f.chan d
    if f.atRead (T.far d) ∧ c.pipe.got.length < c.goal then
      c.pipe.read.map fun p => f.setChan d { c with pipe := p }
    else none
  | .greet d =>
    let c := f.chan d
    let e := T.far d
    if c.rx = .greeting ∧ c.goal ≤ c.pipe.got.length then do
      let (rsid, _) ← readBeU64 c.pipe.got
      let w' ← (f.net e.net).step (.user (.setAddress e.ep
        { ((f.net e.net).net.eps e.ep).address with sid := rsid }))
      some ((f.setNet e.net w').setChan d { c with pipe := c.pipe.take, rx := .looping })
    else none
  | .pass d junk =>
    let c := f.chan d
    if f.atRead (T.far d) ∧ c.rx = .looping ∧ c.goal ≤ c.pipe.got.length then
      f.passStep d (T.far d) junk .looping
    else none
  | .hangUp d junk =>
    let c := f.chan d
    if f.atRead (T.far d) then
      match c.rx with
      | .greeting => some (f.setChan d { c with rx := .done })
      | .looping => f.passStep d (T.far d) junk .done
      | .done => none
    else none

end

/-! ### What `thread_rx` does on its net -/

/-- The message `thread_rx` builds, as calls on the net: a new raw message, a write over all of it,
and its addresses. -/
theorem rxOne_run {junk : ℕ → UInt8} {w : World} {s rest : Stream} {msg : Message} {st : Store}
    (h : rxOne junk w.net.store s = .sendx msg st rest) :
    ∃ (size : UInt64) (bytes : List UInt8), run World.step w
      [.user (.newRaw junk size), .user (.write w.held.length (.writeFromSlice 0 bytes)),
        .user (.setHeader w.held.length msg.srcsid msg.srceid msg.dstsid msg.dsteid false)] =
        some ((w.setStore st).hold (w.held ++ [msg])) := by
  obtain ⟨msgsize, s₁, hdr, s₂, -, -, -, hmsg, -⟩ := rxOne_eq_sendx h
  refine ⟨msgsize - (1 + 8 * 4), (readAtLeast junk (msgsize - (1 + 8 * 4)).toNat s₂).1, ?_⟩
  generalize msgsize - (1 + 8 * 4) = size at hmsg ⊢
  generalize (readAtLeast junk size.toNat s₂).1 = vbuf at hmsg ⊢
  simp only [rxMessage, Option.bind_eq_bind, Option.bind_eq_some_iff] at hmsg
  obtain ⟨i, hwrite, hmsg⟩ := hmsg
  cases hmsg
  simp [run, World.step, World.userStep, Message.newRaw, Message.newFromraw, Message.ofPayload,
    Message.buf, RawMessage.RawOp.apply, Store.newBuf, Store.setBuf, hwrite]

/-- The net after a `sendx` of `msg` by the idle thread `t`, which is `th`, up to the duplication. -/
def afterSendx (w : World) (st : Store) (t : ℕ) (th : Traffic.Thread) (msg : Message) : World :=
  let m : Message := { msg with origin := ⟨t, th.sent⟩ }
  ((w.setStore (st.newBuf (st.buf m.buf).dup).2).setPc t
    { th with pc := .sendSnap (m.onFresh st), sent := th.sent + 1 }).log
      (.sent m.origin m (st.buf m.buf))

theorem afterSendx_threads (w : World) (st : Store) (t : ℕ) (th : Traffic.Thread) (msg : Message) :
    ∃ m, (afterSendx w st t th msg).threads =
      w.threads.set t { th with pc := .sendSnap m, sent := th.sent + 1 } := ⟨_, rfl⟩

theorem sendx_run {w : World} (st : Store) {t : ℕ} {th : Traffic.Thread} {msg : Message}
    (hraw : msg.isRaw = true) (hth : w.threads[t]? = some th) (hidle : th.pc = .idle) :
    run World.step ((w.setStore st).hold (w.held ++ [msg]))
      [.user (.clone w.held.length), .send t (w.held.length + 1) .sendx, .user (.drop w.held.length),
        .step t] = some (afterSendx w st t th msg) := by
  have hclone : msg.clone = some msg := by
    obtain ⟨r, hr⟩ := Message.isRaw_iff.mp hraw
    simp [Message.clone_eq, Message.isSync, hr]
  have hget : (w.held ++ [msg])[w.held.length]? = some msg := by simp
  have hget' : (w.held ++ [msg] ++ [msg])[w.held.length + 1]? = some msg := by simp
  have herase : (w.held ++ [msg] ++ [msg]).eraseIdx (w.held.length + 1) = w.held ++ [msg] := by
    rw [List.eraseIdx_append_of_length_le (by simp)]
    simp
  have herase' : (w.held ++ [msg]).eraseIdx w.held.length = w.held := by
    rw [List.eraseIdx_append_of_length_le le_rfl]
    simp
  have hlt : t < w.threads.length := (List.getElem?_eq_some_iff.mp hth).1
  have hraw' : ({ msg with origin := ⟨t, th.sent⟩ } : Message).isRaw = true := hraw
  have hdup : ({ msg with origin := ⟨t, th.sent⟩ } : Message).dup st =
      some (({ msg with origin := ⟨t, th.sent⟩ } : Message).onFresh st,
        (st.newBuf (st.buf msg.buf).dup).2) := Message.dup_raw hraw' st
  simp only [run, World.step, World.userStep, World.hold, World.setStore, hget, hclone,
    Option.bind_eq_bind, Option.bind_some, hth, hget', hidle, if_true, herase, herase',
    World.setPc, List.getElem?_set_self hlt, World.advance, Traffic.Sender.stamp, Net.sendCopy,
    hraw', hdup, World.log, List.set_set]
  rfl

/-- Only an idle thread can call `sendx`. -/
theorem idle_of_sendx {w w' : World} {st : Store} {t : ℕ} {msg : Message}
    (h : run World.step ((w.setStore st).hold (w.held ++ [msg]))
      [.user (.clone w.held.length), .send t (w.held.length + 1) .sendx, .user (.drop w.held.length),
        .step t] = some w') : ∃ th, w.threads[t]? = some th ∧ th.pc = .idle := by
  obtain ⟨w₁, hclone, h⟩ := run_cons_eq_some.mp h
  obtain ⟨w₂, hsend, -⟩ := run_cons_eq_some.mp h
  have hthreads : w₁.threads = w.threads := by
    simp only [World.step] at hclone
    exact (World.userStep_sameTraffic hclone).threads
  simp only [World.step, Option.bind_eq_bind, Option.bind_eq_some_iff,
    Option.ite_none_right_eq_some] at hsend
  obtain ⟨th, hth, -, -, hidle, -⟩ := hsend
  exact ⟨th, hthreads ▸ hth, hidle⟩

/-! ### The calls on a net -/

section

variable {κ ι : Type} [DecidableEq ι] [Fintype κ] {T : Topology κ ι} {f : Fabric κ ι}

/-- The end of a connection comes before the header of a frame or behind its payload, and nobody
resizes a buffer to no bytes at all. -/
def clean (f : Fabric κ ι) : Act κ ι → Bool
  | .net _ a => World.keepsBytes a
  | .hangUp d _ =>
    (f.chan d).rx != .looping || (f.chan d).pipe.got.length < 41 ||
      (f.chan d).goal ≤ (f.chan d).pipe.got.length
  | _ => true

/-- **What one step of the fabric does on the net `i`**, as calls on that net alone.  A message that a
bridge makes or receives comes behind all those that are held there, and what the bridge does it does to
that message and with its own threads and its own endpoint. -/
inductive Calls (T : Topology κ ι) (f : Fabric κ ι) : Act κ ι → ι → List Traffic.Act → Prop where
  | none {a i} : Calls T f a i []
  | own {i b} (hmay : T.mayAct i b = true) : Calls T f (.net i b) i [b]
  | recv {d} : Calls T f (.tx d) (T.near d).net [.recv (T.near d).tx (T.near d).ep]
  | work {d} : Calls T f (.tx d) (T.near d).net [.step (T.near d).tx]
  /-- `thread_tx` drops the message that its `recvorblock` has returned -/
  | forward {d} : Calls T f (.tx d) (T.near d).net
      [.step (T.near d).tx, .user (.drop (f.net (T.near d).net).held.length)]
  | greet {d rsid rest} (hsid : readBeU64 (f.chan d).pipe.got = some (rsid, rest)) :
      Calls T f (.greet d) (T.far d).net [.user (.setAddress (T.far d).ep
        { ((f.net (T.far d).net).net.eps (T.far d).ep).address with sid := rsid })]
  /-- `thread_rx` makes the message that the frame describes, and sends a clone of it -/
  | handed {a d junk msg st rest size bytes n} (ha : a = .pass d junk ∨ a = .hangUp d junk)
      (hone : rxOne junk (f.net (T.far d).net).net.store (f.chan d).pipe.got = .sendx msg st rest)
      (hn : n = (f.net (T.far d).net).held.length)
      (hmade : run World.step (f.net (T.far d).net)
        [.user (.newRaw junk size), .user (.write n (.writeFromSlice 0 bytes)),
          .user (.setHeader n msg.srcsid msg.srceid msg.dstsid msg.dsteid false)] =
        some (((f.net (T.far d).net).setStore st).hold ((f.net (T.far d).net).held ++ [msg]))) :
      Calls T f a (T.far d).net
        [.user (.newRaw junk size), .user (.write n (.writeFromSlice 0 bytes)),
          .user (.setHeader n msg.srcsid msg.srceid msg.dstsid msg.dsteid false),
          .user (.clone n), .send (T.far d).rx (n + 1) .sendx, .user (.drop n), .step (T.far d).rx]

theorem Calls.keepsBytes {a : Act κ ι} {i : ι} {calls : List Traffic.Act} (h : Calls T f a i calls)
    (hclean : f.clean a = true) : ∀ x ∈ calls, World.keepsBytes x = true := by
  cases h with
  | none => exact List.forall_mem_nil _
  | own hmay => exact List.forall_mem_singleton.mpr hclean
  | recv | work | greet => exact List.forall_mem_singleton.mpr rfl
  | forward => simp [World.keepsBytes]
  | handed => simp [World.keepsBytes]

/-- Nobody but its bridge sets the address of a bridge endpoint. -/
theorem Calls.ne_setAddress {a : Act κ ι} {i : ι} {calls : List Traffic.Act} (h : Calls T f a i calls)
    (hgreet : ∀ d, a ≠ .greet d) {e : EpId} (he : T.ownsEp i e = true)
    (address : Endpoint.AddressData) : .user (.setAddress e address) ∉ calls := by
  cases h with
  | own hmay =>
    intro hmem
    rw [← List.mem_singleton.mp hmem] at hmay
    simp [Topology.mayAct, he] at hmay
  | greet => exact absurd rfl (hgreet _)
  | none | recv | work | forward | handed => simp

end

/-! ### Inversion -/

section

variable {κ ι : Type} [DecidableEq κ] [DecidableEq ι]

/-- **What one step can do.** -/
inductive Trans [Fintype κ] (terminate : TypeId) (T : Topology κ ι) (f : Fabric κ ι) :
    Act κ ι → Fabric κ ι → Prop where
  | net {i a w'} (hmay : T.mayAct i a = true) (hw : (f.net i).step a = some w') :
      Trans terminate T f (.net i a) (f.setNet i w')
  | hello {d} (htx : (f.chan d).tx = .starting) :
      Trans terminate T f (.tx d) (f.setChan d { f.chan d with
        pipe := (f.chan d).pipe.push (writeBeU64 (f.net (T.near d).net).net.sid), tx := .running })
  | recv {d w'} (hw : (f.net (T.near d).net).step (.recv (T.near d).tx (T.near d).ep) = some w') :
      Trans terminate T f (.tx d) (f.setNet (T.near d).net w')
  | work {d w'} (hw : (f.net (T.near d).net).step (.step (T.near d).tx) = some w')
      (hheld : w'.held.drop (f.net (T.near d).net).held.length = []) :
      Trans terminate T f (.tx d) (f.setNet (T.near d).net w')
  | forward {d w' msg rest} (htx : (f.chan d).tx = .running)
      (hw : (f.net (T.near d).net).step (.step (T.near d).tx) = some w')
      (hheld : w'.held.drop (f.net (T.near d).net).held.length = msg :: rest) :
      Trans terminate T f (.tx d) ((f.setNet (T.near d).net
        (w'.hold (w'.held.eraseIdx (f.net (T.near d).net).held.length))).setChan d
          (forward terminate (f.chan d) msg (w'.net.store.buf msg.buf)))
  | write {d n} :
      Trans terminate T f (.write d n) (f.setChan d { f.chan d with pipe := (f.chan d).pipe.write n })
  | read {d p} (hlt : (f.chan d).pipe.got.length < (f.chan d).goal)
      (hp : (f.chan d).pipe.read = some p) :
      Trans terminate T f (.read d) (f.setChan d { f.chan d with pipe := p })
  | greet {d rsid rest} (hrx : (f.chan d).rx = .greeting) (hgoal : 8 ≤ (f.chan d).pipe.got.length)
      (hsid : readBeU64 (f.chan d).pipe.got = some (rsid, rest)) :
      Trans terminate T f (.greet d) ((f.setNet (T.far d).net
        ((f.net (T.far d).net).setEp (T.far d).ep { (f.net (T.far d).net).net.eps (T.far d).ep with
          address := { ((f.net (T.far d).net).net.eps (T.far d).ep).address with sid := rsid } })).setChan
            d { f.chan d with pipe := (f.chan d).pipe.take, rx := .looping })
  | ended {a d} (hrx : (f.chan d).rx ≠ .done) :
      Trans terminate T f a (f.setChan d { f.chan d with rx := .done })
  | handed {a d junk after msg st rest th} (hrx : (f.chan d).rx = .looping)
      (hact : (a = .pass d junk ∧ after = .looping ∧ (f.chan d).goal ≤ (f.chan d).pipe.got.length) ∨
        (a = .hangUp d junk ∧ after = .done))
      (hone : rxOne junk (f.net (T.far d).net).net.store (f.chan d).pipe.got = .sendx msg st rest)
      (hth : (f.net (T.far d).net).threads[(T.far d).rx]? = some th) (hidle : th.pc = .idle) :
      Trans terminate T f a ((f.setNet (T.far d).net
        (afterSendx (f.net (T.far d).net) st (T.far d).rx th msg)).setChan d { f.chan d with
          pipe := (f.chan d).pipe.take, rx := after
          handed := (f.chan d).handed ++ [(msg, st.buf msg.buf)] })

variable [Fintype κ] {terminate : TypeId} {T : Topology κ ι} {f f' : Fabric κ ι}

theorem txStep_trans {d : Direction κ} (h : f.txStep terminate d (T.near d) = some f') :
    Trans terminate T f (.tx d) f' := by
  unfold txStep at h
  cases htx : (f.chan d).tx with
  | starting =>
    simp only [htx] at h
    cases h
    exact .hello htx
  | running =>
    simp only [htx, Option.bind_eq_bind, Option.bind_eq_some_iff] at h
    obtain ⟨th, -, h⟩ := h
    split at h
    · obtain ⟨w', hw, h⟩ := Option.bind_eq_some_iff.mp h
      cases h
      exact .recv hw
    · obtain ⟨w', hw, h⟩ := Option.bind_eq_some_iff.mp h
      split at h
      · rename_i hheld
        cases h
        exact .work hw hheld
      · rename_i msg rest hheld
        cases h
        exact .forward htx hw hheld
  | done =>
    simp only [htx] at h
    cases h

theorem passStep_trans {a : Act κ ι} {d : Direction κ} {junk : ℕ → UInt8} {after : RxState}
    (hrx : (f.chan d).rx = .looping)
    (hact : (a = .pass d junk ∧ after = .looping ∧ (f.chan d).goal ≤ (f.chan d).pipe.got.length) ∨
      (a = .hangUp d junk ∧ after = .done))
    (h : f.passStep d (T.far d) junk after = some f') : Trans terminate T f a f' := by
  have hnot : (f.chan d).rx ≠ .done := by simp [hrx]
  unfold passStep at h
  cases hone : rxOne junk (f.net (T.far d).net).net.store (f.chan d).pipe.got with
  | returned | panicked =>
    simp only [hone] at h
    cases h
    exact .ended hnot
  | sendx msg st rest =>
    simp only [hone, Option.bind_eq_bind, Option.bind_eq_some_iff] at h
    obtain ⟨w', hw, h⟩ := h
    obtain ⟨th, hth, hidle⟩ := idle_of_sendx hw
    obtain rfl := Option.some.inj (hw.symm.trans (sendx_run _ (rxOne_isRaw hone) hth hidle))
    cases h
    exact .handed hrx hact hone hth hidle

/-- **Inversion of a step.** -/
theorem step_trans {a : Act κ ι} (h : step terminate T f a = some f') :
    Trans terminate T f a f' := by
  cases a with
  | net i a =>
    simp only [step, Option.ite_none_right_eq_some, Option.map_eq_some_iff] at h
    obtain ⟨hmay, w', hw, rfl⟩ := h
    exact .net hmay hw
  | tx d => exact txStep_trans h
  | write d n =>
    cases h
    exact .write
  | read d =>
    simp only [step, Option.ite_none_right_eq_some, Option.map_eq_some_iff] at h
    obtain ⟨⟨-, hlt⟩, p, hp, rfl⟩ := h
    exact .read hlt hp
  | greet d =>
    simp only [step, Option.ite_none_right_eq_some, Option.bind_eq_bind, Option.bind_eq_some_iff] at h
    obtain ⟨⟨hrx, hgoal⟩, ⟨rsid, rest⟩, hsid, w', hw, h⟩ := h
    cases hw
    cases h
    rw [Channel.goal, hrx] at hgoal
    exact .greet hrx hgoal hsid
  | pass d junk =>
    simp only [step, Option.ite_none_right_eq_some] at h
    obtain ⟨⟨-, hrx, hgoal⟩, h⟩ := h
    exact passStep_trans hrx (Or.inl ⟨rfl, rfl, hgoal⟩) h
  | hangUp d junk =>
    simp only [step, Option.ite_none_right_eq_some] at h
    obtain ⟨-, h⟩ := h
    cases hrx : (f.chan d).rx with
    | greeting =>
      simp only [hrx] at h
      cases h
      exact .ended (by simp [hrx])
    | looping =>
      simp only [hrx] at h
      exact passStep_trans hrx (Or.inr ⟨rfl, rfl⟩) h
    | done =>
      simp only [hrx] at h
      cases h

/-! ### Each net by itself -/

/-- On each net, one step of the fabric is such calls. -/
theorem net_step {a : Act κ ι} (h : Trans terminate T f a f') (i : ι) :
    ∃ calls, Calls T f a i calls ∧ run World.step (f.net i) calls = some (f'.net i) := by
  have hone : ∀ {j : ι} {w' : World} {calls : List Traffic.Act}, Calls T f a j calls →
      run World.step (f.net j) calls = some w' →
      ∃ calls, Calls T f a i calls ∧
        run World.step (f.net i) calls = some (Function.update f.net j w' i) := by
    intro j w' calls hcalls hrun
    by_cases hij : i = j
    · subst hij
      exact ⟨calls, hcalls, by rw [Function.update_self, hrun]⟩
    · rw [Function.update_of_ne hij]
      exact ⟨[], .none, rfl⟩
  cases h with
  | hello | write | read | ended => exact ⟨[], .none, rfl⟩
  | @net j b w' hmay hw => exact hone (.own hmay) (run_cons_eq_some.mpr ⟨w', hw, rfl⟩)
  | @recv d w' hw => exact hone .recv (run_cons_eq_some.mpr ⟨w', hw, rfl⟩)
  | @work d w' hw => exact hone .work (run_cons_eq_some.mpr ⟨w', hw, rfl⟩)
  | @forward d w' msg rest htx hw hheld => exact hone .forward (run_cons_eq_some.mpr ⟨w', hw, rfl⟩)
  | @greet d rsid rest hrx hgoal hsid => exact hone (.greet hsid) rfl
  | @handed _ d junk after msg st rest th hrx hact hrx' hth hidle =>
    obtain ⟨size, bytes, hbuild⟩ := rxOne_run hrx'
    have hsend := sendx_run st (rxOne_isRaw hrx') hth hidle
    refine hone (.handed (hact.imp (fun h => h.1) fun h => h.1) hrx' rfl hbuild) ?_
    exact run_append_eq_some.mpr ⟨_, hbuild, hsend⟩

/-- What every step of a net keeps is kept on all nets. -/
theorem net_invariant {P : World → Prop}
    (hP : ∀ w a w', P w → World.keepsBytes a = true → w.step a = some w' → P w') {a : Act κ ι}
    (h : Trans terminate T f a f') (hclean : f.clean a = true) (hi : ∀ i, P (f.net i)) (i : ι) :
    P (f'.net i) := by
  obtain ⟨calls, hcalls, hrun⟩ := net_step h i
  exact run_invariant_of hP (StepsMeet.of_forall (hcalls.keepsBytes hclean) _) hrun (hi i)

/-- A run of the fabric, step by step, and what it does on the net `i`. -/
inductive Projects (terminate : TypeId) (T : Topology κ ι) (i : ι) :
    Fabric κ ι → List (Act κ ι) → List Traffic.Act → Fabric κ ι → Prop where
  | nil {g} : Projects terminate T i g [] [] g
  | cons {g g₁ g' a acts calls own} (hstep : step terminate T g a = some g₁)
      (hcalls : Calls T g a i calls) (hrun : run World.step (g.net i) calls = some (g₁.net i))
      (hrest : Projects terminate T i g₁ acts own g') :
      Projects terminate T i g (a :: acts) (calls ++ own) g'

/-- What it does there is a run of that net. -/
theorem Projects.run_net {i : ι} {acts : List (Act κ ι)} {own : List Traffic.Act}
    (h : Projects terminate T i f acts own f') : run World.step (f.net i) own = some (f'.net i) := by
  induction h with
  | nil => rfl
  | cons hstep hcalls hrun hrest ih => exact run_append_eq_some.mpr ⟨_, hrun, ih⟩

/-- **Each net makes a run of its own.**  Whatever the bridges, the users and the connections do, the
steps on one net are a run of that net alone, in which each step of the fabric is the calls it stands
for. -/
theorem net_run {acts : List (Act κ ι)} (hrun : run (step terminate T) f acts = some f') (i : ι) :
    ∃ own, run World.step (f.net i) own = some (f'.net i) ∧ Projects terminate T i f acts own f' := by
  suffices h : ∃ own, Projects terminate T i f acts own f' by
    obtain ⟨own, h⟩ := h
    exact ⟨own, h.run_net, h⟩
  induction acts generalizing f with
  | nil =>
    cases hrun
    exact ⟨[], .nil⟩
  | cons a acts ih =>
    obtain ⟨f₁, hstep, hrest⟩ := run_cons_eq_some.mp hrun
    obtain ⟨calls, hcalls, hfirst⟩ := net_step (step_trans hstep) i
    obtain ⟨own, hown⟩ := ih hrest
    exact ⟨calls ++ own, .cons hstep hcalls hfirst hown⟩

end

end Fabric

end WaterNet.Tcp
