import Mathlib.Data.List.Count
import WaterNet.Tcp.Bridge

/-!
# Where the copies of a send are

A send is known by its number.  Its copies are in the queue of a bridge endpoint, on the link or
with the endpoints that were given one, and a step moves them by whole numbers.

* `Effect` — a step in these numbers, one lemma for each kind of step;
* `StepEffect`, `trans_stepEffect` — **inversion by effect**: for a given send, a step is the send
  itself, a pass of `thread_tx`, or a pass of `thread_rx` over one of its frames;
* `Tracked`, `Numbered` — messages on the bridge have the addresses of their send, and there are
  no copies of a send still to come.
-/

namespace WaterNet.Tcp

open Endpoint (Internal)

/-! ### Counting the copies of one send -/

/-- The raw message `m` is a copy of the send `id`. -/
def stems (id : SendId) (m : Message) : Bool := m.isRaw && m.origin = id

namespace Side

/-- Copies in the queue of the bridge endpoint. -/
def queued (sd : Side) (id : SendId) : ℕ :=
  (sd.net.eps sd.bridge).messages.countP (stems id)

/-- Frames on their way to the peer. -/
def flying (sd : Side) (id : SendId) : ℕ := sd.out.countP fun x => stems id x.1

/-- Frames ever written. -/
def crossed (sd : Side) (id : SendId) : ℕ := sd.written.countP fun x => stems id x.1

/-- How often the endpoint `e` was given a copy. -/
def times (sd : Side) (e : EpId) (id : SendId) : ℕ := sd.given.count (e, id)

end Side

/-- A step on the side `w` in numbers: copies its bridge endpoint is given (`taken`), copies its
`thread_tx` moves to the link (`moved`), frames its `thread_rx` takes off the link (`read`), and
copies its endpoints are given (`gets`). -/
structure Effect (s s' : Link) (id : SendId) (w : Which) (taken moved read : ℕ)
    (gets : EpId → ℕ) : Prop where
  queued : (s' w).queued id + moved = (s w).queued id + taken
  flying : (s' w).flying id = (s w).flying id + moved
  crossed : (s' w).crossed id = (s w).crossed id + moved
  times : ∀ e, (s' w).times e id = (s w).times e id + gets e
  peerQueued : (s' w.other).queued id = (s w.other).queued id
  peerFlying : (s' w.other).flying id + read = (s w.other).flying id
  peerCrossed : (s' w.other).crossed id = (s w.other).crossed id
  peerTimes : ∀ e, (s' w.other).times e id = (s w.other).times e id

/-- A copy of `id` is taken by the endpoints that accept it. -/
def share (sd : Side) (msg : Message) (id : SendId) (e : EpId) : ℕ :=
  if msg.origin = id ∧ e ∈ sd.net.endpoints ∧ sd.net.accepts msg e = true then 1 else 0

theorem Offered.times {sd sd' : Side} {msg : Message} (h : Offered sd msg sd')
    (hnd : sd.net.endpoints.Nodup) (e : EpId) (id : SendId) :
    sd'.times e id = sd.times e id + share sd msg id e := by
  rw [Side.times, h.given, List.count_append, Side.times, share]
  congr 1
  by_cases hid : msg.origin = id
  · subst hid
    have hinj : Function.Injective fun e : EpId => (e, msg.origin) := fun _ _ h => congrArg Prod.fst h
    have hnd' : (sd.net.endpoints.filter (sd.net.accepts msg)).Nodup := hnd.filter _
    rw [List.count_map_of_injective _ _ hinj, List.Nodup.count hnd']
    simp [List.mem_filter]
  · rw [if_neg (fun h => hid h.1)]
    refine List.count_eq_zero.mpr fun hmem => ?_
    obtain ⟨e', -, heq⟩ := List.mem_map.mp hmem
    exact hid (congrArg Prod.snd heq)

theorem Offered.queued {sd sd' : Side} {msg : Message} (h : Offered sd msg sd') (id : SendId) :
    sd'.queued id = sd.queued id + if msg.isRaw then share sd msg id sd.bridge else 0 := by
  obtain ⟨c, -, horigin, hcraw, hqueue⟩ := h.queues
  have hbridge : sd'.bridge = sd.bridge := by rw [h.frame]
  rw [Side.queued, hbridge, hqueue, List.countP_append, Side.queued, share]
  congr 1
  by_cases hacc : sd.bridge ∈ sd.net.endpoints ∧ sd.net.accepts msg sd.bridge = true
  · by_cases hid : msg.origin = id <;> simp [hacc, stems, hcraw, horigin, hid]
  · rw [if_neg hacc, if_neg fun h : _ ∧ _ => hacc h.2]
    simp

/-- The bridge endpoint is given the offered message or nothing. -/
theorem Offered.mem_bridge {sd sd' : Side} {msg m : Message} (h : Offered sd msg sd')
    (hm : m ∈ (sd'.net.eps sd'.bridge).messages) :
    m ∈ (sd.net.eps sd.bridge).messages ∨ Net.header m = Net.header msg ∧ m.origin = msg.origin := by
  obtain ⟨c, hheader, horigin, -, hqueue⟩ := h.queues
  have hbridge : sd'.bridge = sd.bridge := by rw [h.frame]
  rw [hbridge, hqueue, List.mem_append] at hm
  refine hm.imp_right fun hm => ?_
  split at hm
  · rw [List.mem_singleton.mp hm]
    exact ⟨hheader, horigin⟩
  · cases hm

/-- The copy that a `recv` returns, as a number. -/
def returnedCopies (id : SendId) : IoResult Message → ℕ
  | .ok msg => if stems id msg then 1 else 0
  | .error _ => 0

/-- A `recv` takes out of the queue what it returns and messages that are not raw. -/
theorem recvs_countP {ep ep' : Internal} {q : SafeQueue Message} {res : IoResult Message}
    (h : ep.Recvs q res ep') (id : SendId) :
    ep'.messages.countP (stems id) + returnedCopies id res = q.countP (stems id) := by
  have hzero : ∀ pre : List Message, (∀ c ∈ pre, c.isRaw = false) → pre.countP (stems id) = 0 := by
    intro pre hpre
    refine List.countP_eq_zero.mpr fun c hc => ?_
    simp [stems, hpre c hc]
  cases h with
  | empty hpre => simp [hzero q hpre, returnedCopies]
  | @took pre rest copy msg mem hq hpre hmsg hraw =>
    have hstems : stems id msg = stems id copy := by
      rw [stems, stems, hraw, hmsg]
    rw [returnedCopies, hstems]
    simp only [hq, List.countP_append, hzero pre hpre, List.countP_cons, Nat.zero_add]

namespace Link

theorem effect_send {s : Link} {w : Which} {e : EpId} {m : Message} {sd : Side}
    (hnd : ∀ w, (s w).net.endpoints.Nodup) (hoff : Offered (s w) ((s w).stamp w e m) sd)
    (id : SendId) :
    Effect s (s.set w { sd with sent := sd.sent ++ [(s w).stamp w e m] }) id w
      (if m.isRaw then share (s w) ((s w).stamp w e m) id (s w).bridge else 0) 0 0
      (share (s w) ((s w).stamp w e m) id) := by
  have hout : sd.out = (s w).out := by rw [hoff.frame]
  have hwritten : sd.written = (s w).written := by rw [hoff.frame]
  constructor
  · rw [set_self]
    exact hoff.queued id
  · rw [set_self, Side.flying, hout]
    rfl
  · rw [set_self, Side.crossed, hwritten]
    rfl
  · intro e'
    rw [set_self]
    exact hoff.times (hnd w) e' id
  all_goals simp

theorem effect_quiet (s : Link) (w : Which) (sd : Side)
    (hqueued : ∀ id, sd.queued id = (s w).queued id) (hout : sd.out = (s w).out)
    (hwritten : sd.written = (s w).written) (hgiven : sd.given = (s w).given) (id : SendId) :
    Effect s (s.set w sd) id w 0 0 0 fun _ => 0 := by
  constructor
  · rw [set_self, hqueued]
  · rw [set_self, Side.flying, hout]
    rfl
  · rw [set_self, Side.crossed, hwritten]
    rfl
  · intro e
    rw [set_self, Side.times, hgiven]
    rfl
  all_goals simp

theorem effect_txFrame {s : Link} {w : Which} {msg : Message} {x : Carried}
    (hmsg : ((s w).net.recvAt (s w).bridge).1 = .ok msg) (hx : x.1 = msg) (id : SendId) :
    Effect s (s.set w { s w with
        net := ((s w).net.recvAt (s w).bridge).2
        out := (s w).out ++ [x]
        written := (s w).written ++ [x] }) id w
      0 (if stems id msg then 1 else 0) 0 fun _ => 0 := by
  have hcount := recvs_countP (Net.recvAt_recvs (s w).net (s w).bridge) id
  rw [hmsg] at hcount
  constructor
  · rw [set_self]
    exact hcount
  · rw [set_self, Side.flying, List.countP_append, List.countP_singleton, hx]
    rfl
  · rw [set_self, Side.crossed, List.countP_append, List.countP_singleton, hx]
    rfl
  · intro e
    rw [set_self]
    rfl
  all_goals simp

theorem effect_rx {s : Link} {w : Which} {x : Carried} {rest : List Carried} {st : Store}
    {sd : Side} (hnd : ∀ w, (s w).net.endpoints.Nodup) (hout : (s w.other).out = x :: rest)
    (hraw : x.1.isRaw = true)
    (hoff : Offered { s w with net := { (s w).net with store := st } }
      { received (s w).net.store x with origin := x.1.origin } sd) (id : SendId) :
    Effect s ((s.set w.other { s w.other with out := rest }).set w sd) id w
      (share (s w) { received (s w).net.store x with origin := x.1.origin } id (s w).bridge) 0
      (if x.1.origin = id then 1 else 0)
      (share (s w) { received (s w).net.store x with origin := x.1.origin } id) := by
  have hsdout : sd.out = (s w).out := by rw [hoff.frame]
  have hwritten : sd.written = (s w).written := by rw [hoff.frame]
  constructor
  · rw [set_self]
    exact hoff.queued id
  · rw [set_self, Side.flying, hsdout]
    rfl
  · rw [set_self, Side.crossed, hwritten]
    rfl
  · intro e'
    rw [set_self]
    exact hoff.times (hnd w) e' id
  · rw [set_other, set_self]
    rfl
  · rw [set_other, set_self, Side.flying, Side.flying, hout, List.countP_cons]
    simp [stems, hraw]
  · rw [set_other, set_self]
    rfl
  · intro e'
    rw [set_other, set_self]
    rfl

/-! ### Where the messages on the bridge come from -/

/-- The message `x` has the addresses of the send it is a copy of. -/
def FromSend (s : Link) (x : Message) : Prop :=
  ∃ w m, x.origin.thread = w.num ∧ (s w).sent[x.origin.seq]? = some m ∧ x.srcsid = m.srcsid ∧
    x.srceid = m.srceid ∧ x.dstsid = m.dstsid ∧ x.dsteid = m.dsteid

/-- The nets list each endpoint once, only raw messages are on the link, and whatever is on the
link or in the queue of a bridge endpoint comes from a send. -/
structure Tracked (s : Link) : Prop where
  distinct : ∀ w, (s w).net.endpoints.Nodup
  raw : ∀ w, ∀ x ∈ (s w).out, x.1.isRaw = true
  queued : ∀ w, ∀ m ∈ ((s w).net.eps (s w).bridge).messages, FromSend s m
  out : ∀ w, ∀ x ∈ (s w).out, FromSend s x.1

theorem FromSend.mono {s s' : Link} {x y : Message} (h : FromSend s x)
    (hsent : ∀ w, (s w).sent <+: (s' w).sent) (hsrcsid : y.srcsid = x.srcsid)
    (hsrceid : y.srceid = x.srceid) (hdstsid : y.dstsid = x.dstsid) (hdsteid : y.dsteid = x.dsteid)
    (horigin : y.origin = x.origin) : FromSend s' y := by
  obtain ⟨w, m, ht, hm, h1, h2, h3, h4⟩ := h
  refine ⟨w, m, by rw [horigin, ht], ?_, hsrcsid.trans h1, hsrceid.trans h2, hdstsid.trans h3,
    hdsteid.trans h4⟩
  obtain ⟨more, hmore⟩ := hsent w
  rw [horigin, ← hmore, List.getElem?_append_left (List.getElem?_eq_some_iff.mp hm).1]
  exact hm

/-- A step on the side `w`, by what it adds to the queue of the bridge endpoint and to the link. -/
theorem Tracked.step {s s' : Link} {w : Which} (hi : Tracked s)
    (hpeer : s' w.other = { s w.other with out := (s' w.other).out })
    (hpeerOut : ∀ x ∈ (s' w.other).out, x ∈ (s w.other).out)
    (hends : (s' w).net.endpoints = (s w).net.endpoints) (hsent : (s w).sent <+: (s' w).sent)
    (hqueued : ∀ m ∈ ((s' w).net.eps (s' w).bridge).messages,
      m ∈ ((s w).net.eps (s w).bridge).messages ∨ FromSend s' m)
    (hout : ∀ x ∈ (s' w).out, x ∈ (s w).out ∨ x.1.isRaw = true ∧ FromSend s' x.1) :
    Tracked s' := by
  have hpeerNet : (s' w.other).net = (s w.other).net := by rw [hpeer]
  have hpeerBridge : (s' w.other).bridge = (s w.other).bridge := by rw [hpeer]
  have hpeerSent : (s' w.other).sent = (s w.other).sent := by rw [hpeer]
  have hmono : ∀ v, (s v).sent <+: (s' v).sent := by
    intro v
    rcases Which.eq_or_eq_other w v with rfl | rfl
    · exact hsent
    · exact hpeerSent.symm ▸ List.prefix_refl _
  have hkeep : ∀ x, FromSend s x → FromSend s' x := fun x hx => hx.mono hmono rfl rfl rfl rfl rfl
  constructor
  · intro v
    rcases Which.eq_or_eq_other w v with rfl | rfl
    · rw [hends]
      exact hi.distinct v
    · rw [hpeerNet]
      exact hi.distinct w.other
  · intro v x hx
    rcases Which.eq_or_eq_other w v with rfl | rfl
    · exact (hout x hx).elim (hi.raw v x) And.left
    · exact hi.raw w.other x (hpeerOut x hx)
  · intro v m hm
    rcases Which.eq_or_eq_other w v with rfl | rfl
    · exact (hqueued m hm).elim (fun h => hkeep m (hi.queued v m h)) id
    · rw [hpeerNet, hpeerBridge] at hm
      exact hkeep m (hi.queued w.other m hm)
  · intro v x hx
    rcases Which.eq_or_eq_other w v with rfl | rfl
    · exact (hout x hx).elim (fun h => hkeep x.1 (hi.out v x h)) And.right
    · exact hkeep x.1 (hi.out w.other x (hpeerOut x hx))

theorem tracked_trans {s s' : Link} {a : Act} (h : Trans s a s') (hi : Tracked s) : Tracked s' := by
  cases h with
  | @send w e m sd he hne hoff =>
    have hends : sd.net.endpoints = (s w).net.endpoints := hoff.endpoints
    have hout : sd.out = (s w).out := by rw [hoff.frame]
    have hsent : sd.sent = (s w).sent := by rw [hoff.frame]
    refine hi.step (w := w) (by simp) (by simp) (by simpa using hends) (by simp [hsent]) ?_ ?_
    · intro x hx
      rw [set_self] at hx
      refine (hoff.mem_bridge hx).imp_right fun hnew => ?_
      obtain ⟨hheader, horigin⟩ := hnew
      simp only [Net.header, Prod.mk.injEq] at hheader
      obtain ⟨h1, h2, h3, h4, -⟩ := hheader
      exact ⟨w, (s w).stamp w e m, by rw [horigin]; rfl, by simp [horigin, Side.stamp, hsent],
        h1, h2, h3, h4⟩
    · intro x hx
      rw [set_self] at hx
      exact Or.inl (hout ▸ hx)
  | @txQuiet w sd hquiet hsd =>
    have hsent : sd.sent = (s w).sent := by rw [hsd]
    refine hi.step (w := w) (by simp) (by simp) (by rw [set_self, hsd]; rfl)
      (by simp [hsent]) ?_ ?_
    · intro x hx
      rw [set_self, hsd] at hx
      exact Or.inl ((Net.recvAt_recvs (s w).net (s w).bridge).subset x hx)
    · intro x hx
      rw [set_self, hsd] at hx
      exact Or.inl hx
  | @txFrame w msg x hmsg hraw hx =>
    have hrecvs := Net.recvAt_recvs (s w).net (s w).bridge
    rw [hmsg] at hrecvs
    obtain ⟨copy, hcopy, hheader, -⟩ := hrecvs.returned
    refine hi.step (w := w) (by simp) (by simp) (by simp) (by simp) ?_ ?_
    · intro y hy
      rw [set_self] at hy
      exact Or.inl (hrecvs.subset y hy)
    · intro y hy
      rw [set_self] at hy
      rcases List.mem_append.mp hy with hy | hy
      · exact Or.inl hy
      · rw [List.mem_singleton.mp hy, hx]
        refine Or.inr ⟨hraw, (hi.queued w copy hcopy).mono (fun v => ?_) ?_ ?_ ?_ ?_ ?_⟩
        · rcases Which.eq_or_eq_other w v with rfl | rfl <;> simp
        all_goals rw [hheader]
  | @rx w junk x rest st sd hout hoff =>
    have hends : sd.net.endpoints = (s w).net.endpoints := hoff.endpoints
    have hsdout : sd.out = (s w).out := by rw [hoff.frame]
    have hsent : sd.sent = (s w).sent := by rw [hoff.frame]
    refine hi.step (w := w) (by simp) ?_ (by simpa using hends) (by simp [hsent]) ?_ ?_
    · intro y hy
      rw [set_other, set_self] at hy
      rw [hout]
      exact List.mem_cons_of_mem x hy
    · intro y hy
      rw [set_self] at hy
      refine (hoff.mem_bridge hy).imp_right fun hnew => ?_
      obtain ⟨hheader, horigin⟩ := hnew
      simp only [Net.header, Prod.mk.injEq] at hheader
      obtain ⟨h1, h2, h3, h4, -⟩ := hheader
      have hx : FromSend s x.1 := hi.out w.other x (by rw [hout]; exact List.mem_cons_self)
      refine hx.mono (fun v => ?_) h1 h2 h3 h4 horigin
      rcases Which.eq_or_eq_other w v with rfl | rfl <;> simp [hsent]
    · intro y hy
      rw [set_self] at hy
      exact Or.inl (hsdout ▸ hy)
  | @recv w e hne =>
    refine hi.step (w := w) (by simp) (by simp) (by simp) (by simp) ?_ ?_
    · intro x hx
      rw [set_self] at hx
      rw [Net.recvAt_eps_of_ne _ hne.symm] at hx
      exact Or.inl hx
    · intro x hx
      rw [set_self] at hx
      exact Or.inl hx
  | @greet w hnot =>
    refine hi.step (w := w) (by simp) (by simp) (by simp [Net.setsid]) (by simp) ?_ ?_
    · intro x hx
      rw [set_self] at hx
      exact Or.inl (by simpa using hx)
    · intro x hx
      rw [set_self] at hx
      exact Or.inl hx

/-! ### Inversion by effect -/

/-- The message that `thread_rx` puts on the net `sd` for the frame of `x`. -/
def readBack (sd : Side) (x : Carried) : Message :=
  { received sd.net.store x with origin := x.1.origin }

/-- What a step does to the copies of the send `id`. -/
inductive StepEffect (s s' : Link) (a : Act) (id : SendId) : Prop where
  | send {w e m} (ha : a = .send w e m) (hid : id = ⟨w.num, (s w).sent.length⟩)
      (heff : Effect s s' id w
        (if m.isRaw then share (s w) ((s w).stamp w e m) id (s w).bridge else 0) 0 0
        (share (s w) ((s w).stamp w e m) id))
  | tx {w moved} (hnot : ∀ v e m, a = .send v e m → id ≠ ⟨v.num, (s v).sent.length⟩)
      (heff : Effect s s' id w 0 moved 0 fun _ => 0)
  | rx {w junk x} (ha : a = .rx w junk) (hx : x ∈ (s w.other).out.head?) (hid : x.1.origin = id)
      (heff : Effect s s' id w (share (s w) (readBack (s w) x) id (s w).bridge) 0 1
        (share (s w) (readBack (s w) x) id))

theorem num_inj {w v : Which} {k l : ℕ} (h : (⟨w.num, k⟩ : SendId) = ⟨v.num, l⟩) : w = v ∧ k = l :=
  ⟨Which.num_injective (congrArg SendId.thread h), congrArg SendId.seq h⟩

theorem share_le_one (sd : Side) (msg : Message) (id : SendId) (e : EpId) :
    share sd msg id e ≤ 1 := by
  rw [share]
  split <;> omega

theorem share_of_ne {sd : Side} {msg : Message} {id : SendId} (h : msg.origin ≠ id) :
    share sd msg id = fun _ => 0 :=
  funext fun _ => if_neg fun hid => h hid.1

theorem trans_stepEffect {s s' : Link} {a : Act} (ht : Trans s a s') (hi : Tracked s) (id : SendId) :
    StepEffect s s' a id := by
  cases ht with
  | @send w e m sd he hne hoff =>
    have heff := effect_send hi.distinct hoff id
    by_cases hid : id = ⟨w.num, (s w).sent.length⟩
    · exact .send rfl hid heff
    · rw [share_of_ne (Ne.symm hid), ite_self] at heff
      refine .tx (fun v e' m' ha => ?_) heff
      cases ha
      exact hid
  | @txQuiet w sd hquiet hsd =>
    refine .tx (fun _ _ _ h => by cases h)
      (effect_quiet s w sd (fun id => ?_) (by rw [hsd]) (by rw [hsd]) (by rw [hsd]) id)
    have hcount := recvs_countP (Net.recvAt_recvs (s w).net (s w).bridge) id
    have hnone : returnedCopies id ((s w).net.recvAt (s w).bridge).1 = 0 := by
      cases hres : ((s w).net.recvAt (s w).bridge).1 with
      | error err => rfl
      | ok msg => simp [returnedCopies, stems, hquiet msg hres]
    rw [hnone, Nat.add_zero] at hcount
    rw [hsd]
    exact hcount
  | txFrame hmsg hraw hx => exact .tx (fun _ _ _ h => by cases h) (effect_txFrame hmsg hx id)
  | @rx w junk x rest st sd hout hoff =>
    have hx : x ∈ (s w.other).out := by
      rw [hout]
      exact List.mem_cons_self
    have heff := effect_rx hi.distinct hout (hi.raw w.other x hx) hoff id
    by_cases hid : x.1.origin = id
    · rw [if_pos hid] at heff
      exact .rx rfl (by rw [hout]; rfl) hid heff
    · rw [if_neg hid, share_of_ne (by exact hid)] at heff
      exact .tx (fun _ _ _ h => by cases h) heff
  | @recv w e hne =>
    refine .tx (fun _ _ _ h => by cases h)
      (effect_quiet s w { s w with net := ((s w).net.recvAt e).2 } (fun id => ?_) rfl rfl rfl id)
    simp only [Side.queued, Net.recvAt_eps_of_ne _ hne.symm]
  | @greet w hnot =>
    refine .tx (fun _ _ _ h => by cases h) (effect_quiet s w { s w with
      net := (s w).net.setsid (s w).bridge (s w.other).net.sid, greeted := true }
      (fun id => ?_) rfl rfl rfl id)
    simp [Side.queued]

/-! ### The list of sends -/

/-- What an action adds to the sends of the side `v`. -/
def newSends (s : Link) (v : Which) : Act → List Message
  | .send w e m => if w = v then [(s w).stamp w e m] else []
  | _ => []

theorem sent_trans {s s' : Link} {a : Act} (ht : Trans s a s') (v : Which) :
    (s' v).sent = (s v).sent ++ newSends s v a := by
  cases ht with
  | @send w e m sd he hne hoff =>
    have hsent : sd.sent = (s w).sent := by rw [hoff.frame]
    rcases Which.eq_or_eq_other w v with rfl | rfl
    · rw [set_self, hsent, newSends, if_pos rfl]
    · rw [set_other, newSends, if_neg (Which.ne_other w), List.append_nil]
  | @txQuiet w sd hquiet hsd =>
    rw [newSends, List.append_nil]
    · rcases Which.eq_or_eq_other w v with rfl | rfl
      · rw [set_self, hsd]
      · rw [set_other]
    · exact fun _ _ _ h => by cases h
  | @rx w junk x rest st sd hout hoff =>
    have hsent : sd.sent = (s w).sent := by rw [hoff.frame]
    rcases Which.eq_or_eq_other w v with rfl | rfl <;> simp [hsent, newSends]
  | @txFrame w | @recv w | @greet w =>
    rcases Which.eq_or_eq_other w v with rfl | rfl <;> simp [newSends]

/-- The `k`-th send after a step was there before, or is the send of the step. -/
theorem sent_getElem? {s s' : Link} {a : Act} (ht : Trans s a s') {w : Which} {k : ℕ} {m : Message}
    (hm : (s' w).sent[k]? = some m) :
    (s w).sent[k]? = some m ∨
      ∃ e m₀, a = .send w e m₀ ∧ k = (s w).sent.length ∧ m = (s w).stamp w e m₀ := by
  rw [sent_trans ht w] at hm
  rcases Nat.lt_or_ge k (s w).sent.length with hk | hk
  · rw [List.getElem?_append_left hk] at hm
    exact Or.inl hm
  · rw [List.getElem?_append_right hk] at hm
    cases a with
    | send v e m₀ =>
      by_cases hv : v = w
      · subst hv
        rw [newSends, if_pos rfl, List.getElem?_singleton] at hm
        split at hm
        · cases hm
          exact Or.inr ⟨e, m₀, rfl, by omega, rfl⟩
        · cases hm
      · rw [newSends, if_neg hv] at hm
        cases hm
    | _ => cases hm

/-! ### Sends still to come -/

/-- Nothing of the send `id` is anywhere. -/
def Zero (s : Link) (id : SendId) : Prop :=
  ∀ v, (s v).queued id = 0 ∧ (s v).flying id = 0 ∧ (s v).crossed id = 0 ∧ ∀ e, (s v).times e id = 0

/-- Copies can only come from copies. -/
theorem Zero.tx {s s' : Link} {id : SendId} {w : Which} {moved : ℕ} (hz : Zero s id)
    (he : Effect s s' id w 0 moved 0 fun _ => 0) : Zero s' id := by
  obtain ⟨hq, hf, hc, ht⟩ := hz w
  obtain ⟨pq, pf, pc, pt⟩ := hz w.other
  obtain ⟨e1, e2, e3, e4, e5, e6, e7, e8⟩ := he
  intro v
  rcases Which.eq_or_eq_other w v with rfl | rfl
  · exact ⟨by omega, by omega, by omega, fun e => by rw [e4 e, ht e]⟩
  · exact ⟨by omega, by omega, by omega, fun e => by rw [e8 e, pt e]⟩

structure Numbered (s : Link) : Prop where
  tracked : Tracked s
  later : ∀ w k, (s w).sent.length ≤ k → Zero s ⟨w.num, k⟩

theorem numbered_trans {s s' : Link} {a : Act} (ht : Trans s a s') (hi : Numbered s) :
    Numbered s' := by
  refine ⟨tracked_trans ht hi.tracked, fun w k hk => ?_⟩
  rw [sent_trans ht w, List.length_append] at hk
  have hz := hi.later w k (by omega)
  cases trans_stepEffect ht hi.tracked ⟨w.num, k⟩ with
  | send ha hid heff =>
    obtain ⟨rfl, rfl⟩ := num_inj hid
    rw [ha, newSends, if_pos rfl, List.length_singleton] at hk
    omega
  | tx hnot heff => exact hz.tx heff
  | @rx v junk x ha hx hid heff =>
    have hread := heff.peerFlying
    have hnone := (hz v.other).2.1
    omega

end Link

end WaterNet.Tcp
