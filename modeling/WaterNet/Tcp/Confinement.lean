import WaterNet.Tcp.Broadcast

/-!
# What may leave a net

The only filter between a net and a link is the `give` of the bridge endpoint, whose sid is
`UNUSED_ID` until `thread_rx` has read the sid of the peer, and the peer's from then on; by then
there may be messages in its queue, and `thread_rx` puts messages of the peer on the same net.

* `Move` — the steps of a link, and ordinary endpoints that send with any source address or change
  their addresses and limits at any time;
* `Confined` — the invariant of one side: the sid of the bridge endpoint, its queue, its frames;
* `frames_confined` — **every frame ever written carries a raw message for everyone, for the
  peer's net or for `UNUSED_ID`**, in every order of the steps.
-/

namespace WaterNet.Tcp

open Endpoint (Internal AddressData)
open WaterNet.Lib.Machine (run run_invariant)

/-- The steps of a link and the other calls of ordinary endpoints. -/
inductive Move where
  | act (a : Act)
  /-- `sendx`, or `sendas` by anyone: the source fields are those of `m` -/
  | sendx (w : Which) (m : Message)
  /-- `setsid`, `seteid`, `setgid` and the two limits of an ordinary endpoint -/
  | configure (w : Which) (e : EpId) (address : AddressData) (limitpending limitmemory : UInt64)

/-- A message with the destination `dstsid` may go over a link to the net `peer`. -/
def MayLeave (peer dstsid : ID) : Prop := dstsid = 0 ∨ dstsid = peer ∨ dstsid = UNUSED_ID

namespace Side

/-- `Net::send` of a message that is named as the next send of the side. -/
def sendx (sd : Side) (w : Which) (m : Message) : Option Side := do
  let msg := { m with origin := ⟨w.num, sd.sent.length⟩ }
  let sd ← sd.offer msg
  some { sd with sent := sd.sent ++ [msg] }

def configure (sd : Side) (e : EpId) (address : AddressData) (limitpending limitmemory : UInt64) :
    Side :=
  { sd with net := { sd.net with eps := Function.update sd.net.eps e { sd.net.eps e with
      address := address, limitpending := limitpending, limitmemory := limitmemory } } }

/-- **What holds of the side `sd` of a link**, on the net `own` and with the peer's net `peer`: the
bridge endpoint has no sid of its own yet or the peer's, and its queue and the frames written hold
only messages that may leave. -/
structure Confined (own peer : ID) (sd : Side) : Prop where
  sid : sd.net.sid = own
  distinct : sd.net.endpoints.Nodup
  adopted : (sd.net.eps sd.bridge).address.sid = UNUSED_ID ∨
    (sd.net.eps sd.bridge).address.sid = peer
  queued : ∀ m ∈ (sd.net.eps sd.bridge).messages, MayLeave peer m.dstsid
  written : ∀ x ∈ sd.written, x.1.isRaw = true ∧ MayLeave peer x.1.dstsid

variable {own peer : ID} {sd sd' : Side}

/-- The filter: what the bridge endpoint accepts may leave. -/
theorem Confined.accepts (h : sd.Confined own peer) (hne : own ≠ peer) (hunused : own ≠ UNUSED_ID)
    {msg : Message} (hacc : sd.net.accepts msg sd.bridge = true) : MayLeave peer msg.dstsid := by
  rw [Net.accepts, Bool.and_eq_true, Internal.routes_iff] at hacc
  obtain ⟨⟨-, hdst, -⟩, -⟩ := hacc
  rcases hdst with h0 | ⟨-, hlocal⟩ | ⟨-, -, hsid⟩
  · exact Or.inl h0
  · -- the local net is not the net of the bridge endpoint
    rw [h.sid] at hlocal
    rcases h.adopted with ha | ha
    · exact absurd (hlocal.symm.trans ha) hunused
    · exact absurd (hlocal.symm.trans ha) hne
  · rcases h.adopted with ha | ha
    · exact Or.inr (Or.inr (hsid.trans ha))
    · exact Or.inr (Or.inl (hsid.trans ha))

/-- Putting a message on the net. -/
theorem Confined.offered (h : sd.Confined own peer) (hne : own ≠ peer) (hunused : own ≠ UNUSED_ID)
    {msg : Message} (hoff : Offered sd msg sd') : sd'.Confined own peer := by
  have hbridge : sd'.bridge = sd.bridge := by rw [hoff.frame]
  have hwritten : sd'.written = sd.written := by rw [hoff.frame]
  obtain ⟨c, hheader, -, -, hqueue⟩ := hoff.queues
  refine ⟨by rw [hoff.sid, h.sid], by rw [hoff.endpoints]; exact h.distinct, ?_, fun m hm => ?_, ?_⟩
  · rw [hbridge, (hoff.settings sd.bridge).address]
    exact h.adopted
  · rw [hbridge, hqueue, List.mem_append] at hm
    rcases hm with hm | hm
    · exact h.queued m hm
    · split at hm
      · rename_i hacc
        have hdst : c.dstsid = msg.dstsid := congrArg (fun x => x.2.2.1) hheader
        rw [List.mem_singleton.mp hm, hdst]
        exact h.accepts hne hunused hacc.2
      · cases hm
  · rw [hwritten]
    exact h.written

/-- A change of the buffers alone. -/
theorem Confined.setStore (h : sd.Confined own peer) (st : Store) :
    ({ sd with net := { sd.net with store := st } } : Side).Confined own peer :=
  ⟨h.sid, h.distinct, h.adopted, h.queued, h.written⟩

/-- Taking messages out of the queue of the bridge endpoint or of another one. -/
theorem Confined.recvAt (h : sd.Confined own peer) (e : EpId) :
    ({ sd with net := (sd.net.recvAt e).2 } : Side).Confined own peer := by
  refine ⟨h.sid, h.distinct, ?_, fun m hm => ?_, h.written⟩
  · show ((sd.net.recvAt e).2.eps sd.bridge).address.sid = _ ∨
      ((sd.net.recvAt e).2.eps sd.bridge).address.sid = _
    rw [(Net.recvAt_settings sd.net e sd.bridge).address]
    exact h.adopted
  · change m ∈ ((sd.net.recvAt e).2.eps sd.bridge).messages at hm
    by_cases he : sd.bridge = e
    · rw [← he] at hm
      exact h.queued m ((Net.recvAt_recvs sd.net sd.bridge).subset m hm)
    · rw [Net.recvAt_eps_of_ne sd.net he] at hm
      exact h.queued m hm

/-- What `thread_tx` receives and writes may leave. -/
theorem Confined.txFrame (h : sd.Confined own peer) {msg : Message} {x : Carried}
    (hmsg : (sd.net.recvAt sd.bridge).1 = .ok msg) (hraw : msg.isRaw = true) (hx : x.1 = msg) :
    ({ sd with
      net := (sd.net.recvAt sd.bridge).2
      out := sd.out ++ [x]
      written := sd.written ++ [x] } : Side).Confined own peer := by
  have hrecv := h.recvAt sd.bridge
  have hrecvs := Net.recvAt_recvs sd.net sd.bridge
  rw [hmsg] at hrecvs
  obtain ⟨copy, hcopy, hheader, -⟩ := hrecvs.returned
  refine ⟨hrecv.sid, hrecv.distinct, hrecv.adopted, hrecv.queued, fun y hy => ?_⟩
  rcases List.mem_append.mp hy with hy | hy
  · exact h.written y hy
  · rw [List.mem_singleton.mp hy, hx, hraw, hheader]
    exact ⟨rfl, h.queued copy hcopy⟩

/-- The bridge endpoint adopts the sid of the peer. -/
theorem Confined.greet (h : sd.Confined own peer) :
    ({ sd with net := sd.net.setsid sd.bridge peer, greeted := true } : Side).Confined own peer := by
  have hself := Net.setsid_eps_self sd.net sd.bridge peer
  refine ⟨h.sid, h.distinct, Or.inr ?_, fun m hm => ?_, h.written⟩
  · show ((sd.net.setsid sd.bridge peer).eps sd.bridge).address.sid = peer
    rw [hself]
  · change m ∈ ((sd.net.setsid sd.bridge peer).eps sd.bridge).messages at hm
    rw [hself] at hm
    exact h.queued m hm

/-- Ordinary endpoints have any addresses and limits. -/
theorem Confined.configure (h : sd.Confined own peer) {e : EpId} (he : e ≠ sd.bridge)
    (address : AddressData) (limitpending limitmemory : UInt64) :
    (sd.configure e address limitpending limitmemory).Confined own peer := by
  have hsame : (sd.configure e address limitpending limitmemory).net.eps sd.bridge =
      sd.net.eps sd.bridge := Function.update_of_ne he.symm _ _
  refine ⟨h.sid, h.distinct, ?_, fun m hm => h.queued m ?_, h.written⟩
  · show ((sd.configure e address limitpending limitmemory).net.eps sd.bridge).address.sid = _ ∨
      ((sd.configure e address limitpending limitmemory).net.eps sd.bridge).address.sid = _
    rw [hsame]
    exact h.adopted
  · rw [← hsame]
    exact hm

end Side

namespace Link

def move (terminate : TypeId) (s : Link) : Move → Option Link
  | .act a => s.step terminate a
  | .sendx w m => ((s w).sendx w m).map (s.set w)
  | .configure w e address limitpending limitmemory =>
    if e ≠ (s w).bridge then some (s.set w ((s w).configure e address limitpending limitmemory))
    else none

/-- A bridge between two nets with different sids of the usual kind, before the negotiation and
before anything was sent.  The ordinary endpoints are arbitrary. -/
structure Unmet (s : Link) : Prop where
  sids : (s .listener).net.sid ≠ (s .connector).net.sid
  usual : ∀ w, (s w).net.sid ≠ 0 ∧ (s w).net.sid ≠ 1 ∧ (s w).net.sid ≠ UNUSED_ID
  distinct : ∀ w, (s w).net.endpoints.Nodup
  member : ∀ w, (s w).bridge ∈ (s w).net.endpoints
  unnamed : ∀ w, ((s w).net.eps (s w).bridge).address.sid = UNUSED_ID
  greeted : ∀ w, (s w).greeted = false
  queue : ∀ w, ((s w).net.eps (s w).bridge).messages = []
  out : ∀ w, (s w).out = []
  written : ∀ w, (s w).written = []

theorem Unmet.sid_ne_other {s : Link} (h : Unmet s) (w : Which) :
    (s w).net.sid ≠ (s w.other).net.sid := by
  cases w with
  | listener => exact h.sids
  | connector => exact h.sids.symm

/-- Both sides are confined, to the sids they had at the start. -/
def BothConfined (s₀ s : Link) : Prop :=
  ∀ w, (s w).Confined (s₀ w).net.sid (s₀ w.other).net.sid

theorem Unmet.bothConfined {s : Link} (h : Unmet s) : BothConfined s s := by
  intro w
  refine ⟨rfl, h.distinct w, Or.inl (h.unnamed w), fun m hm => ?_, fun x hx => ?_⟩
  · rw [h.queue w] at hm
    cases hm
  · rw [h.written w] at hx
    cases hx

theorem BothConfined.set {s₀ s : Link} {w : Which} {sd : Side} (h : BothConfined s₀ s)
    (hsd : sd.Confined (s₀ w).net.sid (s₀ w.other).net.sid) : BothConfined s₀ (s.set w sd) := by
  intro v
  rcases Which.eq_or_eq_other w v with rfl | rfl
  · rw [set_self]
    exact hsd
  · rw [set_other]
    exact h _

/-- **Confinement is kept by every step of the link.** -/
theorem bothConfined_trans {s₀ s s' : Link} {a : Act} (hinit : Unmet s₀) (h : Trans s a s')
    (hi : BothConfined s₀ s) : BothConfined s₀ s' := by
  have hne := hinit.sid_ne_other
  cases h with
  | @send w e m sd he hbridge hoff =>
    have hsd := (hi w).offered (hne w) (hinit.usual w).2.2 hoff
    exact hi.set ⟨hsd.sid, hsd.distinct, hsd.adopted, hsd.queued, hsd.written⟩
  | @txQuiet w sd hquiet hsd =>
    have hrecv := (hi w).recvAt (s w).bridge
    rw [hsd]
    exact hi.set ⟨hrecv.sid, hrecv.distinct, hrecv.adopted, hrecv.queued, hrecv.written⟩
  | @txFrame w msg x hmsg hraw hx => exact hi.set ((hi w).txFrame hmsg hraw hx)
  | @rx w junk x rest st sd hout hoff =>
    -- the peer loses a frame that was on its way, and the message it carried is put on the net
    have hpeer := hi w.other
    have hrest : BothConfined s₀ (s.set w.other { s w.other with out := rest }) :=
      hi.set ⟨hpeer.sid, hpeer.distinct, hpeer.adopted, hpeer.queued, hpeer.written⟩
    exact hrest.set (((hi w).setStore st).offered (hne w) (hinit.usual w).2.2 hoff)
  | @recv w e hbridge => exact hi.set ((hi w).recvAt e)
  | @greet w hnot =>
    rw [(hi w.other).sid]
    exact hi.set (hi w).greet

theorem bothConfined_move {terminate : TypeId} {s₀ s s' : Link} {a : Move} (hinit : Unmet s₀)
    (hi : BothConfined s₀ s) (h : s.move terminate a = some s') : BothConfined s₀ s' := by
  cases a with
  | act a => exact bothConfined_trans hinit (step_trans (fun w => (hi w).distinct) h) hi
  | sendx w m =>
    simp only [move, Side.sendx, Option.bind_eq_bind, Option.map_eq_some_iff,
      Option.bind_eq_some_iff] at h
    obtain ⟨sd, ⟨sd₁, hoff, hsd⟩, rfl⟩ := h
    cases hsd
    have hconf := (hi w).offered (hinit.sid_ne_other w) (hinit.usual w).2.2
      (offer_offered (hi w).distinct hoff)
    exact hi.set ⟨hconf.sid, hconf.distinct, hconf.adopted, hconf.queued, hconf.written⟩
  | configure w e address limitpending limitmemory =>
    simp only [move, Option.ite_none_right_eq_some, Option.some.injEq] at h
    obtain ⟨he, rfl⟩ := h
    exact hi.set ((hi w).configure he address limitpending limitmemory)

/-- **Local traffic is confined to its net.**  In every run every frame written on a side carries a
raw message whose destination is everyone, the net of the peer or `UNUSED_ID`; so none is
addressed to the local net, to the sid of its own net or to a third net, and none carries a sync or
a clone message. -/
theorem frames_confined {terminate : TypeId} {s₀ s : Link} {moves : List Move} (hinit : Unmet s₀)
    (hrun : run (move terminate) s₀ moves = some s) (w : Which) :
    ∀ x ∈ (s w).written, x.1.isRaw = true ∧
      (x.1.dstsid = 0 ∨ x.1.dstsid = (s₀ w.other).net.sid ∨ x.1.dstsid = UNUSED_ID) ∧
      x.1.dstsid ≠ 1 ∧ x.1.dstsid ≠ (s₀ w).net.sid ∧ x.1.isSync = false ∧ x.1.isClone = false := by
  have hconf : BothConfined s₀ s :=
    run_invariant (fun _ _ _ hi h => bothConfined_move hinit hi h) hrun hinit.bothConfined
  intro x hx
  obtain ⟨hraw, hdst⟩ := (hconf w).written x hx
  obtain ⟨r, hr⟩ := Message.isRaw_iff.mp hraw
  have hown := hinit.usual w
  have hpeer := hinit.usual w.other
  refine ⟨hraw, hdst, fun h1 => ?_, fun hw => ?_, by simp [Message.isSync, hr],
    by simp [Message.isClone, hr]⟩
  · rcases hdst with h | h | h
    · rw [h1] at h
      exact absurd h (by decide)
    · exact hpeer.2.1 (h.symm.trans h1)
    · rw [h1] at h
      exact absurd h (by decide)
  · rcases hdst with h | h | h
    · exact hown.1 (hw.symm.trans h)
    · exact hinit.sid_ne_other w (hw.symm.trans h)
    · exact hown.2.2 (hw.symm.trans h)

/-- A side whose bridge endpoint was just put on the net. -/
def unmetSide (net : Net) (b : EpId) : Side :=
  { net := bridgeEndpoint net b
    bridge := b, greeted := false, out := [], txDone := false, rxDone := false
    sent := [], given := [], written := [] }

/-- Two endpoints on the net 234 and one on the net 875. -/
def strangers : Link
  | .listener => unmetSide (((netWithBuf 234).newEndpoint 0).newEndpoint 1) 2
  | .connector => unmetSide ((netWithBuf 875).newEndpoint 0) 1

theorem strangers_unmet : Unmet strangers where
  sids := by decide
  usual w := by cases w <;> decide
  distinct w := by cases w <;> decide
  member w := by cases w <;> decide
  unnamed w := by cases w <;> decide
  greeted w := by cases w <;> rfl
  queue w := by cases w <;> rfl
  out w := by cases w <;> rfl
  written w := by cases w <;> rfl

/-- Before the negotiation one message is sent to everyone, one to the local net and one to
`UNUSED_ID`, and after it one to the net 875 and one to its own net. -/
def strangersScript : List Move :=
  let raw : Message := Message.newFromraw ⟨0⟩
  [.sendx .listener raw, .sendx .listener { raw with dstsid := 1 },
    .sendx .listener { raw with dstsid := UNUSED_ID }, .act (.greet .listener),
    .act (.send .listener 0 { raw with dstsid := 875 }),
    .act (.send .listener 0 { raw with dstsid := 234 }), .act (.tx .listener),
    .act (.tx .listener), .act (.tx .listener), .act (.tx .listener)]

theorem frames_confined_strangers :
    ∃ s, run (move 9) strangers strangersScript = some s ∧
      (s .listener).written.map (fun x => x.1.dstsid) = [0, UNUSED_ID, 875] ∧
      ∀ x ∈ (s .listener).written, x.1.isRaw = true ∧
        (x.1.dstsid = 0 ∨ x.1.dstsid = (strangers (Which.listener).other).net.sid ∨
          x.1.dstsid = UNUSED_ID) ∧
        x.1.dstsid ≠ 1 ∧ x.1.dstsid ≠ (strangers .listener).net.sid ∧ x.1.isSync = false ∧
        x.1.isClone = false := by
  have hend : (run (move 9) strangers strangersScript).map (fun s =>
      (s .listener).written.map fun x => x.1.dstsid) = some [0, UNUSED_ID, 875] := by
    decide +kernel
  obtain ⟨s, hs, hdst⟩ := Option.map_eq_some_iff.mp hend
  exact ⟨s, hs, hdst, frames_confined strangers_unmet hs .listener⟩

end Link

end WaterNet.Tcp
