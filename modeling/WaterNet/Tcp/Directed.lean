import WaterNet.Tcp.Broadcast

/-!
# Messages to one endpoint over a bridge

A message for the endpoint `b` of the peer's net has to be accepted by the bridge endpoint of the
sender's net first, which compares the destination eid with its own.  So it gets across exactly if
the two eids are the same, and is then refused at `b` only if its source is the address of `b`.

* `Settled` — the addresses and limits that the decisions depend on do not change in a run;
* `Directed` — where the one copy is that counts;
* `directed_once_iff` — when a message for `b` arrives there, in every run;
* `directed_lost` — a message that does not.
-/

namespace WaterNet.Tcp

open Endpoint (Internal)
open WaterNet.Lib.Machine (run run_invariant)

namespace Link

/-! ### What does not change -/

structure Settled (s₀ s : Link) : Prop where
  bridge : ∀ v, (s v).bridge = (s₀ v).bridge
  greeted : ∀ v, (s v).greeted = true
  endpoints : ∀ v, (s v).net.endpoints = (s₀ v).net.endpoints
  sid : ∀ v, (s v).net.sid = (s₀ v).net.sid
  settings : ∀ v e, Internal.SameSettings ((s₀ v).net.eps e) ((s v).net.eps e)

/-- A step on the side `w` that keeps the settings there. -/
theorem Settled.step {s₀ s s' : Link} {w : Which} (hi : Settled s₀ s)
    (hbridge : (s' w).bridge = (s w).bridge) (hgreeted : (s' w).greeted = (s w).greeted)
    (hends : (s' w).net.endpoints = (s w).net.endpoints) (hsid : (s' w).net.sid = (s w).net.sid)
    (hset : ∀ e, Internal.SameSettings ((s w).net.eps e) ((s' w).net.eps e))
    (hpeer : s' w.other = { s w.other with out := (s' w.other).out }) : Settled s₀ s' := by
  constructor <;> intro v <;> rcases Which.eq_or_eq_other w v with rfl | rfl
  · rw [hbridge, hi.bridge]
  · rw [hpeer]
    exact hi.bridge _
  · rw [hgreeted, hi.greeted]
  · rw [hpeer]
    exact hi.greeted _
  · rw [hends, hi.endpoints]
  · rw [hpeer]
    exact hi.endpoints _
  · rw [hsid, hi.sid]
  · rw [hpeer]
    exact hi.sid _
  · exact fun e => (hi.settings v e).trans (hset e)
  · rw [hpeer]
    exact hi.settings _

theorem settled_trans {s₀ s s' : Link} {a : Act} (ht : Trans s a s') (hi : Settled s₀ s) :
    Settled s₀ s' := by
  cases ht with
  | @send w e m sd he hne hoff =>
    refine hi.step (w := w) ?_ ?_ ?_ ?_ (fun e => ?_) (by rw [set_other])
    · rw [set_self, hoff.frame]
    · rw [set_self, hoff.frame]
    · rw [set_self]
      exact hoff.endpoints
    · rw [set_self]
      exact hoff.sid
    · rw [set_self]
      exact hoff.settings e
  | @txQuiet w sd hquiet hsd =>
    refine hi.step (w := w) ?_ ?_ ?_ ?_ (fun e => ?_) (by rw [set_other]) <;> rw [set_self, hsd]
    · rfl
    · rfl
    · exact Net.recvAt_settings (s w).net (s w).bridge e
  | @txFrame w msg x hmsg hraw hx =>
    refine hi.step (w := w) ?_ ?_ ?_ ?_ (fun e => ?_) (by rw [set_other]) <;> rw [set_self]
    · rfl
    · rfl
    · exact Net.recvAt_settings (s w).net (s w).bridge e
  | @rx w junk x rest st sd hout hoff =>
    refine hi.step (w := w) ?_ ?_ ?_ ?_ (fun e => ?_) (by rw [set_other, set_self])
    · rw [set_self, hoff.frame]
    · rw [set_self, hoff.frame]
    · rw [set_self]
      exact hoff.endpoints
    · rw [set_self]
      exact hoff.sid
    · rw [set_self]
      exact hoff.settings e
  | @recv w e hne =>
    refine hi.step (w := w) ?_ ?_ ?_ ?_ (fun e' => ?_) (by rw [set_other]) <;> rw [set_self]
    · rfl
    · rfl
    · exact Net.recvAt_settings (s w).net e e'
  | @greet w hnot =>
    rw [hi.greeted w] at hnot
    cases hnot

/-! ### The endpoint a message is for -/

/-- The endpoint `b` on the net of the peer of `w`: it has that net's sid and a nonzero eid, and
neither it nor the bridge endpoint of `w` has limits. -/
structure Target (s : Link) (w : Which) (b : EpId) : Prop where
  sids : ∀ v, (s v).net.sid ≠ 0 ∧ (s v).net.sid ≠ 1
  member : b ∈ (s w.other).net.endpoints
  sid : ((s w.other).net.eps b).address.sid = (s w.other).net.sid
  eid : ((s w.other).net.eps b).address.eid ≠ 0
  limits : ((s w.other).net.eps b).limitpending = 0 ∧ ((s w.other).net.eps b).limitmemory = 0
  bridgeLimits : ((s w).net.eps (s w).bridge).limitpending = 0 ∧
    ((s w).net.eps (s w).bridge).limitmemory = 0

/-- The bridge endpoint has the eid of `b`, and the message does not come from the address of `b`. -/
def Reaches (s : Link) (w : Which) (b : EpId) (m : Message) : Prop :=
  ((s w.other).net.eps b).address.eid = ((s w).net.eps (s w).bridge).address.eid ∧
    ¬(m.srcsid = (s w.other).net.sid ∧ m.srceid = ((s w.other).net.eps b).address.eid)

/-- Where the copies of `m`, a message for `b`, are: nowhere if the bridge endpoint has another eid;
in one place if `m` reaches `b`; and not with `b` if it does not. -/
structure Directed (s₀ s : Link) (w : Which) (b : EpId) (m : Message) (id : SendId) : Prop where
  back : (s w.other).queued id = 0 ∧ (s w.other).flying id = 0
  lost : ((s₀ w.other).net.eps b).address.eid ≠ ((s₀ w).net.eps (s₀ w).bridge).address.eid →
    (s w).queued id + (s w).flying id + (s w.other).times b id = 0
  one : Reaches s₀ w b m → (s w).queued id + (s w).flying id + (s w.other).times b id = 1
  none : ¬Reaches s₀ w b m → (s w.other).times b id = 0

theorem underLimits_of_zero {ep : Internal} (h : ep.limitpending = 0 ∧ ep.limitmemory = 0) :
    ep.underLimits = true :=
  (Internal.underLimits_iff ep).mpr ⟨Or.inl h.1, Or.inl h.2⟩

theorem underLimits_of_settings {ep ep' : Internal} (h : Internal.SameSettings ep ep')
    (h0 : ep.limitpending = 0 ∧ ep.limitmemory = 0) : ep'.underLimits = true :=
  underLimits_of_zero ⟨h.limitpending.trans h0.1, h.limitmemory.trans h0.2⟩

section Decisions

variable {s₀ s : Link} {w : Which} {b : EpId} (htarget : Target s₀ w b) (hset : Settled s₀ s)

include htarget hset

/-- The decision of `b` on what `thread_rx` puts on its net. -/
theorem target_accepts_iff {x : Carried} (hdstsid : x.1.dstsid = (s₀ w.other).net.sid)
    (hdsteid : x.1.dsteid = ((s₀ w.other).net.eps b).address.eid) :
    (s w.other).net.accepts (readBack (s w.other) x) b = true ↔
      ¬(x.1.srcsid = (s₀ w.other).net.sid ∧
        x.1.srceid = ((s₀ w.other).net.eps b).address.eid) := by
  have hs := hset.settings w.other b
  have hlim := underLimits_of_settings hs htarget.limits
  have hsids := htarget.sids w.other
  have hheader : (readBack (s w.other) x).canloop = false ∧
      (readBack (s w.other) x).srcsid = x.1.srcsid ∧ (readBack (s w.other) x).srceid = x.1.srceid ∧
      (readBack (s w.other) x).dstsid = x.1.dstsid ∧
      (readBack (s w.other) x).dsteid = x.1.dsteid := ⟨rfl, rfl, rfl, rfl, rfl⟩
  obtain ⟨h1, h2, h3, h4, h5⟩ := hheader
  rw [Net.accepts, hlim, Bool.and_true, Internal.routes_iff, h1, h2, h3, h4, h5, hs.address,
    htarget.sid, hdstsid, hdsteid]
  simp only [hsids.1, hsids.2, ne_eq, not_false_eq_true, and_self, or_true, and_true, true_and]
  exact not_congr And.comm

variable (hinit : Joined s₀)

include hinit

/-- The decision of the bridge endpoint on the sender's net. -/
theorem bridge_accepts_iff {m : Message} (hdstsid : m.dstsid = (s₀ w.other).net.sid)
    (hdsteid : m.dsteid = ((s₀ w.other).net.eps b).address.eid) :
    (s w).net.accepts m (s w).bridge = true ↔
      ((s₀ w.other).net.eps b).address.eid = ((s₀ w).net.eps (s₀ w).bridge).address.eid ∧
      ¬(m.canloop = false ∧ m.srcsid = (s₀ w.other).net.sid ∧
        m.srceid = ((s₀ w.other).net.eps b).address.eid) := by
  have hs := hset.settings w (s₀ w).bridge
  have hlim := underLimits_of_settings hs htarget.bridgeLimits
  have hsids := htarget.sids w.other
  rw [Net.accepts, hset.bridge w, hlim, Bool.and_true, Internal.routes_iff, hs.address,
    hinit.adopted w, hdstsid, hdsteid]
  simp only [hsids.1, hsids.2, htarget.eid, ne_eq, not_false_eq_true, and_self, or_true, false_or,
    false_and, true_and]
  constructor
  · rintro ⟨hloop, heq⟩
    exact ⟨heq, fun h => hloop ⟨h.1, h.2.2.trans heq, h.2.1⟩⟩
  · rintro ⟨heq, hloop⟩
    exact ⟨fun h => hloop ⟨h.1, h.2.2, h.2.1.trans heq.symm⟩, heq⟩

/-- The bridge endpoint on the target's net does not take the message back. -/
theorem bridge_refuses {x : Carried} (hdstsid : x.1.dstsid = (s₀ w.other).net.sid) :
    (s w.other).net.accepts (readBack (s w.other) x) (s w.other).bridge = false := by
  have hs := hset.settings w.other (s₀ w.other).bridge
  have hsids := htarget.sids w.other
  have hne : (s₀ w.other).net.sid ≠ (s₀ w).net.sid := by
    have h := hinit.sids
    cases w with
    | listener => exact Ne.symm h
    | connector => exact h
  have hadopted := hinit.adopted w.other
  rw [Which.other_other] at hadopted
  rw [Bool.eq_false_iff]
  intro hacc
  rw [Net.accepts, Bool.and_eq_true, hset.bridge, Internal.routes_iff, hs.address, hadopted] at hacc
  have hdst : (readBack (s w.other) x).dstsid = (s₀ w.other).net.sid := hdstsid
  rw [hdst] at hacc
  obtain ⟨⟨-, h, -⟩, -⟩ := hacc
  rcases h with h | ⟨h, -⟩ | ⟨-, -, h⟩
  · exact hsids.1 h
  · exact hsids.2 h
  · exact hne h

end Decisions

/-! ### The invariant -/

theorem share_eq_one {sd : Side} {msg : Message} {e : EpId} (he : e ∈ sd.net.endpoints)
    (hacc : sd.net.accepts msg e = true) : share sd msg msg.origin e = 1 := if_pos ⟨rfl, he, hacc⟩

theorem share_eq_zero {sd : Side} {msg : Message} {id : SendId} {e : EpId}
    (hacc : ¬sd.net.accepts msg e = true) : share sd msg id e = 0 := if_neg fun h => hacc h.2.2

section Invariant

variable {s₀ s s' : Link} {w v : Which} {b : EpId} {m : Message} {id : SendId}

/-- Moving copies from a queue to the link. -/
theorem Directed.tx {moved : ℕ} (hd : Directed s₀ s w b m id)
    (he : Effect s s' id v 0 moved 0 fun _ => 0) : Directed s₀ s' w b m id := by
  obtain ⟨hback, hlost, hone, hnone⟩ := hd
  obtain ⟨e1, e2, e3, e4, e5, e6, e7, e8⟩ := he
  rcases Which.eq_or_eq_other w v with rfl | rfl
  · have ht := e8 b
    exact ⟨by omega, fun h => by have := hlost h; omega, fun h => by have := hone h; omega,
      fun h => by have := hnone h; omega⟩
  · rw [Which.other_other] at e5 e6 e7 e8
    have ht := e4 b
    exact ⟨by omega, fun h => by have := hlost h; omega, fun h => by have := hone h; omega,
      fun h => by have := hnone h; omega⟩

/-- The send itself. -/
theorem directed_send {e : EpId} {m₀ : Message} (htarget : Target s₀ w b) (hset : Settled s₀ s)
    (hinit : Joined s₀) (hm : m = (s w).stamp w e m₀) (hid : id = ⟨w.num, (s w).sent.length⟩)
    (hraw : m.isRaw = true) (hdstsid : m.dstsid = (s₀ w.other).net.sid)
    (hdsteid : m.dsteid = ((s₀ w.other).net.eps b).address.eid) (hz : Zero s id)
    (he : Effect s s' id w (if m₀.isRaw then share (s w) m id (s w).bridge else 0) 0 0
      (share (s w) m id)) : Directed s₀ s' w b m id := by
  have horigin : m.origin = id := by rw [hm, hid]; rfl
  have hraw₀ : m₀.isRaw = true := by rw [← hraw, hm]; rfl
  have hdec := bridge_accepts_iff htarget hset hinit hdstsid hdsteid
  have hmember : (s w).bridge ∈ (s w).net.endpoints := by
    rw [hset.bridge, hset.endpoints]
    exact hinit.member w
  rw [if_pos hraw₀] at he
  obtain ⟨hq, hf, -, -⟩ := hz w
  obtain ⟨pq, pf, -, pt⟩ := hz w.other
  obtain ⟨e1, e2, e3, e4, e5, e6, e7, e8⟩ := he
  have ht := e8 b
  have pt := pt b
  refine ⟨by omega, fun hne => ?_, fun hreach => ?_, fun _ => by omega⟩
  · have hzero : share (s w) m id (s w).bridge = 0 :=
      share_eq_zero fun hacc => hne (hdec.mp hacc).1
    omega
  · have hone : share (s w) m m.origin (s w).bridge = 1 :=
      share_eq_one hmember (hdec.mpr ⟨hreach.1, fun h => hreach.2 ⟨h.2.1, h.2.2⟩⟩)
    rw [horigin] at hone
    omega

/-- A pass of `thread_rx` over a frame of the send. -/
theorem directed_rx {x : Carried} (htarget : Target s₀ w b) (hset : Settled s₀ s)
    (hinit : Joined s₀) (hd : Directed s₀ s w b m id) (hid : x.1.origin = id)
    (hfrom : x.1.srcsid = m.srcsid ∧ x.1.srceid = m.srceid ∧ x.1.dstsid = m.dstsid ∧
      x.1.dsteid = m.dsteid) (hdstsid : m.dstsid = (s₀ w.other).net.sid)
    (hdsteid : m.dsteid = ((s₀ w.other).net.eps b).address.eid)
    (he : Effect s s' id v (share (s v) (readBack (s v) x) id (s v).bridge) 0 1
      (share (s v) (readBack (s v) x) id)) : Directed s₀ s' w b m id := by
  obtain ⟨h1, h2, h3, h4⟩ := hfrom
  obtain ⟨hback, hlost, hone, hnone⟩ := hd
  rcases Which.eq_or_eq_other w v with rfl | rfl
  · -- no frame of it comes back
    have := he.peerFlying
    omega
  have hdec := target_accepts_iff htarget hset (x := x) (h3.trans hdstsid) (h4.trans hdsteid)
  rw [h1, h2] at hdec
  have hrefuse := bridge_refuses htarget hset hinit (x := x) (h3.trans hdstsid)
  have htaken : share (s w.other) (readBack (s w.other) x) id (s w.other).bridge = 0 :=
    share_eq_zero (by rw [hrefuse]; exact Bool.false_ne_true)
  rw [htaken] at he
  obtain ⟨e1, e2, e3, e4, e5, e6, e7, e8⟩ := he
  rw [Which.other_other] at e5 e6 e7 e8
  have ht := e4 b
  refine ⟨by omega, fun hne => ?_, fun hreach => ?_, fun hnot => ?_⟩
  · have := hlost hne
    omega
  · have hmember : b ∈ (s w.other).net.endpoints := by
      rw [hset.endpoints]
      exact htarget.member
    have hgot : share (s w.other) (readBack (s w.other) x) x.1.origin b = 1 :=
      share_eq_one hmember (hdec.mpr hreach.2)
    rw [hid] at hgot
    have := hone hreach
    omega
  · -- a frame is on the link, so the eids agree and it is the source that is wrong
    have heid : ((s₀ w.other).net.eps b).address.eid =
        ((s₀ w).net.eps (s₀ w).bridge).address.eid := by
      by_contra hne
      have := hlost hne
      omega
    have hrefused : share (s w.other) (readBack (s w.other) x) id b = 0 :=
      share_eq_zero fun hacc => hnot ⟨heid, hdec.mp hacc⟩
    have := hnone hnot
    omega

end Invariant

structure Steady (s₀ : Link) (w : Which) (b : EpId) (s : Link) : Prop where
  numbered : Numbered s
  settled : Settled s₀ s
  directed : ∀ k m, (s w).sent[k]? = some m → m.isRaw = true →
    m.dstsid = (s₀ w.other).net.sid → m.dsteid = ((s₀ w.other).net.eps b).address.eid →
    Directed s₀ s w b m ⟨w.num, k⟩

theorem Joined.steady {s : Link} (h : Joined s) (w : Which) (b : EpId) : Steady s w b s where
  numbered := h.numbered
  settled := ⟨fun _ => rfl, h.greeted, fun _ => rfl, fun _ => rfl, fun _ _ => .refl _⟩
  directed k m hm := by simp [h.sent w] at hm

theorem steady_trans {s₀ s s' : Link} {a : Act} {w : Which} {b : EpId} (hinit : Joined s₀)
    (htarget : Target s₀ w b) (ht : Trans s a s') (hi : Steady s₀ w b s) : Steady s₀ w b s' := by
  refine ⟨numbered_trans ht hi.numbered, settled_trans ht hi.settled, fun k m hm hraw h1 h2 => ?_⟩
  have heffect := trans_stepEffect ht hi.numbered.tracked ⟨w.num, k⟩
  rcases sent_getElem? ht hm with hold | ⟨e, m₀, ha, hk, hmsg⟩
  · have hd := hi.directed k m hold hraw h1 h2
    cases heffect with
    | send _ hid _ =>
      obtain ⟨rfl, rfl⟩ := num_inj hid
      simp at hold
    | tx _ heff => exact hd.tx heff
    | @rx v junk x ha hx hid heff =>
      obtain ⟨v', m', hthread, hm', hfrom⟩ :=
        hi.numbered.tracked.out v.other x (List.mem_of_head? hx)
      rw [hid] at hthread hm'
      obtain rfl := Which.num_injective hthread
      cases hold.symm.trans hm'
      exact directed_rx htarget hi.settled hinit hd hid hfrom h1 h2 heff
  · have hz := hi.numbered.later w k (by omega)
    cases heffect with
    | @send v e' m' ha' hid heff =>
      cases ha.symm.trans ha'
      subst hmsg
      exact directed_send htarget hi.settled hinit rfl hid hraw h1 h2 hz heff
    | tx hnot _ => exact absurd (by rw [hk]) (hnot w e m₀ ha)
    | rx ha' _ _ _ =>
      rw [ha] at ha'
      cases ha'

/-- **When a message for `b` arrives.**  In any run of a negotiated bridge, let `m` be a raw
message sent to the net and the eid of `b`, and let no copy of it be left in the queue of the
bridge endpoint or on the link.  Then `b` has been given it exactly once if and only if the bridge
endpoint on the sender's net has the eid of `b` and `m` does not come from the address of `b`. -/
theorem directed_once_iff {terminate : TypeId} {s₀ s : Link} {acts : List Act} {w : Which}
    {b : EpId} (hinit : Joined s₀) (htarget : Target s₀ w b)
    (hrun : run (step terminate) s₀ acts = some s) {k : ℕ} {m : Message}
    (hm : (s w).sent[k]? = some m) (hraw : m.isRaw = true)
    (hdstsid : m.dstsid = (s₀ w.other).net.sid)
    (hdsteid : m.dsteid = ((s₀ w.other).net.eps b).address.eid)
    (hqueue : (s w).queued ⟨w.num, k⟩ = 0) (hlink : (s w).flying ⟨w.num, k⟩ = 0) :
    (s w.other).times b ⟨w.num, k⟩ = 1 ↔ Reaches s₀ w b m := by
  have hsteady : Steady s₀ w b s := run_invariant
    (fun s a s' hi h => steady_trans hinit htarget (step_trans hi.numbered.tracked.distinct h) hi)
    hrun (hinit.steady w b)
  have hd := hsteady.directed k m hm hraw hdstsid hdsteid
  constructor
  · intro hone
    by_contra hnot
    have := hd.none hnot
    omega
  · intro hreach
    have := hd.one hreach
    omega

/-- The endpoint 0 of a net sends a message to the eid `0x10000` of the peer's net `dstsid`. -/
def directedMsg (dstsid : ID) : Message :=
  { Message.newFromraw ⟨0⟩ with dstsid := dstsid, dsteid := 0x10000 }

/-- From the net 875, whose bridge endpoint has the eid `0x10000` too, to the net 234. -/
theorem directed_once_early :
    ∃ s, run (step 9) earlyBridge [.send .connector 0 (directedMsg 234), .tx .connector,
        .rx .listener fun _ => 0] = some s ∧
      ((s .listener).times 0 ⟨1, 0⟩ = 1 ↔ Reaches earlyBridge .connector 0
        ((earlyBridge .connector).stamp .connector 0 (directedMsg 234))) := by
  have hend : (run (step 9) earlyBridge [.send .connector 0 (directedMsg 234), .tx .connector,
      .rx .listener fun _ => 0]).map (fun s => ((s .connector).sent[0]?,
        (s .connector).queued ⟨1, 0⟩, (s .connector).flying ⟨1, 0⟩)) =
      some (some ((earlyBridge .connector).stamp .connector 0 (directedMsg 234)), 0, 0) := by
    decide +kernel
  obtain ⟨s, hs, h⟩ := Option.map_eq_some_iff.mp hend
  simp only [Prod.mk.injEq] at h
  obtain ⟨hm, hq, hf⟩ := h
  have htarget : Target earlyBridge .connector 0 := by
    refine ⟨fun v => ?_, ?_, ?_, ?_, ?_, ?_⟩
    · cases v <;> decide
    all_goals decide
  exact ⟨s, hs, directed_once_iff earlyBridge_joined htarget hs hm rfl (by decide) (by decide) hq hf⟩

/-- **A message that is lost.**  From the net 234 to the endpoint `0x10000` of the net 875: the
bridge endpoint has the eid `0x10002`, so it is not given the message, and nothing is forwarded. -/
theorem directed_lost :
    Joined lateBridge ∧ Target lateBridge .listener 0 ∧
    (∀ e ∈ (lateBridge .connector).net.endpoints, e ≠ 0 →
      ((lateBridge .connector).net.eps e).address.eid ≠
        ((lateBridge .connector).net.eps 0).address.eid) ∧
    ∃ s m, run (step 9) lateBridge [.send .listener 0 (directedMsg 875), .tx .listener] = some s ∧
      (s .listener).sent[0]? = some m ∧ m.isRaw = true ∧
      m.dstsid = (lateBridge .connector).net.sid ∧
      m.dsteid = ((lateBridge .connector).net.eps 0).address.eid ∧
      ((s .listener).net.eps (s .listener).bridge).messages = [] ∧ (s .listener).out = [] ∧
      (s .connector).times 0 ⟨0, 0⟩ = 0 := by
  have hend : (run (step 9) lateBridge [.send .listener 0 (directedMsg 875), .tx .listener]).map
      (fun s => ((s .listener).sent[0]?, ((s .listener).net.eps (s .listener).bridge).messages,
        (s .listener).out, (s .connector).times 0 ⟨0, 0⟩)) =
      some (some ((lateBridge .listener).stamp .listener 0 (directedMsg 875)), [], [], 0) := by
    decide +kernel
  obtain ⟨s, hs, h⟩ := Option.map_eq_some_iff.mp hend
  simp only [Prod.mk.injEq] at h
  obtain ⟨hm, hq, hout, htimes⟩ := h
  have htarget : Target lateBridge .listener 0 := by
    refine ⟨fun v => ?_, ?_, ?_, ?_, ?_, ?_⟩
    · cases v <;> decide
    all_goals decide
  exact ⟨lateBridge_joined, htarget, by decide, s, _, hs, hm, rfl, by decide, by decide, hq, hout,
    htimes⟩

end Link

end WaterNet.Tcp
