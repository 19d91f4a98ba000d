import WaterNet.Tcp.Copies

/-!
# Broadcasts over a bridge

A broadcast that `thread_rx` puts on the net is offered to the bridge endpoint too.  That endpoint
refuses it when its address is the message's source or its limits are reached; otherwise it takes
the message back to the net it came from.  While every broadcast that is read is refused there,
each endpoint is given it at most once and it crosses the link at most once.

* `Once`, `Zero` — what the copies of a broadcast, and of a send still to come, amount to;
* `broadcast_once` — the invariant over all runs in which the bridge endpoints refuse;
* `broadcast_bounces` — a run in which one does not, and an endpoint is given the message twice.
-/

namespace WaterNet.Tcp

open Endpoint (Internal)
open WaterNet.Lib.Machine (run StepsMeet run_invariant_of)

namespace Link

/-- A bridge between two nets with different sids, negotiated in both directions, before anything
was sent.  The ordinary endpoints are arbitrary. -/
structure Joined (s : Link) : Prop where
  sids : (s .listener).net.sid ≠ (s .connector).net.sid
  distinct : ∀ w, (s w).net.endpoints.Nodup
  member : ∀ w, (s w).bridge ∈ (s w).net.endpoints
  greeted : ∀ w, (s w).greeted = true
  adopted : ∀ w, ((s w).net.eps (s w).bridge).address.sid = (s w.other).net.sid
  queue : ∀ w, ((s w).net.eps (s w).bridge).messages = []
  out : ∀ w, (s w).out = []
  sent : ∀ w, (s w).sent = []
  given : ∀ w, (s w).given = []
  written : ∀ w, (s w).written = []

/-- The broadcast `id` of the side `w`: given once at most to each endpoint there, and on the other
side no more often than its frames were read; and it has not come back. -/
structure Once (s : Link) (w : Which) (id : SendId) : Prop where
  home : ∀ e, (s w).times e id ≤ 1
  away : ∀ e, (s w.other).times e id + (s w).flying id ≤ (s w).crossed id
  out : (s w).queued id + (s w).crossed id ≤ 1
  back : (s w.other).queued id = 0 ∧ (s w.other).flying id = 0 ∧ (s w.other).crossed id = 0

theorem Joined.zero {s : Link} (h : Joined s) (id : SendId) : Zero s id := by
  intro v
  simp [Side.queued, Side.flying, Side.crossed, Side.times, h.queue v, h.out v, h.written v, h.given v]

theorem Joined.numbered {s : Link} (h : Joined s) : Numbered s where
  tracked :=
    { distinct := h.distinct
      raw := fun w x hx => by simp [h.out w] at hx
      queued := fun w m hm => by simp [h.queue w] at hm
      out := fun w x hx => by simp [h.out w] at hx }
  later _ _ _ := h.zero _

/-- A step in which no bridge endpoint takes a copy of the broadcast keeps it within its bounds. -/
theorem Once.effect {s s' : Link} {id : SendId} {w h : Which} {moved read : ℕ} {gets : EpId → ℕ}
    (ho : Once s h id) (he : Effect s s' id w 0 moved read gets) (hgets : ∀ e, gets e ≤ read) :
    Once s' h id := by
  obtain ⟨hhome, haway, hout, hback⟩ := ho
  obtain ⟨e1, e2, e3, e4, e5, e6, e7, e8⟩ := he
  rcases Which.eq_or_eq_other h w with rfl | rfl
  · -- a step at home reads nothing, as nothing comes back
    refine ⟨fun e => ?_, fun e => ?_, by omega, by omega⟩
    · have := hgets e
      have := hhome e
      rw [e4 e]
      omega
    · have := haway e
      rw [e8 e]
      omega
  · -- on the other side every copy given was a frame on the link
    rw [Which.other_other] at e5 e6 e7 e8
    refine ⟨fun e => ?_, fun e => ?_, by omega, by omega⟩
    · rw [e8 e]
      exact hhome e
    · have := hgets e
      have := haway e
      rw [e4 e]
      omega

/-- The first step of a send, from its net to the queue of the bridge endpoint. -/
theorem Once.of_zero {s s' : Link} {id : SendId} {w : Which} {taken : ℕ} {gets : EpId → ℕ}
    (hz : Zero s id) (he : Effect s s' id w taken 0 0 gets) (htaken : taken ≤ 1)
    (hgets : ∀ e, gets e ≤ 1) : Once s' w id := by
  obtain ⟨hq, hf, hc, ht⟩ := hz w
  obtain ⟨pq, pf, pc, pt⟩ := hz w.other
  obtain ⟨e1, e2, e3, e4, e5, e6, e7, e8⟩ := he
  refine ⟨fun e => ?_, fun e => ?_, by omega, by omega⟩
  · rw [e4 e, ht e]
    have := hgets e
    omega
  · rw [e8 e, pt e]
    omega

/-! ### Refusing at the bridge -/

/-- The condition on a step: a broadcast about to be read has the address of the bridge endpoint as
its source, or finds that endpoint at its limits. -/
def Refused (s : Link) : Act → Prop
  | .rx w _ => ∀ x ∈ (s w.other).out.head?, x.1.dstsid = 0 → x.1.dsteid = 0 →
      (x.1.srcsid = ((s w).net.eps (s w).bridge).address.sid ∧
        x.1.srceid = ((s w).net.eps (s w).bridge).address.eid) ∨
      ((s w).net.eps (s w).bridge).underLimits = false
  | _ => True

instance (s : Link) (a : Act) : Decidable (Refused s a) := by
  unfold Refused
  split <;> infer_instance

theorem accepts_of_refused {sd : Side} {e : EpId} {x : Carried}
    (h : (x.1.srcsid = (sd.net.eps e).address.sid ∧ x.1.srceid = (sd.net.eps e).address.eid) ∨
      (sd.net.eps e).underLimits = false) : sd.net.accepts (readBack sd x) e = false := by
  rcases h with ⟨hsid, heid⟩ | hlim
  · simp [Net.accepts, Internal.routes, readBack, received, Message.newFromraw, Message.ofPayload,
      hsid, heid]
  · simp [Net.accepts, hlim]

/-! ### The invariant -/

structure Calm (s : Link) : Prop where
  numbered : Numbered s
  broadcast : ∀ w k m, (s w).sent[k]? = some m → m.dstsid = 0 → m.dsteid = 0 → Once s w ⟨w.num, k⟩

theorem Joined.calm {s : Link} (h : Joined s) : Calm s where
  numbered := h.numbered
  broadcast w k m hm := by simp [h.sent w] at hm

theorem calm_trans {s s' : Link} {a : Act} (ht : Trans s a s') (hok : Refused s a) (hc : Calm s) :
    Calm s' := by
  refine ⟨numbered_trans ht hc.numbered, fun w k m hm h1 h2 => ?_⟩
  have heffect := trans_stepEffect ht hc.numbered.tracked ⟨w.num, k⟩
  rcases sent_getElem? ht hm with hold | ⟨e, m₀, ha, hk, -⟩
  · have honce := hc.broadcast w k m hold h1 h2
    cases heffect with
    | send _ hid _ =>
      obtain ⟨rfl, rfl⟩ := num_inj hid
      simp at hold
    | tx _ heff => exact honce.effect heff fun _ => Nat.zero_le _
    | @rx v junk x ha hx hid heff =>
      -- the frame has the addresses of the broadcast it is a copy of, so it is refused
      obtain ⟨v', m', hthread, hm', -, -, hdstsid, hdsteid⟩ :=
        hc.numbered.tracked.out v.other x (List.mem_of_head? hx)
      rw [hid] at hthread hm'
      obtain rfl := Which.num_injective hthread
      cases hold.symm.trans hm'
      rw [ha] at hok
      have hacc := accepts_of_refused (hok x hx (hdstsid.trans h1) (hdsteid.trans h2))
      have htaken : share (s v) (readBack (s v) x) ⟨w.num, k⟩ (s v).bridge = 0 := by
        rw [share, if_neg]
        rintro ⟨-, -, h⟩
        rw [hacc] at h
        cases h
      rw [htaken] at heff
      exact honce.effect heff (share_le_one _ _ _)
  · subst hk
    have hz := hc.numbered.later w _ (Nat.le_refl _)
    cases heffect with
    | @send v e' m' ha' hid heff =>
      obtain ⟨rfl, -⟩ := num_inj hid
      refine Once.of_zero hz heff ?_ (share_le_one _ _ _)
      split
      · exact share_le_one _ _ _ _
      · exact Nat.zero_le _
    | tx hnot _ => exact absurd rfl (hnot w e m₀ ha)
    | rx ha' _ _ _ =>
      rw [ha] at ha'
      cases ha'

/-- **A broadcast is delivered at most once** in every run in which each broadcast that a
`thread_rx` reads is refused by the bridge endpoint of its own net: no endpoint of either net is
given it twice, and one frame at most is written for it on both sides together. -/
theorem broadcast_once {terminate : TypeId} {s₀ s : Link} {acts : List Act} (hinit : Joined s₀)
    (hmeet : StepsMeet (step terminate) Refused s₀ acts)
    (hrun : run (step terminate) s₀ acts = some s) {w : Which} {k : ℕ} {m : Message}
    (hm : (s w).sent[k]? = some m) (hdstsid : m.dstsid = 0) (hdsteid : m.dsteid = 0) :
    (∀ v e, (s v).times e ⟨w.num, k⟩ ≤ 1) ∧
      (s .listener).crossed ⟨w.num, k⟩ + (s .connector).crossed ⟨w.num, k⟩ ≤ 1 := by
  have hcalm : Calm s := run_invariant_of
    (fun s a s' hc hok h => calm_trans (step_trans hc.numbered.tracked.distinct h) hok hc) hmeet hrun hinit.calm
  obtain ⟨hhome, haway, hout, -, -, hback⟩ := hcalm.broadcast w k m hm hdstsid hdsteid
  refine ⟨fun v e => ?_, ?_⟩
  · rcases Which.eq_or_eq_other w v with rfl | rfl
    · exact hhome e
    · have := haway e
      omega
  · cases w with
    | listener =>
      change (s .connector).crossed _ = 0 at hback
      omega
    | connector =>
      change (s .listener).crossed _ = 0 at hback
      omega

/-! ### Two concrete bridges -/

/-- A side of a negotiated link, whose bridge endpoint `b` has taken the sid of the peer. -/
def joinedSide (net : Net) (b : EpId) (sid : ID) : Side :=
  { net := net.setsid b sid
    bridge := b, greeted := true, out := [], txDone := false, rxDone := false
    sent := [], given := [], written := [] }

/-- A net on which one buffer of four bytes was made. -/
def netWithBuf (sid : ID) : Net :=
  { Net.new sid with store := (Store.empty.newBuf ⟨4, 4, [1, 2, 3, 4]⟩).2 }

/-- Two endpoints on the net 234 and one on the net 875, all older than the bridge. -/
def lateBridge : Link
  | .listener => joinedSide (bridgeEndpoint (((netWithBuf 234).newEndpoint 0).newEndpoint 1) 2) 2 875
  | .connector => joinedSide (bridgeEndpoint ((netWithBuf 875).newEndpoint 0) 1) 1 234

/-- The same nets, with the bridge endpoint of the net 875 older than its other endpoint. -/
def earlyBridge : Link
  | .listener => joinedSide (bridgeEndpoint (((netWithBuf 234).newEndpoint 0).newEndpoint 1) 2) 2 875
  | .connector => joinedSide ((bridgeEndpoint (netWithBuf 875) 1).newEndpoint 0) 1 234

theorem lateBridge_joined : Joined lateBridge where
  sids := by decide
  distinct w := by cases w <;> decide
  member w := by cases w <;> decide
  greeted w := by cases w <;> rfl
  adopted w := by cases w <;> decide
  queue w := by cases w <;> rfl
  out w := by cases w <;> rfl
  sent w := by cases w <;> rfl
  given w := by cases w <;> rfl
  written w := by cases w <;> rfl

theorem earlyBridge_joined : Joined earlyBridge where
  sids := by decide
  distinct w := by cases w <;> decide
  member w := by cases w <;> decide
  greeted w := by cases w <;> rfl
  adopted w := by cases w <;> decide
  queue w := by cases w <;> rfl
  out w := by cases w <;> rfl
  sent w := by cases w <;> rfl
  given w := by cases w <;> rfl
  written w := by cases w <;> rfl

/-- The endpoint 0 of the net 234 broadcasts, and the message goes over the link. -/
def broadcastScript : List Act :=
  [.send .listener 0 (Message.newFromraw ⟨0⟩), .tx .listener, .rx .connector fun _ => 0]

/-- On the net 875 the bridge endpoint happens to have the eid of the sender, and refuses. -/
theorem broadcast_once_early :
    ∃ s, run (step 9) earlyBridge broadcastScript = some s ∧
      (∀ v e, (s v).times e ⟨0, 0⟩ ≤ 1) ∧
      (s .listener).crossed ⟨0, 0⟩ + (s .connector).crossed ⟨0, 0⟩ ≤ 1 := by
  have hsent : (run (step 9) earlyBridge broadcastScript).map (fun s => (s .listener).sent[0]?) =
      some (some ((earlyBridge .listener).stamp .listener 0 (Message.newFromraw ⟨0⟩))) := by
    decide +kernel
  obtain ⟨s, hs, hm⟩ := Option.map_eq_some_iff.mp hsent
  exact ⟨s, hs, broadcast_once earlyBridge_joined (by decide +kernel) hs hm rfl rfl⟩

/-- **A broadcast that bounces.**  The bridge endpoint of the net 875 takes the message it has just
put on that net, the message goes back, and the endpoint 1 of the net 234 is given it again. -/
theorem broadcast_bounces :
    Joined lateBridge ∧
    ∃ s m, run (step 9) lateBridge (broadcastScript ++ [.tx .connector, .rx .listener fun _ => 0]) =
        some s ∧ (s .listener).sent[0]? = some m ∧ m.isRaw = true ∧ m.dstsid = 0 ∧ m.dsteid = 0 ∧
      1 ≠ (s .listener).bridge ∧ (s .listener).times 1 ⟨0, 0⟩ = 2 ∧
      (s .listener).crossed ⟨0, 0⟩ + (s .connector).crossed ⟨0, 0⟩ = 2 := by
  refine ⟨lateBridge_joined, ?_⟩
  have hend : (run (step 9) lateBridge
      (broadcastScript ++ [.tx .connector, .rx .listener fun _ => 0])).map (fun s =>
        ((s .listener).sent[0]?, (s .listener).bridge, (s .listener).times 1 ⟨0, 0⟩,
          (s .listener).crossed ⟨0, 0⟩ + (s .connector).crossed ⟨0, 0⟩)) =
      some (some ((lateBridge .listener).stamp .listener 0 (Message.newFromraw ⟨0⟩)), 2, 2, 2) := by
    decide +kernel
  obtain ⟨s, hs, h⟩ := Option.map_eq_some_iff.mp hend
  simp only [Prod.mk.injEq] at h
  obtain ⟨hm, hb, htimes, hcrossed⟩ := h
  exact ⟨s, _, hs, hm, rfl, rfl, rfl, by rw [hb]; decide, htimes, hcrossed⟩

end Link

end WaterNet.Tcp
