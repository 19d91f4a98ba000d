import WaterNet.Traffic.Delivery

/-!
# Queue lengths and what is behind them: the pending limit and `hasmessages`

`give` tests the length of a queue and enters `waitmutex` only later, for the put; `hasmessages`
tests the length of a queue that may hold sync messages taken elsewhere.

* `step_moved` — what one step does to the queues and to the `valid` flags, read off the program point
  of the thread that moves;
* `Uncrowded`, `Reserved` — a `give` that passes the test finds a place that no other `give` past its
  test is about to take, so that the queue and those gives are together within the limit;
* `length_le_of_uncrowded` — **in a run of such tests the pending limit holds**; `exceeds_of_crowded`,
  where one test does not find a place, the threads can go on to exceed the limit;
* `Unspoilt`, `honest_of_unspoilt` — **when `hasmessages` predicts `recv`**: while no queue comes to end
  with a copy of a sync message that is taken; `dishonest_of_spoilt`, once one does, receives at that
  endpoint come to a state in which it does not.
-/

namespace WaterNet

namespace Endpoint.Internal

/-- `Endpoint::hasmessages`. -/
def hasmessages (ep : Internal) : Bool := if ep.messages.length > 0 then true else false

theorem hasmessages_iff_ne_nil (ep : Internal) : ep.hasmessages = true ↔ ep.messages ≠ [] := by
  unfold hasmessages
  rw [← List.length_pos_iff]
  by_cases h : 0 < ep.messages.length <;> simp [h]

end Endpoint.Internal

namespace Traffic

open WaterNet.Lib.Machine (run StepsMeet run_cons_eq_some run_append_eq_some run_invariant run_invariant_of)
open WaterNet.Lib.Pool (total total_set exists_of_total_pos forall_mem_set mem_set_of_ne)
open Endpoint (Internal)
open Endpoint.Internal (putMsg_messages fetchAdd_messages fetchSub_messages)

/-! ### What a step does to queues and flags -/

/-- The queue of `e` after a step of a thread at this point. -/
def Pc.queueAfter (e : EpId) (q : List Message) : Pc → List Message
  | .putting m e' _ _ => if e' = e then q ++ [m] else q
  | .recvGet e' => if e' = e then q.tail else q
  | _ => q

/-- The flags after a step of a thread at this point. -/
def Pc.validAfter (valid : ℕ → Bool) : Pc → ℕ → Bool
  | .recvEnd _ _ msg =>
    match msg.flag with
    | some f => Function.update valid f false
    | none => valid
  | _ => valid

namespace World

/-- The program point of the thread that moves. -/
def movedPc (w : World) : Act → Option Pc
  | .step t => w.threads[t]?.map Thread.pc
  | _ => none

/-- An endpoint that gets another queue, seen from the endpoint `e`. -/
theorem update_eps (w : World) {e₀ : EpId} {ep : Internal} {q : List Message}
    (hq : ep.messages = q) (hset : Internal.SameSettings (w.net.eps e₀) ep) (e : EpId) :
    (Function.update w.net.eps e₀ ep e).messages = (if e₀ = e then q else (w.net.eps e).messages) ∧
      Internal.SameSettings (w.net.eps e) (Function.update w.net.eps e₀ ep e) := by
  by_cases he : e₀ = e
  · subst he
    rw [Function.update_self, if_pos rfl]
    exact ⟨hq, hset⟩
  · rw [Function.update_of_ne (Ne.symm he), if_neg he]
    exact ⟨rfl, .refl _⟩

theorem advance_eps {w w' : World} {t : ℕ} {th : Thread} (h : w.advance t th = some w')
    (e : EpId) : (w'.net.eps e).messages = th.pc.queueAfter e (w.net.eps e).messages ∧
      Internal.SameSettings (w.net.eps e) (w'.net.eps e) := by
  have hself : ∀ e₀ : EpId, (if e₀ = e then (w.net.eps e₀).messages else (w.net.eps e).messages) =
      (w.net.eps e).messages := by
    intro e₀
    split
    · rename_i he
      rw [he]
    · rfl
  cases advance_cases h with
  | sendDup hpc | sendSnap hpc | sendDone hpc | accept hpc _ | refuse hpc _ | recvDup hpc =>
    rw [hpc]
    exact ⟨rfl, .refl _⟩
  | retRaw hpc _ | retSync hpc _ _ | discard hpc _ _ | retClone hpc _ =>
    rw [hpc]
    exact ⟨rfl, .refl _⟩
  | @put m e₀ todo ocnt hpc hfree =>
    obtain ⟨hq, hset⟩ := update_eps w (putMsg_messages (w.net.eps e₀) m) ⟨rfl, rfl, rfl⟩ e
    refine ⟨hq.trans ?_, hset⟩
    by_cases he : e₀ = e <;> simp [hpc, Pc.queueAfter, he]
  | @add m e₀ todo ocnt hpc =>
    obtain ⟨hq, hset⟩ := update_eps w
      (fetchAdd_messages (w.net.eps e₀) (m.cap w.net.store)) ⟨rfl, rfl, rfl⟩ e
    rw [hpc]
    exact ⟨hq.trans (hself e₀), hset⟩
  | @recvNone e₀ hpc hq₀ =>
    refine ⟨?_, .refl _⟩
    by_cases he : e₀ = e
    · subst he
      simp [hpc, Pc.queueAfter, hq₀]
    · simp [hpc, Pc.queueAfter, he]
  | @recvGet e₀ copy rest hpc hq₀ =>
    have hrest : ({ w.net.eps e₀ with messages := rest } : Internal).messages = rest := rfl
    obtain ⟨hq, hset⟩ := update_eps w hrest ⟨rfl, rfl, rfl⟩ e
    refine ⟨hq.trans ?_, hset⟩
    by_cases he : e₀ = e
    · subst he
      simp [hpc, Pc.queueAfter, hq₀]
    · simp [hpc, Pc.queueAfter, he]
  | @recvSub e₀ copy msg hpc =>
    obtain ⟨hq, hset⟩ := update_eps w
      (fetchSub_messages (w.net.eps e₀) (msg.cap w.net.store)) ⟨rfl, rfl, rfl⟩ e
    rw [hpc]
    exact ⟨hq.trans (hself e₀), hset⟩

theorem advance_valid {w w' : World} {t : ℕ} {th : Thread} (h : w.advance t th = some w') :
    w'.net.store.valid = th.pc.validAfter w.net.store.valid := by
  cases advance_cases h with
  | @sendDup m hpc =>
    rw [hpc]
    exact Net.copied_valid w.net m
  | sendSnap hpc | sendDone hpc | accept hpc _ | refuse hpc _ | put hpc _ | add hpc | recvNone hpc _
  | recvGet hpc _ | recvSub hpc =>
    rw [hpc]
    rfl
  | @recvDup e copy hpc =>
    rw [hpc]
    exact Message.dupIfok_valid copy w.net.store
  | @retRaw e copy msg hpc hraw =>
    obtain ⟨r, hr⟩ := Message.isRaw_iff.mp hraw
    simp [hpc, Pc.validAfter, Message.flag, hr, giveBack]
  | retSync hpc hs hv => simp [hpc, Pc.validAfter, Message.flag, hs, giveBack]
  | @discard e copy msg s hpc hs hv =>
    -- the flag it finds is clear already
    have hclear : Function.update w.net.store.valid s.valid false = w.net.store.valid :=
      Function.update_eq_self_iff.mpr hv.symm
    simp [hpc, Pc.validAfter, Message.flag, hs, hclear]
  | retClone hpc hc => simp [hpc, Pc.validAfter, Message.flag, hc, giveBack]

/-- User code clears no flag. -/
theorem userStep_valid {w w' : World} {op : UserOp} (h : w.userStep op = some w') {f : ℕ}
    (hf : w.net.store.valid f = true) : w'.net.store.valid f = true := by
  cases op with
  | newSync junk ty t =>
    cases h
    show Function.update w.net.store.valid w.net.store.nvalid true f = true
    by_cases hnew : f = w.net.store.nvalid
    · rw [hnew, Function.update_self]
    · rwa [Function.update_of_ne hnew]
  | newRaw | newClone | drop | setAddress | setLimits =>
    cases h
    exact hf
  | setHeader | fromPayload =>
    simp only [userStep, Option.map_eq_some_iff] at h
    obtain ⟨m, -, rfl⟩ := h
    exact hf
  | clone | write =>
    simp only [userStep, Option.bind_eq_bind, Option.bind_eq_some_iff] at h
    obtain ⟨m, -, b, -, h⟩ := h
    cases h
    exact hf
  | dup =>
    simp only [userStep, Option.bind_eq_bind, Option.bind_eq_some_iff] at h
    obtain ⟨m, -, ⟨m', st⟩, hdup, h⟩ := h
    cases h
    obtain ⟨-, -, rfl⟩ := Message.dup_eq_some hdup
    exact hf

/-- The start of a call and user code touch no queue and clear no flag. -/
structure Calm (w w' : World) : Prop where
  queues : ∀ e, (w'.net.eps e).messages = (w.net.eps e).messages
  valid : ∀ f, w.net.store.valid f = true → w'.net.store.valid f = true

/-- What the thread that moves makes of the queues and the flags. -/
structure Moved (w : World) (pc : Pc) (w' : World) : Prop where
  queues : ∀ e, (w'.net.eps e).messages = pc.queueAfter e (w.net.eps e).messages
  settings : ∀ e, Internal.SameSettings (w.net.eps e) (w'.net.eps e)
  valid : w'.net.store.valid = pc.validAfter w.net.store.valid

/-- **What one step does to queues and flags.** -/
theorem step_moved {w w' : World} {a : Act} (h : w.step a = some w') :
    (w.movedPc a = none ∧ Calm w w') ∨ ∃ pc, w.movedPc a = some pc ∧ Moved w pc w' := by
  cases a with
  | user op =>
    exact Or.inl ⟨rfl, (userStep_sameTraffic h).queues, fun f hf => userStep_valid h hf⟩
  | send t i how =>
    simp only [step, Option.bind_eq_bind, Option.bind_eq_some_iff] at h
    obtain ⟨th, -, m, -, h⟩ := h
    split at h
    · cases h
      exact Or.inl ⟨rfl, fun _ => rfl, fun _ hf => hf⟩
    · cases h
  | recv t e =>
    simp only [step, Option.bind_eq_bind, Option.bind_eq_some_iff] at h
    obtain ⟨th, -, h⟩ := h
    split at h
    · cases h
      exact Or.inl ⟨rfl, fun _ => rfl, fun _ hf => hf⟩
    · cases h
  | step t =>
    simp only [step, Option.bind_eq_bind, Option.bind_eq_some_iff] at h
    obtain ⟨th, ht, h⟩ := h
    refine Or.inr ⟨th.pc, ?_, fun e => (advance_eps h e).1, fun e => (advance_eps h e).2,
      advance_valid h⟩
    rw [movedPc, ht, Option.map_some]

theorem moved_of_movedPc {w w' : World} {a : Act} {pc : Pc} (h : w.step a = some w')
    (hpc : w.movedPc a = some pc) : Moved w pc w' := by
  rcases step_moved h with ⟨hnone, -⟩ | ⟨pc', hpc', hmoved⟩
  · rw [hnone] at hpc
    cases hpc
  · obtain rfl := Option.some.inj (hpc'.symm.trans hpc)
    exact hmoved

/-! ### The pending limit -/

/-- Only `setlimitpending` on an endpoint changes the limit of that endpoint. -/
theorem step_limitpending {w w' : World} {a : Act} (h : w.step a = some w') {e : EpId}
    (hset : ∀ pending memory, a ≠ .user (.setLimits e pending memory)) :
    (w'.net.eps e).limitpending = (w.net.eps e).limitpending := by
  rcases step_moved h with ⟨hnone, -⟩ | ⟨pc, -, hmoved⟩
  · cases a with
    | user op =>
      cases op with
      | setLimits e₀ pending memory =>
        have hne : e ≠ e₀ := fun he => hset pending memory (by rw [he])
        cases h
        exact congrArg Internal.limitpending (Function.update_of_ne hne _ _)
      | setAddress e₀ address =>
        cases h
        show (Function.update w.net.eps e₀ { w.net.eps e₀ with address := address } e).limitpending = _
        by_cases he : e = e₀
        · rw [he, Function.update_self]
        · rw [Function.update_of_ne he]
      | newRaw | newSync | newClone | drop =>
        cases h
        rfl
      | setHeader | fromPayload =>
        simp only [step, userStep, Option.map_eq_some_iff] at h
        obtain ⟨m, -, rfl⟩ := h
        rfl
      | clone | dup | write =>
        simp only [step, userStep, Option.bind_eq_bind, Option.bind_eq_some_iff] at h
        obtain ⟨m, -, b, -, h⟩ := h
        cases h
        rfl
    | send t i how =>
      simp only [step, Option.bind_eq_bind, Option.bind_eq_some_iff] at h
      obtain ⟨th, -, m, -, h⟩ := h
      split at h
      · cases h
        rfl
      · cases h
    | recv t e₀ =>
      simp only [step, Option.bind_eq_bind, Option.bind_eq_some_iff] at h
      obtain ⟨th, -, h⟩ := h
      split at h
      · cases h
        rfl
      · cases h
    | step t =>
      simp only [step, Option.bind_eq_bind, Option.bind_eq_some_iff] at h
      obtain ⟨th, ht, -⟩ := h
      rw [movedPc, ht] at hnone
      cases hnone
  · exact (hmoved.settings e).limitpending

end World

/-- A thread in a `give` to `e` that is past the test of the limit and has not put its message. -/
def Pc.past (e : EpId) : Pc → ℕ
  | .putting _ e' _ _ => if e' = e then 1 else 0
  | _ => 0

/-- A thread whose next step passes the tests of a `give` to `e`. -/
def Pc.passes (net : Net) (e : EpId) : Pc → Bool
  | .giving m (e' :: _) _ => e' = e && net.accepts m e
  | _ => false

namespace World

/-- How many gives to `e` are between their test of the limit and their put. -/
def past (w : World) (e : EpId) : ℕ := total (fun th => th.pc.past e) w.threads

/-- A `give` that passes the test of the limit finds a free place even if all gives that are past
their test put before it. -/
def Uncrowded (e : EpId) (w : World) (a : Act) : Prop :=
  ∀ pc ∈ w.movedPc a, pc.passes w.net e = true →
    (w.net.eps e).messages.length + w.past e < (w.net.eps e).limitpending.toNat

instance (e : EpId) (w : World) (a : Act) : Decidable (Uncrowded e w a) := by
  unfold Uncrowded
  infer_instance

/-- Who is between test and put after one step of a thread. -/
theorem advance_past {w w' : World} {t : ℕ} {th : Thread} (ht : w.threads[t]? = some th)
    (h : w.advance t th = some w') (e : EpId) :
    w'.past e + th.pc.past e = w.past e + (th.pc.passes w.net e).toNat := by
  have hset : ∀ th' : Thread, w'.threads = w.threads.set t th' →
      w'.past e + th.pc.past e = w.past e + th'.pc.past e := by
    intro th' hthreads
    unfold past
    rw [hthreads]
    exact total_set (fun th => th.pc.past e) ht th'
  cases advance_cases h with
  | @accept m e₀ todo ocnt hpc hacc =>
    rw [hset _ rfl, hpc]
    by_cases he : e₀ = e
    · subst he
      simp [Pc.past, Pc.passes, hacc]
    · simp [Pc.past, Pc.passes, he]
  | @refuse m e₀ todo ocnt hpc hacc =>
    rw [hset _ rfl, hpc]
    by_cases he : e₀ = e
    · subst he
      simp [Pc.past, Pc.passes, hacc]
    · simp [Pc.past, Pc.passes, he]
  | sendDup hpc | sendSnap hpc | sendDone hpc | put hpc _ | add hpc | recvNone hpc _ | recvGet hpc _
  | recvDup hpc | recvSub hpc =>
    rw [hset _ rfl, hpc]
    rfl
  | retRaw hpc _ | retSync hpc _ _ | discard hpc _ _ | retClone hpc _ =>
    rw [hset _ rfl, hpc]
    rfl

/-- **What one step does to the gives between test and put.** -/
theorem step_past {w w' : World} {a : Act} (h : w.step a = some w') (e : EpId) :
    (w.movedPc a = none ∧ w'.past e = w.past e) ∨ ∃ pc, w.movedPc a = some pc ∧
      w'.past e + pc.past e = w.past e + (pc.passes w.net e).toNat := by
  have hstart : ∀ {t : ℕ} {th th' : Thread}, w.threads[t]? = some th → th.pc = .idle →
      th'.pc.past e = 0 → total (fun th => th.pc.past e) (w.threads.set t th') = w.past e := by
    intro t th th' ht hpc hnone
    have hset : _ + th.pc.past e = w.past e + th'.pc.past e :=
      total_set (fun th => th.pc.past e) ht th'
    rw [hpc, hnone] at hset
    exact hset
  cases a with
  | user op =>
    refine Or.inl ⟨rfl, ?_⟩
    unfold past
    rw [(userStep_sameTraffic h).threads]
  | send t i how =>
    simp only [step, Option.bind_eq_bind, Option.bind_eq_some_iff, Option.ite_none_right_eq_some] at h
    obtain ⟨th, ht, m, -, hpc, h⟩ := h
    cases h
    exact Or.inl ⟨rfl, hstart ht hpc rfl⟩
  | recv t e₀ =>
    simp only [step, Option.bind_eq_bind, Option.bind_eq_some_iff, Option.ite_none_right_eq_some] at h
    obtain ⟨th, ht, hpc, h⟩ := h
    cases h
    exact Or.inl ⟨rfl, hstart ht hpc rfl⟩
  | step t =>
    simp only [step, Option.bind_eq_bind, Option.bind_eq_some_iff] at h
    obtain ⟨th, ht, h⟩ := h
    exact Or.inr ⟨th.pc, by rw [movedPc, ht, Option.map_some], advance_past ht h e⟩

theorem past_of_movedPc {w w' : World} {a : Act} {pc : Pc} (h : w.step a = some w')
    (hpc : w.movedPc a = some pc) (e : EpId) :
    w'.past e + pc.past e = w.past e + (pc.passes w.net e).toNat := by
  rcases step_past h e with ⟨hnone, -⟩ | ⟨pc', hpc', hpast⟩
  · rw [hnone] at hpc
    cases hpc
  · obtain rfl := Option.some.inj (hpc'.symm.trans hpc)
    exact hpast

/-- **The invariant of the race**: the messages in the queue and those that are past the test are
together within the limit. -/
structure Reserved (e : EpId) (limit : UInt64) (w : World) : Prop where
  limitpending : (w.net.eps e).limitpending = limit
  le : (w.net.eps e).messages.length + w.past e ≤ limit.toNat

theorem Reserved.step {e : EpId} {limit : UInt64} {w w' : World} {a : Act} (hi : Reserved e limit w)
    (hset : ∀ pending memory, a ≠ .user (.setLimits e pending memory)) (hroom : Uncrowded e w a)
    (h : w.step a = some w') : Reserved e limit w' := by
  refine ⟨(step_limitpending h hset).trans hi.limitpending, ?_⟩
  have hle := hi.le
  rcases step_moved h with ⟨hnone, hcalm⟩ | ⟨pc, hpc, hmoved⟩
  · rcases step_past h e with ⟨-, hpast⟩ | ⟨pc, hpc, -⟩
    · rw [hcalm.queues, hpast]
      exact hle
    · rw [hnone] at hpc
      cases hpc
  · have hpast := past_of_movedPc h hpc e
    have hfree := hroom pc hpc
    rw [hi.limitpending] at hfree
    rw [hmoved.queues]
    cases pc with
    | putting m e' todo ocnt =>
      -- the message comes into the place that was kept for it
      by_cases he : e' = e
      · simp only [Pc.past, Pc.passes, he, if_true, Bool.toNat_false] at hpast
        simp only [Pc.queueAfter, he, if_true, List.length_append, List.length_singleton]
        omega
      · simp only [Pc.past, Pc.passes, he, if_false, Bool.toNat_false] at hpast
        simp only [Pc.queueAfter, he, if_false]
        omega
    | giving m todo ocnt =>
      cases hpasses : Pc.passes w.net e (.giving m todo ocnt) with
      | true =>
        have hlt := hfree hpasses
        simp only [Pc.past, hpasses, Bool.toNat_true] at hpast
        simp only [Pc.queueAfter]
        omega
      | false =>
        simp only [Pc.past, hpasses, Bool.toNat_false] at hpast
        simp only [Pc.queueAfter]
        omega
    | recvGet e' =>
      simp only [Pc.past, Pc.passes, Bool.toNat_false] at hpast
      by_cases he : e' = e
      · simp only [Pc.queueAfter, he, if_true, List.length_tail]
        omega
      · simp only [Pc.queueAfter, he, if_false]
        omega
    | idle | sendDup | sendSnap | adding | recvDup | recvSub | recvEnd =>
      simp only [Pc.past, Pc.passes, Bool.toNat_false] at hpast
      simp only [Pc.queueAfter]
      omega

/-- **The race that the pending limit depends on.**  Set the limit of an endpoint whose queue is empty
while no more gives than the limit allows are past their test, and let any number of threads go on in
any order: if every `give` that passes the test finds the queue and the gives past their test together
below the limit, the queue is never longer than the limit. -/
theorem length_le_of_uncrowded {w w' : World} {acts : List Act} {e : EpId} {limit : UInt64}
    (hempty : (w.net.eps e).messages = []) (hlimit : (w.net.eps e).limitpending = limit)
    (hpast : w.past e ≤ limit.toNat)
    (hset : ∀ a ∈ acts, ∀ pending memory, a ≠ .user (.setLimits e pending memory))
    (hroom : StepsMeet step (Uncrowded e) w acts) (hrun : run step w acts = some w') :
    (w'.net.eps e).messages.length ≤ limit.toNat := by
  have hstart : Reserved e limit w := by
    refine ⟨hlimit, ?_⟩
    rw [hempty]
    simpa using hpast
  have hend := run_invariant_of (fun _ _ _ hi hok h => Reserved.step hi hok.2 hok.1 h)
    (hroom.and_forall hset) hrun hstart
  exact (Nat.le_add_right _ _).trans hend.le

/-- The mutex of `e` is held by a thread between its put and its addition. -/
def Locked (e : EpId) (w : World) : Prop :=
  w.waitmutex e = true → ∃ th ∈ w.threads, ∃ m todo ocnt, th.pc = .adding m e todo ocnt

theorem Locked.advance {e : EpId} {w w' : World} {t : ℕ} {th : Thread} (hi : Locked e w)
    (ht : w.threads[t]? = some th) (h : w.advance t th = some w') : Locked e w' := by
  have hkeep : (∀ m todo ocnt, th.pc ≠ .adding m e todo ocnt) → w'.waitmutex e = w.waitmutex e →
      (∃ th', w'.threads = w.threads.set t th') → Locked e w' := by
    rintro hnot hmutex ⟨th', hthreads⟩ hlocked
    obtain ⟨x, hx, m, todo, ocnt, hpc⟩ := hi (hmutex ▸ hlocked)
    have hne : x ≠ th := fun heq => hnot m todo ocnt (heq ▸ hpc)
    exact ⟨x, hthreads ▸ mem_set_of_ne ht hx hne, m, todo, ocnt, hpc⟩
  cases advance_cases h with
  | @put m e₀ todo ocnt hpc hfree =>
    by_cases he : e = e₀
    · subst he
      exact fun _ => ⟨_, List.mem_set (List.getElem?_eq_some_iff.mp ht).1 _, m, todo, ocnt, rfl⟩
    · exact hkeep (by simp [hpc]) (Function.update_of_ne he _ _) ⟨_, rfl⟩
  | @add m e₀ todo ocnt hpc =>
    by_cases he : e = e₀
    · subst he
      intro hlocked
      have hfree : Function.update w.waitmutex e false e = true := hlocked
      rw [Function.update_self] at hfree
      cases hfree
    · exact hkeep (by simp [hpc, Ne.symm he]) (Function.update_of_ne he _ _) ⟨_, rfl⟩
  | sendDup hpc | sendSnap hpc | sendDone hpc | accept hpc _ | refuse hpc _ | recvNone hpc _
  | recvGet hpc _ | recvDup hpc | recvSub hpc => exact hkeep (by simp [hpc]) rfl ⟨_, rfl⟩
  | retRaw hpc _ | retSync hpc _ _ | discard hpc _ _ | retClone hpc _ =>
    exact hkeep (by simp [hpc]) rfl ⟨_, rfl⟩

theorem userStep_waitmutex {w w' : World} {op : UserOp} (h : w.userStep op = some w') :
    w'.waitmutex = w.waitmutex := by
  cases op with
  | newRaw | newSync | newClone | drop | setAddress | setLimits =>
    cases h
    rfl
  | setHeader | fromPayload =>
    simp only [userStep, Option.map_eq_some_iff] at h
    obtain ⟨m, -, rfl⟩ := h
    rfl
  | clone | dup | write =>
    simp only [userStep, Option.bind_eq_bind, Option.bind_eq_some_iff] at h
    obtain ⟨m, -, b, -, h⟩ := h
    cases h
    rfl

theorem Locked.step {e : EpId} {w w' : World} {a : Act} (hi : Locked e w) (h : w.step a = some w') :
    Locked e w' := by
  have hstart : ∀ {t : ℕ} {th th' : Thread}, w.threads[t]? = some th → th.pc = .idle →
      Locked e (w.setPc t th') := by
    intro t th th' ht hpc hlocked
    obtain ⟨x, hx, m, todo, ocnt, hadding⟩ := hi hlocked
    have hne : x ≠ th := by
      rintro rfl
      rw [hpc] at hadding
      cases hadding
    exact ⟨x, mem_set_of_ne ht hx hne, m, todo, ocnt, hadding⟩
  cases a with
  | user op =>
    intro hlocked
    rw [(userStep_sameTraffic h).threads]
    exact hi ((userStep_waitmutex h) ▸ hlocked)
  | send t i how =>
    simp only [World.step, Option.bind_eq_bind, Option.bind_eq_some_iff,
      Option.ite_none_right_eq_some] at h
    obtain ⟨th, ht, m, -, hpc, h⟩ := h
    cases h
    exact hstart ht hpc
  | recv t e₀ =>
    simp only [World.step, Option.bind_eq_bind, Option.bind_eq_some_iff,
      Option.ite_none_right_eq_some] at h
    obtain ⟨th, ht, hpc, h⟩ := h
    cases h
    exact hstart ht hpc
  | step t =>
    simp only [World.step, Option.bind_eq_bind, Option.bind_eq_some_iff] at h
    obtain ⟨th, ht, h⟩ := h
    exact hi.advance ht h

/-- While nobody holds the mutex, the gives past their test can all put: each of them in turn puts
and adds. -/
theorem puts_all {e : EpId} {n : ℕ} {w : World} (hfree : w.waitmutex e = false) (hn : w.past e = n) :
    ∃ more v, (∀ b ∈ more, ∃ t, b = .step t) ∧ run step w more = some v ∧
      (v.net.eps e).messages.length = (w.net.eps e).messages.length + n := by
  induction n generalizing w with
  | zero => exact ⟨[], w, by simp, rfl, rfl⟩
  | succ n ih =>
    obtain ⟨th, hth, hpos⟩ := exists_of_total_pos (hn ▸ Nat.succ_pos n : 0 < w.past e)
    obtain ⟨t, ht⟩ := List.getElem?_of_mem hth
    obtain ⟨m, todo, ocnt, hpc⟩ : ∃ m todo ocnt, th.pc = .putting m e todo ocnt := by
      cases hpc : th.pc with
      | putting m e' todo ocnt =>
        rw [hpc, Pc.past] at hpos
        split at hpos
        · rename_i he
          exact ⟨m, todo, ocnt, he ▸ rfl⟩
        · exact absurd hpos (lt_irrefl 0)
      | _ =>
        rw [hpc] at hpos
        exact absurd hpos (lt_irrefl 0)
    obtain ⟨w₁, h₁, ht₁⟩ : ∃ w₁, w.advance t th = some w₁ ∧
        w₁.threads[t]? = some { th with pc := .adding m e todo ocnt } := by
      refine ⟨_, by simp only [advance, hpc, hfree, Message.giveClone_eq]; rfl, ?_⟩
      exact List.getElem?_set_self (List.getElem?_eq_some_iff.mp ht).1
    obtain ⟨w₂, h₂, hfree₂⟩ : ∃ w₂, w₁.advance t { th with pc := .adding m e todo ocnt } = some w₂ ∧
        w₂.waitmutex e = false := ⟨_, rfl, Function.update_self _ _ _⟩
    have hpast₁ : w₁.past e + 1 = w.past e := by simpa [hpc, Pc.past, Pc.passes] using advance_past ht h₁ e
    have hpast₂ : w₂.past e = w₁.past e := advance_past ht₁ h₂ e
    have hlen₁ : (w₁.net.eps e).messages.length = (w.net.eps e).messages.length + 1 := by
      rw [(advance_eps h₁ e).1]
      simp [hpc, Pc.queueAfter]
    have hlen₂ : (w₂.net.eps e).messages = (w₁.net.eps e).messages := (advance_eps h₂ e).1
    obtain ⟨more, v, hmore, hrun, hlen⟩ := ih hfree₂ (by omega)
    refine ⟨.step t :: .step t :: more, v, ?_, ?_, ?_⟩
    · rintro b (_ | ⟨_, _ | ⟨_, hb⟩⟩)
      · exact ⟨t, rfl⟩
      · exact ⟨t, rfl⟩
      · exact hmore b hb
    · refine run_cons_eq_some.mpr ⟨w₁, ?_, run_cons_eq_some.mpr ⟨w₂, ?_, hrun⟩⟩
      · simp only [World.step, ht, Option.bind_eq_bind, Option.bind_some, h₁]
      · simp only [World.step, ht₁, Option.bind_eq_bind, Option.bind_some, h₂]
    · rw [hlen, hlen₂, hlen₁]
      omega

/-- Where the queue and the gives past their test are together above a limit, the threads can go on so
that the queue exceeds it, with nothing but the steps of the sends that are in progress. -/
theorem exceeds_of_booked {w : World} {e : EpId} {limit : ℕ} (hlocked : Locked e w)
    (hmore : limit < (w.net.eps e).messages.length + w.past e) :
    ∃ more v, (∀ b ∈ more, ∃ t, b = .step t) ∧ run step w more = some v ∧
      limit < (v.net.eps e).messages.length := by
  by_cases hmutex : w.waitmutex e = true
  · -- the holder of the mutex comes first
    obtain ⟨th, hth, m, todo, ocnt, hpc⟩ := hlocked hmutex
    obtain ⟨t, ht⟩ := List.getElem?_of_mem hth
    obtain ⟨u, hu, hfree⟩ : ∃ u, w.advance t th = some u ∧ u.waitmutex e = false :=
      ⟨_, by simp only [advance, hpc]; rfl, Function.update_self _ _ _⟩
    have hpast : u.past e = w.past e := by
      simpa [hpc, Pc.past, Pc.passes] using advance_past ht hu e
    have hlen : (u.net.eps e).messages = (w.net.eps e).messages := by
      rw [(advance_eps hu e).1, hpc]
      rfl
    obtain ⟨more, v, hsteps, hrunv, hlenv⟩ := puts_all hfree rfl
    refine ⟨.step t :: more, v, ?_, ?_, ?_⟩
    · rintro b (_ | ⟨_, hb⟩)
      · exact ⟨t, rfl⟩
      · exact hsteps b hb
    · refine run_cons_eq_some.mpr ⟨u, ?_, hrunv⟩
      simp only [World.step, ht, Option.bind_eq_bind, Option.bind_some, hu]
    · rw [hlenv, hlen, hpast]
      exact hmore
  · obtain ⟨more, v, hsteps, hrunv, hlenv⟩ := puts_all (Bool.eq_false_iff.mpr hmutex) rfl
    exact ⟨more, v, hsteps, hrunv, hlenv ▸ hmore⟩

/-- **The condition cannot be done without.**  Where a `give` passes the test without a free place that
no other one is about to take, the sends in progress can go on so that the limit is exceeded. -/
theorem exceeds_of_crowded {w₀ w w' : World} {acts : List Act} {a : Act} {e : EpId} (hinit : Init w₀)
    (hrun : run step w₀ acts = some w) (h : w.step a = some w') (hcrowd : ¬Uncrowded e w a) :
    ∃ more v, (∀ b ∈ more, ∃ t, b = .step t) ∧ run step w' more = some v ∧
      (w.net.eps e).limitpending.toNat < (v.net.eps e).messages.length := by
  have hlocked : Locked e w' := by
    refine (run_invariant (fun _ _ _ hi h => Locked.step hi h) hrun fun hmutex => ?_).step h
    rw [hinit.mutex e] at hmutex
    cases hmutex
  -- after the test that was passed there are more gives than places
  obtain ⟨pc, hpc, hpasses, hfull⟩ : ∃ pc, w.movedPc a = some pc ∧ pc.passes w.net e = true ∧
      (w.net.eps e).limitpending.toNat ≤ (w.net.eps e).messages.length + w.past e := by
    simpa [Uncrowded] using hcrowd
  have hmore : (w.net.eps e).limitpending.toNat < (w'.net.eps e).messages.length + w'.past e := by
    obtain ⟨m, todo, ocnt, rfl⟩ : ∃ m todo ocnt, pc = .giving m todo ocnt := by
      cases pc <;> first | exact ⟨_, _, _, rfl⟩ | cases hpasses
    have hpast : w'.past e = w.past e + _ := past_of_movedPc h hpc e
    have hlen : (w'.net.eps e).messages = (w.net.eps e).messages := (moved_of_movedPc h hpc).queues e
    rw [hpasses, Bool.toNat_true] at hpast
    rw [hlen]
    omega
  exact exceeds_of_booked hlocked hmore

/-- The endpoint 1 of `pair` with a limit of one message. -/
def oneAtATime : World := pair.setEp 1 { pair.net.eps 1 with limitpending := 1 }

/-- The thread 0 sends two raw messages to the endpoint 1, which receives the first one before the
second is tested. -/
def politeScript : List Act :=
  [Act.user (.newRaw (fun _ => 7) 4), .user (.newRaw (fun _ => 7) 4), .send 0 0 (.send 0)] ++
    List.replicate 7 (Act.step 0) ++ [Act.recv 1 1] ++ List.replicate 4 (Act.step 1) ++
    [Act.send 0 0 (.send 0)] ++ List.replicate 7 (Act.step 0)

theorem length_le_of_uncrowded_polite :
    ∃ w', run step oneAtATime politeScript = some w' ∧ (w'.net.eps 1).messages.length = 1 ∧
      (w'.net.eps 1).messages.length ≤ 1 := by
  obtain ⟨w', hw', hlen⟩ : ∃ w', run step oneAtATime politeScript = some w' ∧
      (w'.net.eps 1).messages.length = 1 :=
    Option.map_eq_some_iff.mp (show (run step oneAtATime politeScript).map
      (fun w => (w.net.eps 1).messages.length) = some 1 by decide +kernel)
  have hempty : (oneAtATime.net.eps 1).messages = [] := by decide
  have hlimit : (oneAtATime.net.eps 1).limitpending = 1 := by decide
  exact ⟨w', hw', hlen, length_le_of_uncrowded hempty hlimit (by decide) (by simp [politeScript])
    (by decide +kernel) hw'⟩

/-- Both threads send a raw message, and both pass the test of the limit before either puts. -/
def crowdScript : List Act :=
  [Act.user (.newRaw (fun _ => 7) 4), .user (.newRaw (fun _ => 7) 4), .send 0 0 (.send 0),
    .send 1 0 (.send 0)] ++ List.replicate 4 (Act.step 0) ++ List.replicate 4 (Act.step 1) ++
    List.replicate 2 (Act.step 0) ++ [Act.step 1]

/-- **The limit does not hold**: with a limit of one message the queue holds two. -/
theorem not_length_le : ¬∀ (w w' : World) (acts : List Act) (e : EpId) (limit : UInt64),
    limit > 0 → (w.net.eps e).messages = [] → (w.net.eps e).limitpending = limit →
    (∀ a ∈ acts, ∀ pending memory, a ≠ .user (.setLimits e pending memory)) →
    run step w acts = some w' → (w'.net.eps e).messages.length ≤ limit.toNat := by
  intro h
  obtain ⟨w', hw', hlen⟩ : ∃ w', run step oneAtATime crowdScript = some w' ∧
      (w'.net.eps 1).messages.length = 2 :=
    Option.map_eq_some_iff.mp (show (run step oneAtATime crowdScript).map
      (fun w => (w.net.eps 1).messages.length) = some 2 by decide +kernel)
  have hle := h oneAtATime w' crowdScript 1 1 (by decide) (by decide) (by decide)
    (by simp [crowdScript]) hw'
  rw [hlen] at hle
  exact absurd hle (by decide)

/-! ### What `hasmessages` promises -/

/-- `hasmessages` of every endpoint is right: where it says so, the next `recv` returns a message. -/
def Honest (w : World) : Prop :=
  ∀ e, (w.net.eps e).hasmessages = true → ∃ msg, (w.net.recvAt e).1 = .ok msg

/-- A queue that is empty or has a receivable message. -/
def Live (q : List Message) (st : Store) : Prop := q ≠ [] → ∃ m ∈ q, m.receivable st = true

theorem honest_iff (w : World) : w.Honest ↔ ∀ e, Live (w.net.eps e).messages w.net.store :=
  forall_congr' fun e => imp_congr (Internal.hasmessages_iff_ne_nil _)
    (Internal.recv_ok_iff (w.net.eps e) w.net.store)

end World

/-- A step of a thread at this point leaves no copy of a taken sync message at the end of a queue: `give`
puts no such message, and when `recv` takes a sync message no queue of the net ends with another copy
of it. -/
def Pc.Spares (net : Net) : Pc → Prop
  | .putting m _ _ _ => m.receivable net.store = true
  | .recvEnd _ _ msg => ∀ f ∈ msg.flag, net.store.valid f = true →
    ∀ e ∈ net.endpoints, ∀ m ∈ (net.eps e).messages.getLast?, m.flag ≠ some f
  | _ => True

instance (net : Net) : DecidablePred (Pc.Spares net)
  | .putting m _ _ _ => inferInstanceAs (Decidable (m.receivable net.store = true))
  | .recvEnd _ _ msg => inferInstanceAs (Decidable (∀ f ∈ msg.flag, net.store.valid f = true →
    ∀ e ∈ net.endpoints, ∀ m ∈ (net.eps e).messages.getLast?, m.flag ≠ some f))
  | .idle | .sendDup _ | .sendSnap _ | .giving _ _ _ | .adding _ _ _ _ | .recvGet _ | .recvDup _ _
  | .recvSub _ _ _ => isTrue trivial

namespace World

def Unspoilt (w : World) (a : Act) : Prop := ∀ pc ∈ w.movedPc a, pc.Spares w.net

instance (w : World) (a : Act) : Decidable (Unspoilt w a) := by
  unfold Unspoilt
  infer_instance

/-- Only endpoints of the net are given messages. -/
structure Inside (w : World) : Prop where
  todo : ∀ th ∈ w.threads, ∀ m es, pendingSend w.net.endpoints th.pc = some (m, es) →
    es ⊆ w.net.endpoints
  queues : ∀ e ∉ w.net.endpoints, (w.net.eps e).messages = []

theorem inside_init {w : World} (h : Init w) : w.Inside := by
  refine ⟨fun th hth m es hes => ?_, fun e _ => h.queues e⟩
  rw [h.threads th hth] at hes
  cases hes

/-- A step of a thread that goes on with a part of what was still to be done. -/
theorem Inside.advance {w w' : World} {t : ℕ} {th : Thread} (hi : w.Inside)
    (ht : w.threads[t]? = some th) (h : w.advance t th = some w') : w'.Inside := by
  have hmem := List.mem_of_getElem? ht
  have hends : w'.net.endpoints = w.net.endpoints := by
    cases advance_cases h <;> rfl
  constructor
  · obtain ⟨th', hthreads, hpend⟩ : ∃ th', w'.threads = w.threads.set t th' ∧
        ∀ m es, pendingSend w.net.endpoints th'.pc = some (m, es) → es ⊆ w.net.endpoints := by
      cases advance_cases h with
      | sendDup hpc => exact ⟨_, rfl, fun m es hes => by cases hes; exact List.Subset.refl _⟩
      | sendSnap hpc => exact ⟨_, rfl, fun m es hes => by cases hes; exact List.Subset.refl _⟩
      | @accept m e todo ocnt hpc _ =>
        refine ⟨_, rfl, fun m es hes => ?_⟩
        cases hes
        exact hi.todo th hmem m _ (by rw [hpc]; rfl)
      | @refuse m e todo ocnt hpc _ =>
        refine ⟨_, rfl, fun m es hes => ?_⟩
        cases hes
        exact fun x hx => hi.todo th hmem m _ (by rw [hpc]; rfl) (List.mem_cons_of_mem e hx)
      | @put m e todo ocnt hpc _ =>
        refine ⟨_, rfl, fun m es hes => ?_⟩
        cases hes
        exact fun x hx => hi.todo th hmem m _ (by rw [hpc]; rfl) (List.mem_cons_of_mem e hx)
      | @add m e todo ocnt hpc =>
        refine ⟨_, rfl, fun m es hes => ?_⟩
        cases hes
        exact hi.todo th hmem m _ (by rw [hpc]; rfl)
      | sendDone | recvNone | recvGet | recvDup | recvSub => exact ⟨_, rfl, fun m es hes => by cases hes⟩
      | retRaw | retSync | discard | retClone => exact ⟨_, rfl, fun m es hes => by cases hes⟩
    rw [hthreads, hends]
    exact forall_mem_set hi.todo hpend
  · intro e he
    rw [hends] at he
    have hempty := hi.queues e he
    rw [(advance_eps h e).1, hempty]
    cases hpc : th.pc with
    | putting m e' todo ocnt =>
      -- the endpoint is on the net
      have hne : e' ≠ e := fun heq => he (heq ▸ hi.todo th hmem m (e' :: todo) (by rw [hpc]; rfl)
        List.mem_cons_self)
      simp [Pc.queueAfter, hne]
    | recvGet e' => simp [Pc.queueAfter]
    | idle | sendDup | sendSnap | giving | adding | recvDup | recvSub | recvEnd => rfl

theorem Inside.step {w w' : World} {a : Act} (hi : w.Inside) (h : w.step a = some w') :
    w'.Inside := by
  cases a with
  | user op =>
    have hsame := userStep_sameTraffic h
    constructor
    · rw [hsame.threads, hsame.endpoints]
      exact hi.todo
    · intro e he
      rw [hsame.queues]
      exact hi.queues e (hsame.endpoints ▸ he)
  | send t i how =>
    simp only [World.step, Option.bind_eq_bind, Option.bind_eq_some_iff, Option.ite_none_right_eq_some] at h
    obtain ⟨th, -, m, -, -, h⟩ := h
    cases h
    exact ⟨forall_mem_set hi.todo (fun m' es hes => by cases hes), hi.queues⟩
  | recv t e =>
    simp only [World.step, Option.bind_eq_bind, Option.bind_eq_some_iff, Option.ite_none_right_eq_some] at h
    obtain ⟨th, -, -, h⟩ := h
    cases h
    exact ⟨forall_mem_set hi.todo (fun m' es hes => by cases hes), hi.queues⟩
  | step t =>
    simp only [World.step, Option.bind_eq_bind, Option.bind_eq_some_iff] at h
    obtain ⟨th, ht, h⟩ := h
    exact hi.advance ht h

/-- Every queue that is not empty ends with a message that the `recv` which takes it out returns. -/
def EndsLive (w : World) : Prop :=
  ∀ e, ∀ m ∈ (w.net.eps e).messages.getLast?, m.receivable w.net.store = true

theorem EndsLive.honest {w : World} (h : w.EndsLive) : w.Honest := by
  rw [honest_iff]
  intro e hne
  obtain ⟨m, hm⟩ : ∃ m, (w.net.eps e).messages.getLast? = some m :=
    ⟨_, List.getLast?_eq_some_getLast hne⟩
  exact ⟨m, List.mem_of_getLast? hm, h e m hm⟩

/-- Clearing a flag spares the messages that do not carry it. -/
theorem receivable_update (m : Message) (st : Store) (f : ℕ) :
    m.receivable { st with valid := Function.update st.valid f false } = true ↔
      m.receivable st = true ∧ m.flag ≠ some f := by
  unfold Message.receivable
  cases hm : m.flag with
  | none => simp
  | some g =>
    by_cases hg : g = f
    · simp [hg]
    · simp [hg]

theorem mem_getLast?_of_tail {α : Type} {l : List α} {x : α} (h : x ∈ l.tail.getLast?) :
    x ∈ l.getLast? := by
  rw [List.getLast?_tail] at h
  split at h
  · cases h
  · exact h

/-- **A step that spares the ends of the queues keeps them live.** -/
theorem EndsLive.step {w w' : World} {a : Act} (hi : w.EndsLive) (hin : w.Inside)
    (hok : Unspoilt w a) (h : w.step a = some w') : w'.EndsLive := by
  intro e m hm
  rcases step_moved h with ⟨-, hcalm⟩ | ⟨pc, hpc, hmoved⟩
  · rw [hcalm.queues] at hm
    exact Message.receivable_of_le hcalm.valid (hi e m hm)
  · have hspares := hok pc hpc
    rw [hmoved.queues] at hm
    have hsame : pc.validAfter w.net.store.valid = w.net.store.valid →
        m.receivable w.net.store = true → m.receivable w'.net.store = true := fun hvalid =>
      Message.receivable_of_le fun f hf => by rw [hmoved.valid, hvalid]; exact hf
    cases pc with
    | putting m₀ e₀ todo ocnt =>
      refine hsame rfl ?_
      by_cases he : e₀ = e
      · rw [Pc.queueAfter, if_pos he, List.getLast?_concat] at hm
        cases hm
        exact hspares
      · rw [Pc.queueAfter, if_neg he] at hm
        exact hi e m hm
    | recvGet e₀ =>
      refine hsame rfl (hi e m ?_)
      by_cases he : e₀ = e
      · rw [Pc.queueAfter, if_pos he] at hm
        exact mem_getLast?_of_tail hm
      · rwa [Pc.queueAfter, if_neg he] at hm
    | recvEnd e₀ copy msg =>
      have hold := hi e m hm
      cases hflag : msg.flag with
      | none => exact hsame (by simp [Pc.validAfter, hflag]) hold
      | some f =>
        by_cases hv : w.net.store.valid f = true
        · -- the message is taken now, and `m` is no copy of it
          have hvalid : w'.net.store.valid = Function.update w.net.store.valid f false := by
            rw [hmoved.valid]
            simp [Pc.validAfter, hflag]
          have hmem : e ∈ w.net.endpoints := by
            by_contra hout
            have hempty : m ∈ (w.net.eps e).messages.getLast? := hm
            rw [hin.queues e hout] at hempty
            cases hempty
          have hrecv := (receivable_update m w.net.store f).mpr ⟨hold, hspares f hflag hv e hmem m hm⟩
          exact Message.receivable_of_le (fun g hg => by rw [hvalid]; exact hg) hrecv
        · refine hsame ?_ hold
          have hclear : w.net.store.valid f = false := Bool.eq_false_iff.mpr hv
          simp only [Pc.validAfter, hflag]
          exact Function.update_eq_self_iff.mpr hclear.symm
    | idle | sendDup | sendSnap | giving | adding | recvDup | recvSub => exact hsame rfl (hi e m hm)

/-- **When `hasmessages` predicts `recv`.**  From a net of empty queues on, in any interleaving of any
number of sends and receives in which no taken sync message is put into a queue, and no sync message is
taken while a queue ends with another copy of it: where `hasmessages` says so, the next `recv` returns a
message. -/
theorem honest_of_unspoilt {w₀ w : World} {acts : List Act} (hinit : Init w₀)
    (hok : StepsMeet step Unspoilt w₀ acts) (hrun : run step w₀ acts = some w) : w.Honest := by
  have hstart : w₀.EndsLive ∧ w₀.Inside := by
    refine ⟨fun e m hm => ?_, inside_init hinit⟩
    rw [hinit.queues e] at hm
    cases hm
  have hkeep : ∀ (v : World) (a : Act) (v' : World), v.EndsLive ∧ v.Inside → Unspoilt v a →
      v.step a = some v' → v'.EndsLive ∧ v'.Inside := by
    rintro v a v' ⟨hlive, hin⟩ hok h
    exact ⟨hlive.step hin hok h, hin.step h⟩
  exact (run_invariant_of hkeep hok hrun hstart).1.honest

/-- The queue of `e` ends with a sync message that was taken. -/
def Spoilt (w : World) (e : EpId) : Prop :=
  ∃ m f, (w.net.eps e).messages.getLast? = some m ∧ m.flag = some f ∧ w.net.store.valid f = false

/-- A taken message stays taken. -/
theorem advance_taken {w w' : World} {t : ℕ} {th : Thread} (h : w.advance t th = some w') {f : ℕ}
    (hf : w.net.store.valid f = false) : w'.net.store.valid f = false := by
  rw [advance_valid h]
  cases th.pc with
  | recvEnd e copy msg =>
    cases hflag : msg.flag with
    | none => simpa only [Pc.validAfter, hflag] using hf
    | some g =>
      simp only [Pc.validAfter, hflag]
      by_cases heq : f = g
      · rw [heq, Function.update_self]
      · rwa [Function.update_of_ne heq]
  | _ => exact hf

/-- The end of a pass of the loop of `recv`: the call is over, or the next pass begins. -/
theorem recvEnd_advance {w : World} {t : ℕ} {th : Thread} {e : EpId} {copy msg : Message}
    (ht : w.threads[t]? = some th) (hpc : th.pc = .recvEnd e copy msg) :
    ∃ w' th', w.advance t th = some w' ∧ w'.threads[t]? = some th' ∧
      (th'.pc = .idle ∨ th'.pc = .recvGet e) := by
  have hlt := (List.getElem?_eq_some_iff.mp ht).1
  obtain ⟨w', h⟩ : ∃ w', w.advance t th = some w' := by
    simp only [advance, hpc]
    cases hp : msg.payload with
    | raw r =>
      rw [Message.dup_raw (Message.isRaw_of_payload hp)]
      exact ⟨_, rfl⟩
    | sync s =>
      by_cases hv : w.net.store.valid s.valid = true
      · exact ⟨_, by simp only [Store.takeasvalid, if_pos hv]; rfl⟩
      · exact ⟨_, by simp only [Store.takeasvalid, if_neg hv]; rfl⟩
    | clone c => exact ⟨_, rfl⟩
  refine ⟨w', ?_⟩
  cases advance_cases h with
  | retRaw | retSync | retClone => exact ⟨_, h, List.getElem?_set_self hlt, Or.inl rfl⟩
  | discard hpc' =>
    rw [hpc] at hpc'
    cases hpc'
    exact ⟨_, h, List.getElem?_set_self hlt, Or.inr rfl⟩
  | sendDup hpc' | sendSnap hpc' | sendDone hpc' | accept hpc' | refuse hpc' | put hpc' | add hpc'
  | recvNone hpc' | recvGet hpc' | recvDup hpc' | recvSub hpc' =>
    rw [hpc] at hpc'
    cases hpc'

/-- One pass of the loop of `recv` takes a message out of the queue; it ends the call or goes on. -/
theorem recv_pass {w : World} {t : ℕ} {th : Thread} {e : EpId} {copy : Message} {rest : List Message}
    (ht : w.threads[t]? = some th) (hpc : th.pc = .recvGet e)
    (hq : (w.net.eps e).messages = copy :: rest) :
    ∃ w' th', run step w (List.replicate 4 (.step t)) = some w' ∧ w'.threads[t]? = some th' ∧
      (th'.pc = .idle ∨ th'.pc = .recvGet e) ∧ (w'.net.eps e).messages = rest ∧
      ∀ f, w.net.store.valid f = false → w'.net.store.valid f = false := by
  have hlt := (List.getElem?_eq_some_iff.mp ht).1
  obtain ⟨w₁, h₁, ht₁⟩ : ∃ w₁, w.advance t th = some w₁ ∧
      w₁.threads[t]? = some { th with pc := .recvDup e copy } :=
    ⟨_, by simp only [advance, hpc, hq]; rfl, List.getElem?_set_self hlt⟩
  have hlt₁ := (List.getElem?_eq_some_iff.mp ht₁).1
  obtain ⟨w₂, msg, h₂, ht₂⟩ : ∃ w₂ msg, w₁.advance t { th with pc := .recvDup e copy } = some w₂ ∧
      w₂.threads[t]? = some { th with pc := .recvSub e copy msg } :=
    ⟨_, _, rfl, List.getElem?_set_self hlt₁⟩
  have hlt₂ := (List.getElem?_eq_some_iff.mp ht₂).1
  obtain ⟨w₃, h₃, ht₃⟩ : ∃ w₃, w₂.advance t { th with pc := .recvSub e copy msg } = some w₃ ∧
      w₃.threads[t]? = some { th with pc := .recvEnd e copy msg } :=
    ⟨_, rfl, List.getElem?_set_self hlt₂⟩
  obtain ⟨w₄, th₄, h₄, ht₄, hpc₄⟩ := recvEnd_advance ht₃ rfl
  have hstep : ∀ {v v' : World} {x : Thread}, v.threads[t]? = some x → v.advance t x = some v' →
      v.step (.step t) = some v' := by
    intro v v' x hx hv
    simp only [step, hx, Option.bind_eq_bind, Option.bind_some, hv]
  refine ⟨w₄, th₄, ?_, ht₄, hpc₄, ?_, fun f hf => ?_⟩
  · refine run_cons_eq_some.mpr ⟨w₁, hstep ht h₁, run_cons_eq_some.mpr ⟨w₂, hstep ht₁ h₂, ?_⟩⟩
    exact run_cons_eq_some.mpr ⟨w₃, hstep ht₂ h₃, run_cons_eq_some.mpr ⟨w₄, hstep ht₃ h₄, rfl⟩⟩
  · calc (w₄.net.eps e).messages
        = (w₃.net.eps e).messages := (advance_eps h₄ e).1
      _ = (w₂.net.eps e).messages := (advance_eps h₃ e).1
      _ = (w₁.net.eps e).messages := (advance_eps h₂ e).1
      _ = rest := by rw [(advance_eps h₁ e).1, hpc, hq, Pc.queueAfter, if_pos rfl, List.tail_cons]
  · exact advance_taken h₄ (advance_taken h₃ (advance_taken h₂ (advance_taken h₁ hf)))

/-- Receives at an endpoint whose queue ends with a taken message come to where it is all that is
left, and `hasmessages` is wrong. -/
theorem Spoilt.reaches {w : World} {t : ℕ} {th : Thread} {e : EpId} (h : w.Spoilt e)
    (ht : w.threads[t]? = some th) (hpc : th.pc = .idle ∨ th.pc = .recvGet e) :
    ∃ more v, (∀ b ∈ more, b = .recv t e ∨ b = .step t) ∧ run step w more = some v ∧ ¬v.Honest := by
  generalize hn : (w.net.eps e).messages.length = n
  induction n generalizing w th with
  | zero =>
    obtain ⟨m, f, hlast, -⟩ := h
    rw [List.length_eq_zero_iff.mp hn] at hlast
    cases hlast
  | succ n ih =>
    obtain ⟨m, f, hlast, hflag, htaken⟩ := h
    by_cases hhonest : w.Honest
    · -- some message before the last is receivable, and a `recv` takes out the first one
      obtain ⟨copy, rest, hq⟩ := List.exists_cons_of_length_eq_add_one hn
      have hrest : rest ≠ [] := by
        rintro rfl
        rw [hq] at hlast
        obtain rfl : copy = m := Option.some.inj hlast
        obtain ⟨x, hx, hlive⟩ := (honest_iff w).mp hhonest e (by simp [hq])
        rw [hq, List.mem_singleton] at hx
        rw [hx, Message.receivable, hflag, Option.all_some, htaken] at hlive
        cases hlive
      obtain ⟨pre, w₁, th₁, hpre, hrun₁, ht₁, hpc₁, hnet⟩ : ∃ pre w₁ th₁,
          (∀ b ∈ pre, b = .recv t e ∨ b = .step t) ∧ run step w pre = some w₁ ∧
          w₁.threads[t]? = some th₁ ∧ th₁.pc = .recvGet e ∧ w₁.net = w.net := by
        rcases hpc with hidle | hget
        · refine ⟨[.recv t e], w.setPc t { th with pc := .recvGet e }, _, by simp, ?_,
            List.getElem?_set_self (List.getElem?_eq_some_iff.mp ht).1, rfl, rfl⟩
          simp [run, step, ht, hidle]
        · exact ⟨[], w, th, by simp, rfl, ht, hget, rfl⟩
      obtain ⟨w₂, th₂, hrun₂, ht₂, hpc₂, hq₂, hvalid⟩ := recv_pass ht₁ hpc₁ (hnet ▸ hq)
      have hspoilt : w₂.Spoilt e := by
        refine ⟨m, f, ?_, hflag, hvalid f (hnet ▸ htaken)⟩
        rw [hq₂, ← hlast, hq]
        exact (List.getLast?_cons_of_ne_nil hrest).symm
      have hlen : (w₂.net.eps e).messages.length = n := by
        rw [hq, List.length_cons] at hn
        rw [hq₂]
        omega
      obtain ⟨more, v, hmore, hrun, hwrong⟩ := ih hspoilt ht₂ hpc₂ hlen
      refine ⟨pre ++ List.replicate 4 (.step t) ++ more, v, fun b hb => ?_, ?_, hwrong⟩
      · rcases List.mem_append.mp hb with hb | hb
        · rcases List.mem_append.mp hb with hb | hb
          · exact hpre b hb
          · exact Or.inr (List.eq_of_mem_replicate hb)
        · exact hmore b hb
      · refine run_append_eq_some.mpr ⟨w₂, run_append_eq_some.mpr ⟨w₁, hrun₁, hrun₂⟩, hrun⟩
    · exact ⟨[], w, by simp, rfl, hhonest⟩

/-- **The condition cannot be done without.**  Once a step breaks it, an idle thread comes by receives
at one endpoint to a state in which `hasmessages` is wrong. -/
theorem dishonest_of_spoilt {w w' : World} {a : Act} (h : w.step a = some w') (hspoilt : ¬Unspoilt w a)
    {t : ℕ} {th : Thread} (ht : w'.threads[t]? = some th) (hidle : th.pc = .idle) :
    ∃ e more v, (∀ b ∈ more, b = .recv t e ∨ b = .step t) ∧ run step w' more = some v ∧
      ¬v.Honest := by
  obtain ⟨pc, hpc, hnot⟩ : ∃ pc, w.movedPc a = some pc ∧ ¬pc.Spares w.net := by
    simpa [Unspoilt] using hspoilt
  have hmoved := moved_of_movedPc h hpc
  obtain ⟨e, he⟩ : ∃ e, w'.Spoilt e := by
    cases pc with
    | putting m e todo ocnt =>
      cases hflag : m.flag with
      | none => exact absurd (by simp [Pc.Spares, Message.receivable, hflag]) hnot
      | some f =>
        have htaken : w.net.store.valid f = false := by
          simpa [Pc.Spares, Message.receivable, hflag] using hnot
        refine ⟨e, m, f, ?_, hflag, (congrFun hmoved.valid f).trans htaken⟩
        rw [hmoved.queues, Pc.queueAfter, if_pos rfl, List.getLast?_concat]
    | recvEnd e₀ copy msg =>
      obtain ⟨f, hf, hv, e, -, m, hm, hflag⟩ : ∃ f, msg.flag = some f ∧
          w.net.store.valid f = true ∧ ∃ e ∈ w.net.endpoints, ∃ m,
          (w.net.eps e).messages.getLast? = some m ∧ m.flag = some f := by
        simpa [Pc.Spares] using hnot
      refine ⟨e, m, f, (congrArg List.getLast? (hmoved.queues e)).trans hm, hflag, ?_⟩
      rw [hmoved.valid]
      simp [Pc.validAfter, hf]
    | _ => exact absurd trivial hnot
  obtain ⟨more, v, hmore, hrun, hwrong⟩ := he.reaches ht (Or.inl hidle)
  exact ⟨e, more, v, hmore, hrun, hwrong⟩

/-- The endpoint 0 broadcasts a sync and a raw message, and the endpoint 1 receives the first. -/
def soundScript : List Act :=
  [Act.user (.newSync (fun _ => 0) 5 [1]), .user (.newRaw (fun _ => 7) 4), .send 0 0 (.send 0)] ++
    List.replicate 7 (Act.step 0) ++ [Act.send 0 0 (.send 0)] ++ List.replicate 7 (Act.step 0) ++
    [Act.recv 1 1] ++ List.replicate 4 (Act.step 1)

theorem honest_of_unspoilt_sound : ∃ w, run step pair soundScript = some w ∧
    (w.net.eps 1).hasmessages = true ∧ w.net.store.valid 0 = false ∧ w.Honest := by
  obtain ⟨w, hw, hobs⟩ := Option.map_eq_some_iff.mp (show (run step pair soundScript).map
    (fun w => ((w.net.eps 1).hasmessages, w.net.store.valid 0)) = some (true, false) by decide +kernel)
  obtain ⟨hhas, htaken⟩ := Prod.mk.inj hobs
  exact ⟨w, hw, hhas, htaken, honest_of_unspoilt pair_init (by decide +kernel) hw⟩

/-- The thread 0 broadcasts a sync message as nobody, and the endpoint 0 receives it. -/
def takenScript : List Act :=
  [Act.user (.newSync (fun _ => 0) 5 [1]), .send 0 0 .sendx] ++ List.replicate 9 (Act.step 0) ++
    [Act.recv 0 0] ++ List.replicate 4 (Act.step 0)

/-- **`hasmessages` can be wrong**: the endpoint 1 still has its copy of the message. -/
theorem not_honest_run : ¬∀ (w₀ w : World) (acts : List Act), Init w₀ →
    run step w₀ acts = some w → w.Honest := by
  intro h
  obtain ⟨w, hw, hres⟩ := Option.map_eq_some_iff.mp
    (show (run step pair takenScript).map (fun w => ((w.net.eps 1).hasmessages,
      (w.net.recvAt 1).1.toOption)) = some (true, none) by decide +kernel)
  obtain ⟨hhas, hnone⟩ := Prod.mk.inj hres
  obtain ⟨msg, hok⟩ := h pair w takenScript pair_init hw 1 hhas
  rw [hok] at hnone
  cases hnone

end World

end Traffic

end WaterNet
