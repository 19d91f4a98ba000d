import Mathlib.Data.List.Count
import WaterNet.Lib.Pool
import WaterNet.Lifetime.Account
import WaterNet.Lifetime.Step

/-!
# Every run keeps the account of every endpoint

Each step of the machine is, for each endpoint, a step of its account: that is what the locking is
for.

* `Pc.roles` — what a thread has to do with which endpoint at each program point;
* `Locked` — whoever is in a critical section holds the net's mutex, and the list that a send
  clones does not change under it;
* `account_step` — **the simulation**, one step and one endpoint at a time;
* `lifetime` — **the lifetime protocol**: reachable endpoints stay listed, `drop_endpoint` is
  entered at most once and never from within, and at rest the counter counts the handles.
-/

namespace WaterNet.Lifetime

open Lib.Machine Lib.Pool

/-! ### Roles -/

/-- What a thread at the program point has to do with which endpoint. -/
def Pc.roles : Pc → List (Role × EpId)
  | .newClone e => [(.newborn, e)]
  | .newPush e => [(.twin, e)]
  | .newUnlock e => [(.owing, e)]
  | .cloneAdd e => [(.borrowing, e)]
  | .cloneDone e => [(.borrowing, e), (.owing, e)]
  | .dropSub nested e rest => (.dropping nested, e) :: rest.map (Role.dropping false, ·)
  | .dropCas nested e rest => (.casing nested, e) :: rest.map (Role.dropping false, ·)
  | .dropLock nested e rest => (.entered nested, e) :: rest.map (Role.dropping false, ·)
  | .dropFind e rest => (.entered false, e) :: rest.map (Role.dropping false, ·)
  | .dropUnlock rest => rest.map (Role.dropping false, ·)
  | .sendClone _ snap => snap.map (Role.dropping false, ·)
  | .sendGive snap => snap.map (Role.dropping false, ·)
  | .panicked e rest => (.panicked, e) :: rest.map (Role.dropping false, ·)
  | _ => []

@[simp] theorem roles_dropAll (rest : List EpId) :
    (Pc.dropAll rest).roles = rest.map (Role.dropping false, ·) := by
  cases rest <;> rfl

@[simp] theorem roles_afterDrop (nested : Bool) (rest : List EpId) :
    (Pc.afterDrop nested rest).roles = rest.map (Role.dropping false, ·) := by
  cases nested
  · exact roles_dropAll rest
  · rfl

/-- How many threads play the role for the endpoint. -/
def plays (threads : List Pc) (e : EpId) (r : Role) : ℕ :=
  total (fun pc => pc.roles.count (r, e)) threads

theorem count_map_pair (e x : EpId) (r : Role) (rs : List Role) :
    (rs.map (·, e)).count (r, x) = if x = e then rs.count r else 0 := by
  by_cases hx : x = e
  · subst hx
    rw [if_pos rfl]
    exact List.count_map_of_injective rs (·, x) (fun a b h => (Prod.mk.inj h).1) r
  · rw [if_neg hx, List.count_eq_zero]
    intro hmem
    obtain ⟨s, -, hs⟩ := List.mem_map.mp hmem
    exact hx (Prod.mk.inj hs).2.symm

/-- A thread that goes from `pc` to `pc'` leaves the roles `out` for the endpoint `e`, takes up the
roles `into` for it, and keeps all its other roles. -/
def Changes (pc pc' : Pc) (e : EpId) (out into : List Role) : Prop :=
  ∃ others, pc.roles.Perm (out.map (·, e) ++ others) ∧ pc'.roles.Perm (into.map (·, e) ++ others)

section moves

variable {threads : List Pc} {t : ℕ} {pc pc' : Pc} {e : EpId} {out into : List Role}

/-- A step of one thread, seen from any endpoint. -/
theorem moves_set (ht : threads[t]? = some pc) (h : Changes pc pc' e out into) (x : EpId) :
    Moves (plays threads x) (plays (threads.set t pc') x)
      (if x = e then out else []) (if x = e then into else []) := by
  obtain ⟨others, hout, hinto⟩ := h
  intro r
  have hset := total_set (fun pc => pc.roles.count (r, x)) ht pc'
  simp only [hout.count_eq, hinto.count_eq, List.count_append, count_map_pair] at hset
  unfold plays
  by_cases hx : x = e
  · simp only [hx, if_pos] at hset ⊢
    omega
  · simp only [hx, if_false, List.count_nil] at hset ⊢
    omega

theorem moves_self (ht : threads[t]? = some pc) (h : Changes pc pc' e out into) :
    Moves (plays threads e) (plays (threads.set t pc') e) out into := by
  simpa using moves_set ht h e

theorem moves_other (ht : threads[t]? = some pc) (h : Changes pc pc' e out into) {x : EpId}
    (hx : x ≠ e) : Moves (plays threads x) (plays (threads.set t pc') x) [] [] := by
  simpa [hx] using moves_set ht h x

theorem plays_pos {r : Role} (ht : threads[t]? = some pc) (h : (r, e) ∈ pc.roles) :
    0 < plays threads e r :=
  Nat.lt_of_lt_of_le (List.count_pos_iff.mpr h)
    (le_total (fun pc => pc.roles.count (r, e)) (List.mem_of_getElem? ht))

end moves

/-- The thread is in a critical section of the net. -/
def Pc.locks : Pc → Bool
  | .newMake _ | .newClone _ | .newPush _ | .newUnlock _ => true
  | .dropSub nested _ _ | .dropCas nested _ _ | .dropLock nested _ _ => nested
  | .dropFind _ _ | .dropUnlock _ | .sendClone _ _ => true
  | _ => false

theorem locks_dropAll (rest : List EpId) : (Pc.dropAll rest).locks = false := by
  cases rest <;> rfl

theorem locks_afterDrop (nested : Bool) (rest : List EpId) :
    (Pc.afterDrop nested rest).locks = nested := by
  cases nested
  · exact locks_dropAll rest
  · rfl

theorem dropAll_ne_sendClone {rest todo snap : List EpId} :
    Pc.dropAll rest ≠ .sendClone todo snap := by
  cases rest <;> simp [Pc.dropAll]

theorem afterDrop_ne_sendClone {nested : Bool} {rest todo snap : List EpId} :
    Pc.afterDrop nested rest ≠ .sendClone todo snap := by
  cases nested
  · exact dropAll_ne_sendClone
  · simp [Pc.afterDrop]

namespace World

/-! ### The mutex -/

/-- Critical sections exclude each other, and a send clones the list as it is. -/
structure Locked (w : World) : Prop where
  owner : Exclusive Pc.locks w.lock w.threads
  todo : ∀ (t : ℕ) (todo snap : List EpId), w.threads[t]? = some (Pc.sendClone todo snap) →
    ∀ e ∈ todo, e ∈ w.endpoints

/-- A step may take the mutex when it is free, and touch mutex and list while it holds it. -/
theorem Locked.step_of {w w' : World} (hw : Locked w) {t : ℕ} {pc pc' : Pc}
    (ht : w.threads[t]? = some pc) (hth : w'.threads = w.threads.set t pc')
    (hown : pc'.locks = true → w'.lock = some t)
    (hlock : w'.lock = w.lock ∨ w.lock = none ∨ pc.locks = true)
    (hlist : w'.endpoints = w.endpoints ∨ pc.locks = true)
    (htodo : ∀ todo snap, pc' = .sendClone todo snap → ∀ e ∈ todo, e ∈ w'.endpoints) :
    Locked w' := by
  refine ⟨hth ▸ hw.owner.set ht hown hlock, fun j todo snap hx e he => ?_⟩
  rw [hth] at hx
  rcases getElem?_set_eq_some hx with ⟨rfl, hpc'⟩ | ⟨hj, hx⟩
  · exact htodo todo snap hpc'.symm e he
  · rcases hlist with hsame | hpc
    · rw [hsame]
      exact hw.todo j todo snap hx e he
    · exact absurd (hw.owner.eq_of_inside ht hx hpc rfl) hj

theorem Locked.step {w w' : World} (hw : Locked w) (h : Trans w w') : Locked w' := by
  cases h with
  | startNew ht | startClone ht _ | startDrop ht _ | startSend ht | cloneAdd ht | cloneDone ht =>
    exact hw.step_of ht rfl (fun h => by cases h) (.inl rfl) (.inl rfl) (fun _ _ h => by cases h)
  | newLock ht hl =>
    exact hw.step_of ht rfl (fun _ => rfl) (.inr (.inl hl)) (.inl rfl) (fun _ _ h => by cases h)
  | newMake ht | newClone ht =>
    exact hw.step_of ht rfl (fun _ => hw.owner _ _ ht rfl) (.inl rfl) (.inl rfl)
      (fun _ _ h => by cases h)
  | newPush ht =>
    exact hw.step_of ht rfl (fun _ => hw.owner _ _ ht rfl) (.inl rfl) (.inr rfl)
      (fun _ _ h => by cases h)
  | newUnlock ht =>
    exact hw.step_of ht rfl (fun h => by cases h) (.inr (.inr rfl)) (.inl rfl)
      (fun _ _ h => by cases h)
  | @sub t nested e rest ht hne =>
    exact hw.step_of ht rfl (fun h => hw.owner _ _ ht ((locks_afterDrop nested rest).symm.trans h))
      (.inl rfl) (.inl rfl) (fun _ _ h => absurd h afterDrop_ne_sendClone)
  | subToOne ht heq =>
    exact hw.step_of ht rfl (fun h => hw.owner _ _ ht h) (.inl rfl) (.inl rfl)
      (fun _ _ h => by cases h)
  | @casLost t nested e rest ht hd =>
    exact hw.step_of ht rfl (fun h => hw.owner _ _ ht ((locks_afterDrop nested rest).symm.trans h))
      (.inl rfl) (.inl rfl) (fun _ _ h => absurd h afterDrop_ne_sendClone)
  | casWon ht hd =>
    exact hw.step_of ht rfl (fun h => hw.owner _ _ ht h) (.inl rfl) (.inl rfl)
      (fun _ _ h => by cases h)
  | dropLock ht hl =>
    exact hw.step_of ht rfl (fun _ => rfl) (.inr (.inl hl)) (.inl rfl) (fun _ _ h => by cases h)
  | panic ht htwo =>
    exact hw.step_of ht rfl (fun h => by cases h) (.inl rfl) (.inl rfl) (fun _ _ h => by cases h)
  | absent ht he =>
    exact hw.step_of ht rfl (fun _ => hw.owner _ _ ht rfl) (.inl rfl) (.inl rfl)
      (fun _ _ h => by cases h)
  | remove ht he =>
    exact hw.step_of ht rfl (fun _ => hw.owner _ _ ht rfl) (.inl rfl) (.inr rfl)
      (fun _ _ h => by cases h)
  | @dropUnlock t rest ht =>
    exact hw.step_of ht rfl (fun h => by rw [locks_dropAll] at h; cases h) (.inr (.inr rfl))
      (.inl rfl) (fun _ _ h => absurd h dropAll_ne_sendClone)
  | sendLock ht hl =>
    refine hw.step_of ht rfl (fun _ => rfl) (.inr (.inl hl)) (.inl rfl) (fun _ _ h => ?_)
    cases h
    exact fun e he => he
  | sendCloned ht =>
    exact hw.step_of ht rfl (fun h => by cases h) (.inr (.inr rfl)) (.inl rfl)
      (fun _ _ h => by cases h)
  | sendClone ht =>
    refine hw.step_of ht rfl (fun _ => hw.owner _ _ ht rfl) (.inl rfl) (.inl rfl) (fun _ _ h => ?_)
    cases h
    exact fun e he => hw.todo _ _ _ ht e (List.mem_cons_of_mem _ he)
  | @sendGive t snap ht =>
    exact hw.step_of ht rfl (fun h => by rw [locks_dropAll] at h; cases h) (.inl rfl)
      (.inl rfl) (fun _ _ h => absurd h dropAll_ne_sendClone)

/-! ### The simulation -/

/-- The account of the endpoint `e`. -/
def account (w : World) (e : EpId) : Account :=
  { made := decide (e < w.next)
    refcnt := (w.eps e).refcnt
    dropped := (w.eps e).dropped
    calls := (w.eps e).entered
    user := (w.eps e).user
    listed := w.endpoints.count e
    role := plays w.threads e }

/-- What another endpoint sees of a step. -/
theorem account_other {w w' : World} {t : ℕ} {pc pc' : Pc} {e x : EpId} {out into : List Role}
    (ht : w.threads[t]? = some pc) (h : Changes pc pc' e out into) (hx : x ≠ e)
    (hth : w'.threads = w.threads.set t pc') (hep : w'.eps x = w.eps x)
    (hmade : x < w'.next ↔ x < w.next) (hcount : w'.endpoints.count x = w.endpoints.count x) :
    Account.Step (w.account x) (w'.account x) := by
  have heq : w'.account x = { w.account x with role := plays (w.threads.set t pc') x } := by
    simp only [account, hth, hep, hmade, hcount]
  rw [heq]
  exact .shift (moves_other ht h hx)

/-- What the endpoint that a step is about sees of it. -/
theorem account_self {w w' : World} {t : ℕ} {pc' : Pc} {e : EpId} {ep : Slot} {n : ℕ}
    (hth : w'.threads = w.threads.set t pc') (hep : w'.eps e = ep)
    (hn : w'.endpoints.count e = n)
    (h : Account.Step (w.account e) ⟨decide (e < w'.next), ep.refcnt, ep.dropped, ep.entered,
      ep.user, n, plays (w.threads.set t pc') e⟩) : Account.Step (w.account e) (w'.account e) := by
  have heq : w'.account e = ⟨decide (e < w'.next), ep.refcnt, ep.dropped, ep.entered, ep.user, n,
      plays (w.threads.set t pc') e⟩ := by
    rw [account, hth, hep, hn]
  rw [heq]
  exact h

/-- A step that is about one slot, and about nothing else that an account counts. -/
theorem account_slot {w w' : World} {t : ℕ} {pc pc' : Pc} {e : EpId} {ep : Slot}
    {out into : List Role} (x : EpId) (ht : w.threads[t]? = some pc) (h : Changes pc pc' e out into)
    (hth : w'.threads = w.threads.set t pc') (heps : w'.eps = Function.update w.eps e ep)
    (hnext : w'.next = w.next) (hends : w'.endpoints = w.endpoints)
    (hself : Account.Step (w.account e) ⟨decide (e < w.next), ep.refcnt, ep.dropped, ep.entered,
      ep.user, w.endpoints.count e, plays (w.threads.set t pc') e⟩) :
    Account.Step (w.account x) (w'.account x) := by
  have hmade : x < w'.next ↔ x < w.next := by rw [hnext]
  have hcount : w'.endpoints.count x = w.endpoints.count x := by rw [hends]
  by_cases hx : x = e
  · subst hx
    have hslot : w'.eps x = ep := by rw [heps, Function.update_self]
    refine account_self hth hslot hcount ?_
    rw [hnext]
    exact hself
  · refine account_other ht h hx hth ?_ hmade hcount
    rw [heps, Function.update_of_ne hx]

/-- A step that changes no slot, and nothing else that an account counts. -/
theorem account_still {w w' : World} {t : ℕ} {pc pc' : Pc} {e : EpId} {out into : List Role}
    (x : EpId) (ht : w.threads[t]? = some pc) (h : Changes pc pc' e out into)
    (hth : w'.threads = w.threads.set t pc') (heps : w'.eps = w.eps) (hnext : w'.next = w.next)
    (hends : w'.endpoints = w.endpoints)
    (hself : Account.Step (w.account e)
      { w.account e with role := plays (w.threads.set t pc') e }) :
    Account.Step (w.account x) (w'.account x) := by
  refine account_slot x ht h hth ?_ hnext hends hself
  rw [Function.update_eq_self, heps]

/-- A drop leaves a handle to any clone that is being made. -/
theorem user_of_mayDrop {w : World} {e : EpId} (h : w.mayDrop e = true) :
    0 < (w.eps e).user ∧ (0 < plays w.threads e .borrowing → 1 < (w.eps e).user) := by
  unfold mayDrop at h
  by_cases hb : w.threads.any (Pc.borrows e) = true
  · rw [if_pos hb, decide_eq_true_iff] at h
    exact ⟨by omega, fun _ => h⟩
  · rw [if_neg hb, decide_eq_true_iff] at h
    refine ⟨h, fun hpos => absurd ?_ hb⟩
    obtain ⟨pc, hpc, hcount⟩ := exists_of_total_pos hpos
    refine List.any_eq_true.mpr ⟨pc, hpc, ?_⟩
    have hmem := List.count_pos_iff.mp hcount
    cases pc <;> simp_all [Pc.roles, Pc.borrows]

/-- **The simulation.**  To each endpoint, a step of the machine is a step of its account. -/
theorem account_step {w w' : World} (hw : Locked w) (h : Trans w w') (x : EpId) :
    Account.Step (w.account x) (w'.account x) := by
  cases h with
  | @startNew t eid ht =>
    have hc : Changes .idle (.newLock eid) x [] [] := ⟨[], .rfl, .rfl⟩
    exact .shift (moves_self ht hc)
  | @startClone t e ht hu =>
    have hc : Changes .idle (.cloneAdd e) e [] [.borrowing] := ⟨[], .rfl, .rfl⟩
    exact account_still x ht hc rfl rfl rfl rfl (.borrow hu (moves_self ht hc))
  | @startDrop t e ht hmay =>
    have hc : Changes .idle (.dropSub false e []) e [] [.dropping false] := ⟨[], .rfl, .rfl⟩
    obtain ⟨hu, hb⟩ := user_of_mayDrop hmay
    refine account_slot x ht hc rfl rfl rfl rfl ?_
    exact .release hu hb (moves_self ht hc)
  | @startSend t ht =>
    have hc : Changes .idle .sendLock x [] [] := ⟨[], .rfl, .rfl⟩
    exact .shift (moves_self ht hc)
  | @newLock t eid ht hl =>
    have hc : Changes (.newLock eid) (.newMake eid) x [] [] := ⟨[], .rfl, .rfl⟩
    exact .shift (moves_self ht hc)
  | @newMake t eid ht =>
    have hc : Changes (.newMake eid) (.newClone w.next) w.next [] [.newborn] := ⟨[], .rfl, .rfl⟩
    by_cases hx : x = w.next
    · subst hx
      have hmade : (w.account w.next).made = false := decide_eq_false (Nat.lt_irrefl _)
      have hmade' : decide (w.next < w.next + 1) = true := decide_eq_true (Nat.lt_succ_self _)
      refine account_self rfl (Function.update_self ..) rfl ?_
      cases eid
      all_goals
        show Account.Step _ ⟨decide (w.next < w.next + 1), 1, false, 0, 0, _, _⟩
        rw [hmade']
        exact .make hmade (moves_self ht hc)
    · refine account_other ht hc hx rfl (Function.update_of_ne hx _ _) ?_ rfl
      exact ⟨fun h => Nat.lt_of_le_of_ne (Nat.le_of_lt_succ h) hx, Nat.lt_succ_of_lt⟩
  | @newClone t e ht =>
    have hc : Changes (.newClone e) (.newPush e) e [.newborn] [.twin] := ⟨[], .rfl, .rfl⟩
    refine account_slot x ht hc rfl rfl rfl rfl ?_
    exact .twin (moves_self ht hc)
  | @newPush t e ht =>
    have hc : Changes (.newPush e) (.newUnlock e) e [.twin] [.owing] := ⟨[], .rfl, .rfl⟩
    by_cases hx : x = e
    · subst hx
      refine account_self rfl rfl (List.count_append ..) ?_
      simp only [List.count_singleton_self]
      exact .push (moves_self ht hc)
    · exact account_other ht hc hx rfl rfl .rfl (by simp [Ne.symm hx])
  | @newUnlock t e ht =>
    have hc : Changes (.newUnlock e) .idle e [.owing] [] := ⟨[], .rfl, .rfl⟩
    refine account_slot x ht hc rfl rfl rfl rfl ?_
    exact .created (moves_self ht hc)
  | @cloneAdd t e ht =>
    have hc : Changes (.cloneAdd e) (.cloneDone e) e [] [.owing] :=
      ⟨[(.borrowing, e)], .rfl, .swap _ _ _⟩
    refine account_slot x ht hc rfl rfl rfl rfl ?_
    exact .cloneAdd (plays_pos ht (by simp [Pc.roles])) (moves_self ht hc)
  | @cloneDone t e ht =>
    have hc : Changes (.cloneDone e) .idle e [.borrowing, .owing] [] := ⟨[], .rfl, .rfl⟩
    refine account_slot x ht hc rfl rfl rfl rfl ?_
    exact .cloneDone (moves_self ht hc)
  | @sub t nested e rest ht hne =>
    have hc : Changes (.dropSub nested e rest) (.afterDrop nested rest) e [.dropping nested] [] :=
      ⟨_, .rfl, .of_eq (roles_afterDrop nested rest)⟩
    refine account_slot x ht hc rfl rfl rfl rfl ?_
    exact .sub hne (moves_self ht hc)
  | @subToOne t nested e rest ht heq =>
    have hc : Changes (.dropSub nested e rest) (.dropCas nested e rest) e [.dropping nested]
        [.casing nested] := ⟨_, .rfl, .rfl⟩
    refine account_slot x ht hc rfl rfl rfl rfl ?_
    exact .subToOne heq (moves_self ht hc)
  | @casLost t nested e rest ht hd =>
    have hc : Changes (.dropCas nested e rest) (.afterDrop nested rest) e [.casing nested] [] :=
      ⟨_, .rfl, .of_eq (roles_afterDrop nested rest)⟩
    exact account_still x ht hc rfl rfl rfl rfl (.casLost hd (moves_self ht hc))
  | @casWon t nested e rest ht hd =>
    have hc : Changes (.dropCas nested e rest) (.dropLock nested e rest) e [.casing nested]
        [.entered nested] := ⟨_, .rfl, .rfl⟩
    refine account_slot x ht hc rfl rfl rfl rfl ?_
    exact .casWon hd (moves_self ht hc)
  | @dropLock t nested e rest ht hl =>
    -- a nested call would need the mutex that its own thread holds
    have hn : nested = false := by
      cases nested with
      | false => rfl
      | true => exact absurd ((hw.owner _ _ ht rfl).symm.trans hl) (by simp)
    subst hn
    have hc : Changes (.dropLock false e rest) (.dropFind e rest) e [] [] := ⟨_, .rfl, .rfl⟩
    exact account_still x ht hc rfl rfl rfl rfl (.shift (moves_self ht hc))
  | @panic t e rest ht htwo =>
    have hc : Changes (.dropFind e rest) (.panicked e rest) e [.entered false] [.panicked] :=
      ⟨_, .rfl, .rfl⟩
    exact account_still x ht hc rfl rfl rfl rfl (.panic htwo (moves_self ht hc))
  | @absent t e rest ht he =>
    have hc : Changes (.dropFind e rest) (.dropUnlock rest) e [.entered false] [] :=
      ⟨_, .rfl, .rfl⟩
    exact account_still x ht hc rfl rfl rfl rfl (.absent (List.count_eq_zero.mpr he) (moves_self ht hc))
  | @remove t e rest ht he =>
    have hc : Changes (.dropFind e rest) (.dropSub true e rest) e [.entered false]
        [.dropping true] := ⟨_, .rfl, .rfl⟩
    by_cases hx : x = e
    · subst hx
      refine account_self rfl rfl List.count_erase_self ?_
      exact .remove (List.count_pos_iff.mpr he) (moves_self ht hc)
    · exact account_other ht hc hx rfl rfl .rfl (List.count_erase_of_ne hx)
  | @dropUnlock t rest ht =>
    have hc : Changes (.dropUnlock rest) (.dropAll rest) x [] [] := ⟨_, .rfl, .of_eq (roles_dropAll _)⟩
    exact .shift (moves_self ht hc)
  | @sendLock t ht hl =>
    have hc : Changes .sendLock (.sendClone w.endpoints []) x [] [] := ⟨[], .rfl, .rfl⟩
    exact .shift (moves_self ht hc)
  | @sendCloned t snap ht =>
    have hc : Changes (.sendClone [] snap) (.sendGive snap) x [] [] := ⟨_, .rfl, .rfl⟩
    exact .shift (moves_self ht hc)
  | @sendClone t e todo snap ht =>
    have hc : Changes (.sendClone (e :: todo) snap) (.sendClone todo (snap ++ [e])) e []
        [.dropping false] := by
      refine ⟨snap.map (Role.dropping false, ·), .rfl, ?_⟩
      rw [Pc.roles, List.map_append]
      exact List.perm_append_comm
    refine account_slot x ht hc rfl rfl rfl rfl ?_
    exact .snapshot (List.count_pos_iff.mpr (hw.todo _ _ _ ht e List.mem_cons_self))
      (moves_self ht hc)
  | @sendGive t snap ht =>
    have hc : Changes (.sendGive snap) (.dropAll snap) x [] [] := ⟨_, .rfl, .of_eq (roles_dropAll _)⟩
    exact .shift (moves_self ht hc)

/-! ### Runs -/

theorem plays_idle {threads : List Pc} (h : ∀ pc ∈ threads, pc = .idle) (e : EpId) (r : Role) :
    plays threads e r = 0 :=
  total_eq_zero fun pc hpc => by rw [h pc hpc]; rfl

theorem init_locked (sid : ID) (n : ℕ) : Locked (init sid n) := by
  constructor
  · intro t pc ht hlocks
    rw [List.eq_of_mem_replicate (List.mem_of_getElem? ht)] at hlocks
    cases hlocks
  · intro t todo snap ht
    cases List.eq_of_mem_replicate (List.mem_of_getElem? ht)

theorem init_account (sid : ID) (n : ℕ) (e : EpId) : ((init sid n).account e).Inv := by
  have heq : (init sid n).account e = ⟨false, 0, false, 0, 0, 0, fun _ => 0⟩ := by
    have hrole : plays (init sid n).threads e = fun _ => 0 :=
      funext (plays_idle (fun pc hpc => List.eq_of_mem_replicate hpc) e)
    rw [account, hrole]
    rfl
  rw [heq]
  constructor <;> simp

/-- **Every run keeps every account.** -/
theorem run_account {sid : ID} {n : ℕ} {as : List Act} {w : World}
    (hrun : run step (init sid n) as = some w) : Locked w ∧ ∀ e, (w.account e).Inv := by
  have hstep : ∀ u a u', (Locked u ∧ ∀ e, (u.account e).Inv) → step u a = some u' →
      (Locked u' ∧ ∀ e, (u'.account e).Inv) := by
    intro u a u' hu h
    have htr := step_trans h
    exact ⟨hu.1.step htr, fun e => Account.step_inv (account_step hu.1 htr e) (hu.2 e)⟩
  exact run_invariant hstep hrun ⟨init_locked sid n, init_account sid n⟩

/-- A `fetch_sub` never meets the count 0, and `drop_endpoint` never finds a second entry. -/
theorem no_underflow_no_panic {sid : ID} {n : ℕ} {as : List Act} {w : World}
    (hrun : run step (init sid n) as = some w) (e : EpId) (rest : List EpId) :
    (∀ nested, .dropSub nested e rest ∈ w.threads → 0 < (w.eps e).refcnt) ∧
      .panicked e rest ∉ w.threads := by
  have hinv := (run_account hrun).2 e
  refine ⟨fun nested hmem => ?_, fun hmem => ?_⟩
  · obtain ⟨t, ht⟩ := List.getElem?_of_mem hmem
    have hplays : 0 < (w.account e).role (.dropping nested) := plays_pos ht (by simp [Pc.roles])
    have hcount : (w.eps e).refcnt = _ := hinv.count
    cases nested <;> omega
  · obtain ⟨t, ht⟩ := List.getElem?_of_mem hmem
    have hplays : 0 < (w.account e).role .panicked := plays_pos ht (by simp [Pc.roles])
    exact absurd hinv.noPanic (by omega)

/-- **The lifetime protocol.**  In every run of any number of threads, an endpoint that user code
has a handle of is in the net's list; `drop_endpoint` is entered at most once for an endpoint, and
never by the drop of the handle it takes out of the list; and whenever no call is in progress,
`refcnt` is the number of user handles, plus one if the endpoint is in the list, and an endpoint
without user handles is not in the list. -/
theorem lifetime {sid : ID} {n : ℕ} {as : List Act} {w : World}
    (hrun : run step (init sid n) as = some w) :
    (∀ e, 0 < (w.eps e).user → e ∈ w.endpoints) ∧
    (∀ e, (w.eps e).entered ≤ 1) ∧
    (∀ e rest, .dropLock true e rest ∉ w.threads) ∧
    ((∀ pc ∈ w.threads, pc = .idle) → ∀ e,
      (w.eps e).refcnt = (w.eps e).user + (if e ∈ w.endpoints then 1 else 0) ∧
      ((w.eps e).user = 0 → e ∉ w.endpoints)) := by
  have hinv := (run_account hrun).2
  refine ⟨fun e hu => ?_, fun e => ?_, fun e rest hmem => ?_, fun hidle e => ?_⟩
  · have hlisted : w.endpoints.count e = 1 := (hinv e).listed (Nat.lt_of_lt_of_le hu (Nat.le_add_right _ _))
    exact List.count_pos_iff.mp (by omega)
  · have hcalls : (w.eps e).entered = if (w.eps e).dropped then 1 else 0 := (hinv e).calls
    rw [hcalls]
    split <;> omega
  · obtain ⟨t, ht⟩ := List.getElem?_of_mem hmem
    have hplays : 0 < (w.account e).role (.entered true) := plays_pos ht (by simp [Pc.roles])
    exact absurd (hinv e).notNested (by omega)
  · obtain ⟨hcount, hnone⟩ := (hinv e).at_rest (plays_idle hidle e)
    have hone : w.endpoints.count e ≤ 1 := (hinv e).once
    have hcount : (w.eps e).refcnt = (w.eps e).user + w.endpoints.count e := hcount
    refine ⟨?_, fun hu => List.count_eq_zero.mp (hnone hu)⟩
    by_cases he : e ∈ w.endpoints
    · have := List.count_pos_iff.mpr he
      rw [if_pos he]
      omega
    · rw [if_neg he, hcount, List.count_eq_zero.mpr he]

/-- One thread makes an endpoint and drops its only handle while a send of another thread holds a
clone of it, so that the send takes the endpoint out of the list. -/
def snapshotRun : List Act :=
  [.newEndpoint 0 none, .step 0, .step 0, .step 0, .step 0, .step 0,
   .send 1, .step 1, .step 1, .step 1, .drop 0 0, .step 0,
   .step 1, .step 1, .step 1, .step 1, .step 1, .step 1, .step 1]

theorem lifetime_snapshotRun :
    ∃ w, run step (init 234 2) snapshotRun = some w ∧ (w.eps 0).entered = 1 ∧ w.endpoints = [] ∧
      (∀ e, 0 < (w.eps e).user → e ∈ w.endpoints) ∧
      (∀ e, (w.eps e).entered ≤ 1) ∧
      (∀ e rest, .dropLock true e rest ∉ w.threads) ∧
      ((∀ pc ∈ w.threads, pc = .idle) → ∀ e,
        (w.eps e).refcnt = (w.eps e).user + (if e ∈ w.endpoints then 1 else 0) ∧
        ((w.eps e).user = 0 → e ∉ w.endpoints)) := by
  have hend : (run step (init 234 2) snapshotRun).map (fun w =>
      ((w.eps 0).entered, w.endpoints, w.threads)) = some (1, [], [.idle, .idle]) := by
    decide +kernel
  obtain ⟨w, hw, hobs⟩ := Option.map_eq_some_iff.mp hend
  simp only [Prod.mk.injEq] at hobs
  exact ⟨w, hw, hobs.1, hobs.2.1, lifetime hw⟩

end World

end WaterNet.Lifetime
