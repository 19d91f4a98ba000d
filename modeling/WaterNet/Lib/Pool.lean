import Mathlib.Algebra.BigOperators.Group.List.Basic
import Mathlib.Algebra.Order.BigOperators.Group.List
import Mathlib.Tactic.Ring

/-!
# Thread pools and what their members hold

A pool is a list of local states, one for each thread; a step of thread `i` replaces the `i`-th
entry.  A weight says how much of some resource a local state holds, and `total` adds the
weights up, so a counting invariant over any number of threads is an equation between `total`s:

* `total_set` — replacing one entry changes the total by the difference of the two weights;
* `le_total` and `add_le_total` — one entry, or two different ones, hold at most the total;
* `exists_of_total_pos` — a positive total has a holder;
* `Exclusive.set` — mutual exclusion, kept by a step of one thread.
-/

namespace WaterNet.Lib.Pool

variable {τ : Type*}

/-- The weights of all entries of the pool, added up. -/
def total (weight : τ → ℕ) (pool : List τ) : ℕ := (pool.map weight).sum

@[simp] theorem total_nil (weight : τ → ℕ) : total weight [] = 0 := rfl

@[simp] theorem total_cons (weight : τ → ℕ) (x : τ) (pool : List τ) :
    total weight (x :: pool) = weight x + total weight pool := by
  simp [total]

theorem total_append (weight : τ → ℕ) (xs ys : List τ) :
    total weight (xs ++ ys) = total weight xs + total weight ys := by
  simp [total]

/-- **Replacing one entry.**  The old weight leaves the total and the new one enters it. -/
theorem total_set (weight : τ → ℕ) {pool : List τ} {i : ℕ} {x : τ} (hx : pool[i]? = some x)
    (y : τ) : total weight (pool.set i y) + weight x = total weight pool + weight y := by
  induction pool generalizing i with
  | nil => simp at hx
  | cons z pool ih =>
    cases i with
    | zero =>
      simp only [List.getElem?_cons_zero, Option.some.injEq] at hx
      subst hx
      simp only [List.set_cons_zero, total_cons]
      ring
    | succ i =>
      have h := ih (by simpa using hx)
      simp only [List.set_cons_succ, total_cons]
      omega

theorem le_total (weight : τ → ℕ) {pool : List τ} {x : τ} (hx : x ∈ pool) :
    weight x ≤ total weight pool :=
  List.single_le_sum (fun _ _ => Nat.zero_le _) _ (List.mem_map_of_mem hx)

/-- Two different threads hold no more than the whole pool. -/
theorem add_le_total (weight : τ → ℕ) {pool : List τ} {i j : ℕ} {x y : τ} (hij : i ≠ j)
    (hx : pool[i]? = some x) (hy : pool[j]? = some y) : weight x + weight y ≤ total weight pool := by
  induction pool generalizing i j with
  | nil => simp at hx
  | cons z pool ih =>
    rw [total_cons]
    cases i with
    | zero =>
      cases j with
      | zero => exact absurd rfl hij
      | succ j =>
        simp only [List.getElem?_cons_zero, Option.some.injEq, List.getElem?_cons_succ] at hx hy
        have := le_total weight (List.mem_of_getElem? hy)
        rw [hx]
        omega
    | succ i =>
      cases j with
      | zero =>
        simp only [List.getElem?_cons_zero, Option.some.injEq, List.getElem?_cons_succ] at hx hy
        have := le_total weight (List.mem_of_getElem? hx)
        rw [hy]
        omega
      | succ j =>
        have := ih (fun h => hij (congrArg _ h)) (by simpa using hx) (by simpa using hy)
        omega

theorem exists_of_total_pos {weight : τ → ℕ} {pool : List τ} (h : 0 < total weight pool) :
    ∃ x ∈ pool, 0 < weight x := by
  induction pool with
  | nil => simp at h
  | cons z pool ih =>
    rcases Nat.eq_zero_or_pos (weight z) with hz | hz
    · rw [total_cons, hz, Nat.zero_add] at h
      obtain ⟨x, hx, hpos⟩ := ih h
      exact ⟨x, List.mem_cons_of_mem z hx, hpos⟩
    · exact ⟨z, List.mem_cons_self, hz⟩

theorem total_eq_zero {weight : τ → ℕ} {pool : List τ} (h : ∀ x ∈ pool, weight x = 0) :
    total weight pool = 0 := by
  rcases Nat.eq_zero_or_pos (total weight pool) with h0 | hpos
  · exact h0
  · obtain ⟨x, hx, hw⟩ := exists_of_total_pos hpos
    have := h x hx
    omega

theorem total_mono {w w' : τ → ℕ} {pool : List τ} (h : ∀ x ∈ pool, w x ≤ w' x) :
    total w pool ≤ total w' pool :=
  List.sum_le_sum h

theorem total_congr {w w' : τ → ℕ} {pool : List τ} (h : ∀ x ∈ pool, w x = w' x) :
    total w pool = total w' pool := by
  unfold total
  rw [List.map_congr_left h]

/-- Every entry of the pool after a step is an old entry or the one the step put there. -/
theorem mem_set_or {pool : List τ} {i : ℕ} {x y : τ} {P : τ → Prop} (h : x ∈ pool.set i y)
    (hy : P y) : x ∈ pool ∨ P x := by
  rcases List.mem_or_eq_of_mem_set h with h | rfl
  · exact Or.inl h
  · exact Or.inr hy

/-- What holds of every thread still does after a step of one of them. -/
theorem forall_mem_set {pool : List τ} {i : ℕ} {y : τ} {P : τ → Prop} (h : ∀ x ∈ pool, P x)
    (hy : P y) : ∀ x ∈ pool.set i y, P x := by
  intro x hx
  rcases List.mem_or_eq_of_mem_set hx with hx | rfl
  · exact h x hx
  · exact hy

/-- A thread that did not move is where it was. -/
theorem mem_set_of_ne {pool : List τ} {i : ℕ} {x y z : τ} (hi : pool[i]? = some x) (hz : z ∈ pool)
    (hne : z ≠ x) : z ∈ pool.set i y := by
  obtain ⟨j, hj⟩ := List.getElem?_of_mem hz
  refine List.mem_of_getElem? (i := j) ?_
  rw [List.getElem?_set_ne, hj]
  rintro rfl
  rw [hi] at hj
  exact hne (Option.some.inj hj).symm

/-- The local state of thread `j` after a step of thread `i`. -/
theorem getElem?_set_eq_some {pool : List τ} {i j : ℕ} {x y : τ} (h : (pool.set i y)[j]? = some x) :
    (j = i ∧ x = y) ∨ (j ≠ i ∧ pool[j]? = some x) := by
  rw [List.getElem?_set] at h
  by_cases hij : i = j
  · subst hij
    rw [if_pos rfl] at h
    split at h
    · exact Or.inl ⟨rfl, (Option.some.inj h).symm⟩
    · cases h
  · rw [if_neg hij] at h
    exact Or.inr ⟨Ne.symm hij, h⟩

/-! ### A mutex -/

/-- Only the thread that the mutex names is in a critical section. -/
def Exclusive (inside : τ → Bool) (owner : Option ℕ) (pool : List τ) : Prop :=
  ∀ t x, pool[t]? = some x → inside x = true → owner = some t

namespace Exclusive

variable {inside : τ → Bool} {owner owner' : Option ℕ} {pool : List τ} {t j : ℕ} {x y : τ}

/-- While one thread is in a critical section, no other is. -/
theorem eq_of_inside (h : Exclusive inside owner pool) (hx : pool[t]? = some x)
    (hy : pool[j]? = some y) (hxin : inside x = true) (hyin : inside y = true) : j = t := by
  have hj := h j y hy hyin
  rw [h t x hx hxin] at hj
  exact (Option.some.inj hj).symm

/-- **A step of one thread.**  It may take the mutex when that is free, and do as it likes with it
while it is in a critical section. -/
theorem set (h : Exclusive inside owner pool) (ht : pool[t]? = some x)
    (hown : inside y = true → owner' = some t)
    (hkeep : owner' = owner ∨ owner = none ∨ inside x = true) :
    Exclusive inside owner' (pool.set t y) := by
  intro j z hz hzin
  rcases getElem?_set_eq_some hz with ⟨rfl, rfl⟩ | ⟨hj, hz⟩
  · exact hown hzin
  · have hjown := h j z hz hzin
    rcases hkeep with hkeep | hnone | hxin
    · rw [hkeep, hjown]
    · rw [hnone] at hjown
      cases hjown
    · exact absurd (h.eq_of_inside ht hz hxin hzin) hj

end Exclusive

end WaterNet.Lib.Pool
