import WaterNet.Lib.Pool

/-!
# A counter kept beside a queue, in two steps

Producers put an item into a queue and then add its size to a counter; consumers take an item out
and then subtract its size.  A mutex keeps two producers from being between their steps at once.
Each party is at a `Stage`: outside, between its put and its addition (`owes`), or between its get
and its subtraction (`holds`).

* `Books` — the counter and what is owed balance the queue and what is held;
* `Books.put`, `Books.add`, `Books.get`, `Books.sub` — the four steps keep it, the last one if
  no producer still owes the item that is subtracted;
* `Books.nonneg` — **the counter is never negative**.
-/

namespace WaterNet.Lib.Ledger

open WaterNet.Lib.Pool (total total_cons total_set le_total total_eq_zero total_congr mem_set_of_ne)

variable {α : Type*}

/-- Where a party is between the queue and the counter. -/
inductive Stage (α : Type*) where
  | outside
  | owes (x : α)
  | holds (x : α)

namespace Stage

/-- A producer between its two steps has the mutex. -/
def locks : Stage α → ℕ
  | .owes _ => 1
  | _ => 0

/-- What is in the queue, or was, and not yet in the counter. -/
def owed (size : α → ℕ) : Stage α → ℕ
  | .owes x => size x
  | _ => 0

/-- What is out of the queue and still in the counter. -/
def held (size : α → ℕ) : Stage α → ℕ
  | .holds x => size x
  | _ => 0

end Stage

/-- **The books of one queue.**  At most one producer owes, and only if the mutex is taken; the
counter and what is owed are the sizes in the queue and in the hands of consumers; and an item
that is owed is in one of these places. -/
structure Books (size : α → ℕ) (counter : ℤ) (locked : Bool) (queue : List α)
    (stages : List (Stage α)) : Prop where
  mutex : total Stage.locks stages = if locked then 1 else 0
  even : counter + total (Stage.owed size) stages =
    (queue.map size).sum + total (Stage.held size) stages
  present : ∀ x, .owes x ∈ stages → x ∈ queue ∨ .holds x ∈ stages

/-- What one party at most can owe bounds what is owed. -/
theorem owed_le {size : α → ℕ} {bound : ℕ} {stages : List (Stage α)}
    (hone : total Stage.locks stages ≤ 1) (hb : ∀ x, .owes x ∈ stages → size x ≤ bound) :
    total (Stage.owed size) stages ≤ bound := by
  induction stages with
  | nil => exact Nat.zero_le _
  | cons s stages ih =>
    rw [total_cons] at hone ⊢
    have hrest := ih (by omega) fun x hx => hb x (List.mem_cons_of_mem _ hx)
    cases s with
    | outside | holds x =>
      show 0 + total (Stage.owed size) stages ≤ bound
      omega
    | owes x =>
      -- the others owe nothing, since this party has the mutex
      have hnone : total Stage.locks stages = 0 := by
        change 1 + total Stage.locks stages ≤ 1 at hone
        omega
      have hzero : total (Stage.owed size) stages = 0 := by
        refine total_eq_zero fun s hs => ?_
        have hle := le_total Stage.locks hs
        cases s with
        | outside | holds y => rfl
        | owes y =>
          change 1 ≤ total Stage.locks stages at hle
          omega
      show size x + total (Stage.owed size) stages ≤ bound
      have hx := hb x List.mem_cons_self
      omega

namespace Books

variable {size size' : α → ℕ} {counter : ℤ} {locked : Bool} {queue : List α}
  {stages : List (Stage α)} {i : ℕ} {x : α}

/-- **The counter is never negative**: what is owed is somewhere in the queue or in some hand. -/
theorem nonneg (h : Books size counter locked queue stages) : 0 ≤ counter := by
  have hle : total (Stage.owed size) stages ≤
      (queue.map size).sum + total (Stage.held size) stages := by
    refine owed_le ?_ fun x hx => ?_
    · rw [h.mutex]
      split <;> omega
    · rcases h.present x hx with hq | hh
      · have hsum := List.single_le_sum (fun _ _ => Nat.zero_le _) _ (List.mem_map_of_mem (f := size) hq)
        omega
      · have hsum := le_total (Stage.held size) hh
        change size x ≤ _ at hsum
        omega
  have heven := h.even
  omega

theorem init (hout : ∀ s ∈ stages, s = .outside) : Books size 0 false [] stages := by
  have hzero : ∀ f : Stage α → ℕ, f .outside = 0 → total f stages = 0 :=
    fun f hf => total_eq_zero fun s hs => by rw [hout s hs, hf]
  refine ⟨hzero _ rfl, ?_, fun x hx => ?_⟩
  · rw [hzero _ rfl, hzero _ rfl]
    simp
  · cases hout _ hx

/-- Only the sizes of items in the queue or in some party's hands matter. -/
theorem congr (h : Books size counter locked queue stages)
    (hq : ∀ x ∈ queue, size' x = size x) (ho : ∀ x, .owes x ∈ stages → size' x = size x)
    (hh : ∀ x, .holds x ∈ stages → size' x = size x) :
    Books size' counter locked queue stages := by
  have howed : total (Stage.owed size') stages = total (Stage.owed size) stages := by
    refine total_congr fun s hs => ?_
    cases s with
    | owes x => exact ho x hs
    | outside | holds x => rfl
  have hheld : total (Stage.held size') stages = total (Stage.held size) stages := by
    refine total_congr fun s hs => ?_
    cases s with
    | holds x => exact hh x hs
    | outside | owes x => rfl
  refine ⟨h.mutex, ?_, h.present⟩
  rw [howed, hheld, List.map_congr_left hq]
  exact h.even

/-- A step of a party that stays at its stage. -/
theorem stay {s : Stage α} (h : Books size counter locked queue stages) (hi : stages[i]? = some s) :
    Books size counter locked queue (stages.set i s) := by
  obtain ⟨hlt, rfl⟩ := List.getElem?_eq_some_iff.mp hi
  rw [List.set_getElem_self hlt]
  exact h

/-- Where the parties are after one of them moved. -/
theorem mem_set {s s' : Stage α} (h : s ∈ stages.set i s') : s ∈ stages ∨ s = s' :=
  List.mem_or_eq_of_mem_set h

/-- A producer puts an item and keeps the mutex. -/
theorem put (h : Books size counter false queue stages) (hi : stages[i]? = some .outside) (x : α) :
    Books size counter true (queue ++ [x]) (stages.set i (.owes x)) := by
  have hmutex : total Stage.locks (stages.set i (.owes x)) + 0 = _ + 1 := total_set Stage.locks hi _
  have howed : total (Stage.owed size) (stages.set i (.owes x)) + 0 = _ + size x :=
    total_set (Stage.owed size) hi _
  have hheld : total (Stage.held size) (stages.set i (.owes x)) + 0 = _ + 0 :=
    total_set (Stage.held size) hi _
  have hfree : total Stage.locks stages = 0 := h.mutex
  have heven := h.even
  refine ⟨?_, ?_, fun y hy => ?_⟩
  · rw [if_pos rfl]
    omega
  · rw [List.map_append, List.sum_append]
    simp only [List.map_cons, List.map_nil, List.sum_cons, List.sum_nil]
    omega
  · rcases mem_set hy with hy | hy
    · rcases h.present y hy with hq | hh
      · exact Or.inl (List.mem_append_left _ hq)
      · exact Or.inr (mem_set_of_ne hi hh (by simp))
    · cases hy
      exact Or.inl (List.mem_append_right _ (List.mem_singleton.mpr rfl))

/-- The producer adds the size and gives the mutex up. -/
theorem add (h : Books size counter locked queue stages) (hi : stages[i]? = some (.owes x)) :
    Books size (counter + size x) false queue (stages.set i .outside) := by
  have hmutex : total Stage.locks (stages.set i .outside) + 1 = _ + 0 := total_set Stage.locks hi _
  have howed : total (Stage.owed size) (stages.set i .outside) + size x = _ + 0 :=
    total_set (Stage.owed size) hi _
  have hheld : total (Stage.held size) (stages.set i .outside) + 0 = _ + 0 :=
    total_set (Stage.held size) hi _
  have hone : total Stage.locks stages ≤ 1 := by
    rw [h.mutex]
    split <;> omega
  have heven := h.even
  refine ⟨?_, ?_, fun y hy => ?_⟩
  · rw [if_neg (by simp)]
    omega
  · omega
  · rcases mem_set hy with hy | hy
    · rcases h.present y hy with hq | hh
      · exact Or.inl hq
      · exact Or.inr (mem_set_of_ne hi hh (by simp))
    · cases hy

/-- A consumer takes the oldest item out. -/
theorem get (h : Books size counter locked (x :: queue) stages)
    (hi : stages[i]? = some .outside) : Books size counter locked queue (stages.set i (.holds x)) := by
  have hmutex : total Stage.locks (stages.set i (.holds x)) + 0 = _ + 0 := total_set Stage.locks hi _
  have howed : total (Stage.owed size) (stages.set i (.holds x)) + 0 = _ + 0 :=
    total_set (Stage.owed size) hi _
  have hheld : total (Stage.held size) (stages.set i (.holds x)) + 0 = _ + size x :=
    total_set (Stage.held size) hi _
  have heven := h.even
  rw [List.map_cons, List.sum_cons] at heven
  refine ⟨?_, ?_, fun y hy => ?_⟩
  · rw [← h.mutex]
    omega
  · omega
  · rcases mem_set hy with hy | hy
    · rcases h.present y hy with hq | hh
      · rcases List.mem_cons.mp hq with rfl | hq
        · exact Or.inr (List.mem_set (List.getElem?_eq_some_iff.mp hi).1 _)
        · exact Or.inl hq
      · exact Or.inr (mem_set_of_ne hi hh (by simp))
    · cases hy

/-- A consumer subtracts the size of an item that nobody owes any more. -/
theorem sub (h : Books size counter locked queue stages) (hi : stages[i]? = some (.holds x))
    (hpaid : .owes x ∉ stages) : Books size (counter - size x) locked queue (stages.set i .outside) := by
  have hmutex : total Stage.locks (stages.set i .outside) + 0 = _ + 0 := total_set Stage.locks hi _
  have howed : total (Stage.owed size) (stages.set i .outside) + 0 = _ + 0 :=
    total_set (Stage.owed size) hi _
  have hheld : total (Stage.held size) (stages.set i .outside) + size x = _ + 0 :=
    total_set (Stage.held size) hi _
  have heven := h.even
  refine ⟨?_, ?_, fun y hy => ?_⟩
  · rw [← h.mutex]
    omega
  · omega
  · rcases mem_set hy with hy | hy
    · rcases h.present y hy with hq | hh
      · exact Or.inl hq
      · refine Or.inr (mem_set_of_ne hi hh fun heq => ?_)
        cases heq
        exact hpaid hy
    · cases hy

end Books

end WaterNet.Lib.Ledger
