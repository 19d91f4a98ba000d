import Mathlib.Data.List.Nodup
import Mathlib.Data.List.Perm.Subperm

/-!
# Bounded stacks in a ring

A ring of slots with a cursor: a push writes at the cursor and moves it on, a pop moves it back and
clears the slot there.  Seen from the cursor backwards, the ring is a list that a push extends at
its head and shortens at its end.

* `Behind` — the ring, read backwards from the cursor, is a given list; `Behind.push`,
  `Behind.pop` say what the two operations make of it, `Behind.perm` that it has the same entries;
* `answer` — a stack of bounded size, which drops its oldest entry to make room;
  `answer_push_perm` — no other entry is lost;
* `pad_push`, `Behind.stack_pop` — a ring padded with an empty mark is such a stack.
-/

namespace WaterNet.Lib.Stack

variable {α : Type*}

/-! ### A ring read backwards -/

theorem eq_of_mod_eq {a b n : ℕ} (h : a % n = b % n) (hab : a < b + n) (hba : b < a + n) :
    a = b := by
  rcases Nat.le_total a b with hle | hle
  · have hzero := Nat.sub_mod_eq_zero_of_mod_eq h.symm
    rw [Nat.mod_eq_of_lt (by omega)] at hzero
    omega
  · have hzero := Nat.sub_mod_eq_zero_of_mod_eq h
    rw [Nat.mod_eq_of_lt (by omega)] at hzero
    omega

/-- The slots of `ring` behind the cursor `p`, the nearest first, hold the list `w`. -/
structure Behind (ring : List α) (p : ℕ) (w : List α) : Prop where
  length : ring.length = w.length
  slot : ∀ j < w.length, ring[(p + w.length - 1 - j) % w.length]? = w[j]?

namespace Behind

variable {ring w : List α} {p : ℕ}

/-- Only the remainder of the cursor counts. -/
theorem congr (h : Behind ring p w) {p' : ℕ} (hp : p' % w.length = p % w.length) :
    Behind ring p' w where
  length := h.length
  slot j hj := by
    have hshift : ∀ q, q + w.length - 1 - j = q + (w.length - 1 - j) := fun q => by omega
    rw [← h.slot j hj, hshift, hshift, Nat.add_mod, hp, ← Nat.add_mod]

/-- The slot a push writes to holds the last entry. -/
theorem oldest (h : Behind ring p w) (hw : w ≠ []) : ring[p % w.length]? = w.getLast? := by
  have hpos := List.length_pos_iff.mpr hw
  have hslot := h.slot (w.length - 1) (by omega)
  rw [show p + w.length - 1 - (w.length - 1) = p from by omega] at hslot
  rw [hslot, List.getLast?_eq_getElem?]

/-- The slot a pop clears holds the first entry. -/
theorem newest (h : Behind ring p w) (hw : w ≠ []) :
    ring[(p + w.length - 1) % w.length]? = w.head? := by
  have hslot := h.slot 0 (List.length_pos_iff.mpr hw)
  rwa [Nat.sub_zero, ← List.head?_eq_getElem?] at hslot

theorem push (h : Behind ring p w) (hw : w ≠ []) (x : α) :
    Behind (ring.set (p % w.length) x) (p + 1) (x :: w.dropLast) := by
  have hpos := List.length_pos_iff.mpr hw
  have hlen : (x :: w.dropLast).length = w.length := by
    rw [List.length_cons, List.length_dropLast]
    omega
  refine ⟨by rw [List.length_set, hlen, h.length], ?_⟩
  rw [hlen]
  intro j hj
  cases j with
  | zero =>
    rw [show p + 1 + w.length - 1 - 0 = p + w.length from by omega, Nat.add_mod_right,
      List.getElem?_set_self (by rw [h.length]; exact Nat.mod_lt _ hpos)]
    rfl
  | succ j =>
    have hne : p % w.length ≠ (p + 1 + w.length - 1 - (j + 1)) % w.length := by
      intro heq
      have hsame : (p + w.length) % w.length = (p + 1 + w.length - 1 - (j + 1)) % w.length := by
        rw [Nat.add_mod_right, heq]
      have := eq_of_mod_eq hsame (by omega) (by omega)
      omega
    rw [List.getElem?_set_ne hne, show p + 1 + w.length - 1 - (j + 1) = p + w.length - 1 - j from by
      omega, h.slot j (by omega), List.getElem?_cons_succ, List.getElem?_dropLast, if_pos (by omega)]

theorem pop (h : Behind ring p w) (hw : w ≠ []) (x : α) :
    Behind (ring.set ((p + w.length - 1) % w.length) x) (p + w.length - 1) (w.tail ++ [x]) := by
  have hpos := List.length_pos_iff.mpr hw
  have hlen : (w.tail ++ [x]).length = w.length := by
    rw [List.length_append, List.length_tail, List.length_singleton]
    omega
  refine ⟨by rw [List.length_set, hlen, h.length], ?_⟩
  rw [hlen]
  intro j hj
  by_cases hlast : j = w.length - 1
  · subst hlast
    rw [show p + w.length - 1 + w.length - 1 - (w.length - 1) = p + w.length - 1 from by omega,
      List.getElem?_set_self (by rw [h.length]; exact Nat.mod_lt _ hpos),
      List.getElem?_append_right (Nat.le_of_eq List.length_tail), List.length_tail, Nat.sub_self]
    rfl
  · have hslot := h.slot (j + 1) (by omega)
    have hshift : (p + w.length - 1 + w.length - 1 - j) % w.length =
        (p + w.length - 1 - (j + 1)) % w.length := by
      rw [show p + w.length - 1 + w.length - 1 - j = p + w.length - 1 - (j + 1) + w.length from by
        omega, Nat.add_mod_right]
    have hne : (p + w.length - 1) % w.length ≠ (p + w.length - 1 + w.length - 1 - j) % w.length := by
      intro heq
      rw [hshift] at heq
      have := eq_of_mod_eq heq (by omega) (by omega)
      omega
    rw [List.getElem?_set_ne hne, hshift, hslot, List.getElem?_append_left (by
      rw [List.length_tail]; omega), List.getElem?_tail]

/-- Read backwards or forwards, the ring holds the same entries. -/
theorem perm (h : Behind ring p w) : ring.Perm w := by
  have hslots : ((List.range w.length).map fun j => (p + w.length - 1 - j) % w.length).Perm
      (List.range w.length) := by
    refine List.Subperm.perm_of_length_le (List.subperm_of_subset ?_ fun k hk => ?_) (by simp)
    · refine List.Nodup.map_on (fun i hi j hj heq => ?_) List.nodup_range
      rw [List.mem_range] at hi hj
      have := eq_of_mod_eq heq (by omega) (by omega)
      omega
    · obtain ⟨j, hj, rfl⟩ := List.mem_map.mp hk
      rw [List.mem_range] at hj ⊢
      exact Nat.mod_lt _ (by omega)
  have hring : (List.range w.length).map (fun k => ring[k]?) = ring.map some := by
    rw [← h.length]
    apply List.ext_getElem
    · simp
    · intro k hk hk'
      simp
  have hback : (List.range w.length).map (fun j => ring[(p + w.length - 1 - j) % w.length]?) =
      w.map some := by
    apply List.ext_getElem
    · simp
    · intro j hj hj'
      rw [List.length_map] at hj'
      rw [List.getElem_map, List.getElem_range, List.getElem_map, h.slot j hj',
        List.getElem?_eq_getElem hj']
  have hmap := hslots.map fun k => ring[k]?
  rw [List.map_map, hring] at hmap
  have hinj : Function.Injective (some : α → Option α) := fun a b heq => Option.some.inj heq
  rw [← List.map_perm_map_iff hinj, ← hback]
  exact hmap.symm

end Behind

/-! ### The stack -/

/-- The calls of a stack. -/
inductive Call (α : Type*) where
  | push (x : α)
  | pop
  deriving DecidableEq, Repr

/-- What a call brings out: the entry that was popped, and the entries dropped to make room. -/
structure Answer (α : Type*) where
  popped : Option α
  dropped : List α
  deriving DecidableEq, Repr

/-- What a stack of at most `n` entries, the newest first, answers to a call and keeps after it. -/
def answer (n : ℕ) : List α → Call α → Answer α × List α
  | s, .push x =>
    ({ popped := none, dropped := if s.length < n then [] else s.getLast?.toList }, (x :: s).take n)
  | s, .pop => ({ popped := s.head?, dropped := [] }, s.tail)

theorem answer_length_le {n : ℕ} {s : List α} (hs : s.length ≤ n) (c : Call α) :
    (answer n s c).2.length ≤ n := by
  cases c with
  | push x =>
    show ((x :: s).take n).length ≤ n
    rw [List.length_take]
    exact Nat.min_le_left _ _
  | pop =>
    show s.tail.length ≤ n
    rw [List.length_tail]
    omega

theorem take_push_of_lt {n : ℕ} {s : List α} (hs : s.length < n) (x : α) :
    (x :: s).take n = x :: s := by
  rw [List.take_of_length_le]
  rw [List.length_cons]
  omega

theorem take_push_of_full {n : ℕ} (hn : 0 < n) {s : List α} (hs : s.length = n) (x : α) :
    (x :: s).take n = x :: s.dropLast := by
  rw [← hs, List.dropLast_eq_take]
  cases s with
  | nil => exact absurd hs (by rw [List.length_nil]; omega)
  | cons y s => rfl

/-- A push keeps or drops each entry and the new one. -/
theorem answer_push_perm {n : ℕ} (hn : 0 < n) {s : List α} (hs : s.length ≤ n) (x : α) :
    ((answer n s (.push x)).2 ++ (answer n s (.push x)).1.dropped).Perm (x :: s) := by
  show ((x :: s).take n ++ if s.length < n then [] else s.getLast?.toList).Perm (x :: s)
  rcases Nat.lt_or_eq_of_le hs with hlt | heq
  · rw [take_push_of_lt hlt, if_pos hlt, List.append_nil]
  · have hne : s ≠ [] := List.ne_nil_of_length_pos (by omega)
    rw [take_push_of_full hn heq, if_neg (by omega), List.getLast?_eq_some_getLast hne,
      Option.toList_some, List.cons_append, List.dropLast_concat_getLast]

/-- Every entry after a call was there before it or is the one pushed. -/
theorem mem_answer {n : ℕ} {s : List α} {c : Call α} {y : α} (hy : y ∈ (answer n s c).2) :
    y ∈ s ∨ c = .push y := by
  cases c with
  | push x =>
    rcases List.mem_cons.mp (List.mem_of_mem_take hy) with rfl | hmem
    · exact Or.inr rfl
    · exact Or.inl hmem
  | pop => exact Or.inl (List.mem_of_mem_tail hy)

/-- The entries of a stack of at most `n`, with the mark `d` for each place that is free. -/
def pad (n : ℕ) (d : α) (s : List α) : List α := s ++ List.replicate (n - s.length) d

theorem length_pad {n : ℕ} {d : α} {s : List α} (hs : s.length ≤ n) : (pad n d s).length = n := by
  rw [pad, List.length_append, List.length_replicate]
  omega

theorem pad_ne_nil {n : ℕ} (hn : 0 < n) {d : α} {s : List α} (hs : s.length ≤ n) :
    pad n d s ≠ [] := by
  apply List.ne_nil_of_length_pos
  rwa [length_pad hs]

/-- A push on a padded stack: its last place goes, whether free or not. -/
theorem pad_push {n : ℕ} (hn : 0 < n) {d : α} {s : List α} (hs : s.length ≤ n) (x : α) :
    x :: (pad n d s).dropLast = pad n d ((x :: s).take n) := by
  rcases Nat.lt_or_eq_of_le hs with hlt | heq
  · have hfree : List.replicate (n - s.length) d = List.replicate (n - s.length - 1) d ++ [d] := by
      rw [← List.replicate_succ']
      congr 1
      omega
    rw [take_push_of_lt hlt, pad, pad, hfree, ← List.append_assoc, List.dropLast_concat, List.length_cons,
      Nat.sub_sub, List.cons_append]
  · have hall : pad n d s = s := by
      rw [pad, heq, Nat.sub_self, List.replicate_zero, List.append_nil]
    have hlen : (x :: s.dropLast).length = n := by
      rw [List.length_cons, List.length_dropLast]
      omega
    rw [hall, take_push_of_full hn heq, pad, hlen, Nat.sub_self, List.replicate_zero, List.append_nil]

/-- A pop of a padded stack: its first place goes and a free one comes. -/
theorem pad_pop {n : ℕ} (hn : 0 < n) {d : α} {s : List α} (hs : s.length ≤ n) :
    (pad n d s).tail ++ [d] = pad n d s.tail := by
  cases s with
  | nil =>
    have hfree : List.replicate n d = d :: List.replicate (n - 1) d := by
      rw [← List.replicate_succ]
      congr 1
      omega
    rw [pad, List.tail_nil, pad, List.nil_append, List.length_nil, Nat.sub_zero, hfree,
      List.tail_cons, ← List.replicate_succ', ← List.replicate_succ]
  | cons y s =>
    rw [List.length_cons] at hs
    have hfree : List.replicate (n - (s.length + 1)) d ++ [d] = List.replicate (n - s.length) d := by
      rw [← List.replicate_succ']
      congr 1
      omega
    rw [pad, List.cons_append, List.tail_cons, List.tail_cons, pad, List.length_cons,
      List.append_assoc, hfree]

namespace Behind

variable {ring s : List α} {n p : ℕ} {d : α}

/-- The slot a push writes to: the oldest entry of a full stack, and else a free place. -/
theorem stack_oldest (hn : 0 < n) (hs : s.length ≤ n) (h : Behind ring p (pad n d s)) :
    ring[p % n]? = if s.length < n then some d else s.getLast? := by
  have hold := h.oldest (pad_ne_nil hn hs)
  rw [length_pad hs] at hold
  rw [hold]
  split
  next hlt =>
    rw [pad, List.getLast?_append_of_ne_nil, List.getLast?_replicate, if_neg (by omega)]
    intro hnil
    have := congrArg List.length hnil
    rw [List.length_replicate, List.length_nil] at this
    omega
  next hge =>
    rw [pad, Nat.sub_eq_zero_of_le (by omega), List.replicate_zero, List.append_nil]

/-- The slot a pop clears: the newest entry, or a free place. -/
theorem stack_newest (hn : 0 < n) (hs : s.length ≤ n) (h : Behind ring p (pad n d s)) :
    ring[(p + n - 1) % n]? = some (s.head?.getD d) := by
  have hnew := h.newest (pad_ne_nil hn hs)
  rw [length_pad hs] at hnew
  rw [hnew]
  cases s with
  | nil =>
    rw [pad, List.nil_append, List.length_nil, Nat.sub_zero, List.head?_replicate,
      if_neg (by omega)]
    rfl
  | cons y s => rfl

theorem stack_pop (hn : 0 < n) (hs : s.length ≤ n) (h : Behind ring p (pad n d s)) :
    Behind (ring.set ((p + n - 1) % n) d) (p + n - 1) (pad n d s.tail) := by
  have hpop := h.pop (pad_ne_nil hn hs) d
  rwa [length_pad hs, pad_pop hn hs] at hpop

end Behind

end WaterNet.Lib.Stack
