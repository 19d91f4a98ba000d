import Mathlib.Algebra.Group.Nat.Defs
import Mathlib.Data.List.Induction
import WaterNet.Lib.Stack
import WaterNet.Queue.Link

/-!
# The pointer cache is a bounded stack (`queue.rs`)

`PointerCache` keeps no count: its one cursor is moved on by a push and back by a pop, also by a
pop that finds nothing, and wraps modulo `2^64`.  As the number of slots divides `2^64`, the slots
behind the cursor always hold the entries in the order of their pushes, and null behind them.

* `evicted`, `push_eq` — what a push deallocates;
* `drop` — the loop of the destructor, which pushes a null pointer for every slot;
* `Holds` — the cache holds a stack; `Holds.pushed`, `Holds.popped` — a call keeps that;
* `cache_eq_stack` — **the cache answers as a stack of `2 ^ bsize` entries does**, it deallocates
  what that stack drops, and its destructor what is left in it.
-/

namespace WaterNet.Queue

open WaterNet.Lib (exec answers InputsMeet exec_eq_of_simulation exec_cons_eq_some)
open WaterNet.Lib.Stack (Call Answer answer Behind pad pad_ne_nil length_pad)

variable {α : Type*}

/-- The heap after `deallocate` of some cells. -/
def Cells.free (cells : Cells α) (ps : List Ptr) : Cells α :=
  fun p => if p ∈ ps then none else cells p

theorem Cells.free_nil (cells : Cells α) : cells.free [] = cells := by
  funext p
  exact if_neg List.not_mem_nil

theorem Cells.free_free (cells : Cells α) (ps qs : List Ptr) :
    (cells.free ps).free qs = cells.free (ps ++ qs) := by
  funext p
  simp only [Cells.free, List.mem_append]
  by_cases hq : p ∈ qs
  · rw [if_pos hq, if_pos (Or.inr hq)]
  · simp only [hq, or_false, if_false]

namespace PointerCache

/-- The cell that the next push deallocates: what the slot holds that it writes to. -/
def evicted (c : PointerCache) : List Ptr :=
  let old := c.block.getD c.pushPos.1 0
  if old ≠ 0 then [old] else []

theorem free_evicted (cells : Cells α) (old : Ptr) :
    (if old ≠ 0 then Function.update cells old none else cells) =
      cells.free (if old ≠ 0 then [old] else []) := by
  by_cases hold : old = 0
  · rw [if_neg (not_not.mpr hold), if_neg (not_not.mpr hold), Cells.free_nil]
  · rw [if_pos hold, if_pos hold]
    funext p
    simp only [Cells.free, List.mem_singleton, Function.update_apply]

theorem push_eq (c : PointerCache) (cells : Cells α) (new : Ptr) :
    c.push cells new =
      ({ c with block := c.block.set (c.pos &&& c.mask).toNat new, pos := c.pos + 1 },
        cells.free c.evicted) :=
  Prod.ext rfl (free_evicted cells _)

theorem pop_eq (c : PointerCache) :
    c.pop = (c.block.getD ((c.pos - 1) &&& c.mask).toNat 0,
      { c with block := c.block.set ((c.pos - 1) &&& c.mask).toNat 0, pos := c.pos - 1 }) := rfl

/-- What the slots hold. -/
def stored (c : PointerCache) : List Ptr := c.block.filter (· ≠ 0)

/-- The loop of `drop`: the cells that pushes of null pointers deallocate. -/
def dropLoop : ℕ → PointerCache → Cells α → List Ptr × PointerCache × Cells α
  | 0, c, cells => ([], c, cells)
  | n + 1, c, cells =>
    let (c', cells') := c.push cells 0
    let (freed, rest) := dropLoop n c' cells'
    (c.evicted ++ freed, rest)

/-- `PointerCache::drop`, up to the deallocation of the block. -/
def drop (c : PointerCache) (cells : Cells α) : List Ptr × PointerCache × Cells α :=
  dropLoop (c.mask + 1).toNat c cells

/-- A call of a cache, what it returns and what it deallocates. -/
def call (s : PointerCache × Cells α) :
    Call Ptr → Option (Answer Ptr × (PointerCache × Cells α))
  | .push new => some ({ popped := none, dropped := s.1.evicted }, s.1.push s.2 new)
  | .pop =>
    let (old, c) := s.1.pop
    some ({ popped := if old ≠ 0 then some old else none, dropped := [] }, (c, s.2))

/-! ### The cursor -/

section Cursor

variable {b : ℕ} {pos mask : UInt64}

theorem and_mask_toNat (hmask : mask.toNat = 2 ^ b - 1) :
    (pos &&& mask).toNat = pos.toNat % 2 ^ b := by
  rw [UInt64.toNat_and, hmask, Nat.and_two_pow_sub_one_eq_mod]

/-- The ring's size divides `2^64`, so wrapping does not move the slot. -/
theorem mod_two_pow (hb : b < 64) (n : ℕ) : n % 2 ^ 64 % 2 ^ b = n % 2 ^ b :=
  Nat.mod_mod_of_dvd n (Nat.pow_dvd_pow 2 (by omega))

theorem add_one_mod (hb : b < 64) : (pos + 1).toNat % 2 ^ b = (pos.toNat + 1) % 2 ^ b := by
  rw [UInt64.toNat_add, UInt64.toNat_one, mod_two_pow hb]

theorem sub_one_mod (hb : b < 64) :
    (pos - 1).toNat % 2 ^ b = (pos.toNat + 2 ^ b - 1) % 2 ^ b := by
  have hpos : 0 < 2 ^ b := Nat.pow_pos (by decide)
  have hle : 2 ^ b ≤ 2 ^ 64 := Nat.pow_le_pow_right (by decide) (by omega)
  have hdvd : 2 ^ b ∣ 2 ^ 64 - 2 ^ b := Nat.dvd_sub (Nat.pow_dvd_pow 2 (by omega)) (Nat.dvd_refl _)
  obtain ⟨k, hk⟩ := hdvd
  rw [UInt64.toNat_sub, UInt64.toNat_one, mod_two_pow hb,
    show 2 ^ 64 - 1 + pos.toNat = pos.toNat + 2 ^ b - 1 + 2 ^ b * k from by omega,
    Nat.add_mul_mod_self_left]

/-- The mask of `new`. -/
theorem new_mask {bsize : UInt64} (hb : bsize.toNat < 64) :
    (new bsize).mask.toNat = 2 ^ bsize.toNat - 1 := by
  have hle : 2 ^ bsize.toNat ≤ 2 ^ 63 := Nat.pow_le_pow_right (by decide) (by omega)
  have hpos : 0 < 2 ^ bsize.toNat := Nat.pow_pos (by decide)
  have hones : (~~~(0 : UInt64)).toNat = 2 ^ 64 - 1 := by decide
  have hshift : (~~~(0 : UInt64) <<< bsize).toNat = 2 ^ 64 - 2 ^ bsize.toNat := by
    rw [UInt64.toNat_shiftLeft, hones, Nat.mod_eq_of_lt hb, Nat.shiftLeft_eq]
    have hsplit : (2 ^ 64 - 1) * 2 ^ bsize.toNat =
        2 ^ 64 - 2 ^ bsize.toNat + 2 ^ 64 * (2 ^ bsize.toNat - 1) := by
      rw [Nat.mul_sub_one, Nat.sub_one_mul]
      omega
    rw [hsplit, Nat.add_mul_mod_self_left, Nat.mod_eq_of_lt (by omega)]
  show (~~~(~~~(0 : UInt64) <<< bsize)).toNat = _
  rw [UInt64.toNat_not, hshift]
  show 2 ^ 64 - 1 - (2 ^ 64 - 2 ^ bsize.toNat) = _
  omega

end Cursor

/-! ### The stack in the cache -/

/-- The cache, of `2 ^ b` slots, holds the entries `s`, the newest first. -/
structure Holds (b : ℕ) (c : PointerCache) (s : List Ptr) : Prop where
  mask : c.mask.toNat = 2 ^ b - 1
  behind : Behind c.block c.pos.toNat (pad (2 ^ b) 0 s)
  length_le : s.length ≤ 2 ^ b
  nonnull : ∀ p ∈ s, p ≠ 0

section Holds

variable {b : ℕ} {c : PointerCache} {s : List Ptr}

theorem new_holds {bsize : UInt64} (hb : bsize.toNat < 64) : (new bsize).Holds bsize.toNat [] where
  mask := new_mask hb
  behind := by
    have hpos : 0 < 2 ^ bsize.toNat := Nat.pow_pos (by decide)
    have hblock : (new bsize).block = pad (2 ^ bsize.toNat) 0 [] := by
      show List.replicate ((new bsize).mask.toNat + 1) 0 = _
      rw [new_mask hb, pad, List.nil_append, List.length_nil]
      congr 1
      omega
    rw [hblock]
    refine ⟨rfl, fun j hj => ?_⟩
    rw [pad, List.nil_append, List.length_replicate] at hj ⊢
    rw [List.getElem?_replicate_of_lt hj, List.getElem?_replicate_of_lt (Nat.mod_lt _ (by omega))]
  length_le := Nat.zero_le _
  nonnull p hp := absurd hp List.not_mem_nil

theorem filter_pad (n : ℕ) (hs : ∀ p ∈ s, p ≠ 0) : (pad n 0 s).filter (· ≠ 0) = s := by
  rw [pad, List.filter_append, List.filter_replicate,
    List.filter_eq_self.mpr fun p hp => decide_eq_true (hs p hp)]
  simp

/-- The slots hold the entries of the stack, each in one slot. -/
theorem Holds.stored_perm (h : c.Holds b s) : c.stored.Perm s := by
  have hperm := h.behind.perm.filter (· ≠ 0)
  rwa [filter_pad _ h.nonnull] at hperm

/-- The block that a push leaves holds the stack with its entry, a null one included. -/
theorem behind_push (hb : b < 64) (hmask : c.mask.toNat = 2 ^ b - 1) {w : List Ptr}
    (hw : w.length = 2 ^ b) (h : Behind c.block c.pos.toNat w) (new : Ptr) :
    Behind (c.block.set (c.pos &&& c.mask).toNat new) (c.pos + 1).toNat (new :: w.dropLast) := by
  have hpos : 0 < 2 ^ b := Nat.pow_pos (by decide)
  have hlen : (new :: w.dropLast).length = 2 ^ b := by
    rw [List.length_cons, List.length_dropLast]
    omega
  have hpush := h.push (List.ne_nil_of_length_pos (by omega)) new
  rw [and_mask_toNat hmask, ← hw]
  exact hpush.congr (by rw [hlen, add_one_mod hb])

theorem evicted_eq {old : Ptr} (hslot : c.block[(c.pos &&& c.mask).toNat]? = some old) :
    c.evicted = if old ≠ 0 then [old] else [] := by
  have hget : c.block.getD (c.pos &&& c.mask).toNat 0 = old := by
    rw [List.getD_eq_getElem?_getD, hslot, Option.getD_some]
  simp only [evicted, pushPos, hget]

/-- A push deallocates what the full stack drops. -/
theorem Holds.evicted (h : c.Holds b s) (new : Ptr) :
    c.evicted = (answer (2 ^ b) s (.push new)).1.dropped := by
  have hpos : 0 < 2 ^ b := Nat.pow_pos (by decide)
  have hold := h.behind.stack_oldest hpos h.length_le
  rw [← and_mask_toNat h.mask] at hold
  show _ = if s.length < 2 ^ b then [] else s.getLast?.toList
  by_cases hlt : s.length < 2 ^ b
  · rw [if_pos hlt] at hold ⊢
    rw [evicted_eq hold]
    rfl
  · rw [if_neg hlt] at hold ⊢
    have hlen := h.length_le
    obtain ⟨old, hlast⟩ : ∃ old, s.getLast? = some old :=
      ⟨_, List.getLast?_eq_some_getLast (List.ne_nil_of_length_pos (by omega))⟩
    rw [hlast] at hold ⊢
    rw [evicted_eq hold, if_pos (h.nonnull old (List.mem_of_getLast? hlast))]
    rfl

theorem Holds.pushed (hb : b < 64) (h : c.Holds b s) {new : Ptr} (hnew : new ≠ 0)
    (cells : Cells α) : (c.push cells new).1.Holds b (answer (2 ^ b) s (.push new)).2 := by
  have hpos : 0 < 2 ^ b := Nat.pow_pos (by decide)
  rw [push_eq]
  refine ⟨h.mask, ?_, Lib.Stack.answer_length_le h.length_le _, fun p hp => ?_⟩
  · have hpush := behind_push hb h.mask (length_pad h.length_le) h.behind new
    rwa [Lib.Stack.pad_push hpos h.length_le] at hpush
  · rcases Lib.Stack.mem_answer hp with hmem | heq
    · exact h.nonnull p hmem
    · cases heq
      exact hnew

/-- A pop takes the newest entry, and from an empty stack nothing. -/
theorem Holds.pop_fst (h : c.Holds b s) (hb : b < 64) :
    (if c.pop.1 ≠ 0 then some c.pop.1 else none) = s.head? := by
  have hpos : 0 < 2 ^ b := Nat.pow_pos (by decide)
  have hnew := h.behind.stack_newest hpos h.length_le
  have hslot : ((c.pos - 1) &&& c.mask).toNat = (c.pos.toNat + 2 ^ b - 1) % 2 ^ b := by
    rw [and_mask_toNat h.mask, sub_one_mod hb]
  have hpop : c.pop.1 = s.head?.getD 0 := by
    rw [pop_eq]
    show c.block.getD _ 0 = _
    rw [hslot, List.getD_eq_getElem?_getD, hnew, Option.getD_some]
  rw [hpop]
  cases hs : s with
  | nil => rfl
  | cons y s' =>
    have hy : y ≠ 0 := h.nonnull y (by rw [hs]; exact List.mem_cons_self)
    exact if_pos hy

theorem Holds.popped (h : c.Holds b s) (hb : b < 64) :
    c.pop.2.Holds b (answer (2 ^ b) s .pop).2 := by
  have hpos : 0 < 2 ^ b := Nat.pow_pos (by decide)
  rw [pop_eq]
  refine ⟨h.mask, ?_, Lib.Stack.answer_length_le h.length_le _, fun p hp => ?_⟩
  · have hpop := h.behind.stack_pop hpos h.length_le
    have hslot : ((c.pos - 1) &&& c.mask).toNat = (c.pos.toNat + 2 ^ b - 1) % 2 ^ b := by
      rw [and_mask_toNat h.mask, sub_one_mod hb]
    show Behind (c.block.set ((c.pos - 1) &&& c.mask).toNat 0) (c.pos - 1).toNat
      (pad (2 ^ b) 0 s.tail)
    rw [hslot]
    refine hpop.congr ?_
    rw [length_pad (by rw [List.length_tail]; exact Nat.le_trans (Nat.sub_le _ _) h.length_le),
      sub_one_mod hb]
  · exact h.nonnull p (List.mem_of_mem_tail hp)

/-! ### The destructor -/

/-- The pushes of null pointers run through the slots from the oldest entry to the newest. -/
theorem dropLoop_behind (hb : b < 64) (u : List Ptr) (k : ℕ) (c : PointerCache) (cells : Cells α)
    (hmask : c.mask.toNat = 2 ^ b - 1) (hlen : k + u.length = 2 ^ b)
    (h : Behind c.block c.pos.toNat (List.replicate k 0 ++ u)) :
    (dropLoop u.length c cells).1 = u.reverse.filter (· ≠ 0) ∧
      (dropLoop u.length c cells).2.2 = cells.free (u.reverse.filter (· ≠ 0)) := by
  induction u using List.reverseRecOn generalizing k c cells with
  | nil => exact ⟨rfl, (Cells.free_nil cells).symm⟩
  | append_singleton u x ih =>
    have hw : (List.replicate k 0 ++ (u ++ [x])).length = 2 ^ b := by
      rw [List.length_append, List.length_replicate, hlen]
    have hne : List.replicate k 0 ++ (u ++ [x]) ≠ [] := by simp
    have hold := h.oldest hne
    rw [hw, ← and_mask_toNat hmask, ← List.append_assoc, List.getLast?_concat] at hold
    have hpush := behind_push hb hmask hw h 0
    rw [← List.append_assoc, List.dropLast_concat, ← List.cons_append, ← List.replicate_succ]
      at hpush
    have hlen' : k + 1 + u.length = 2 ^ b := by
      rw [List.length_append, List.length_singleton] at hlen
      omega
    obtain ⟨hfreed, hcells⟩ := ih (k + 1) (c.push cells 0).1 (c.push cells 0).2
      (by rw [push_eq]; exact hmask) hlen' (by rw [push_eq]; exact hpush)
    have hreverse : (u ++ [x]).reverse.filter (· ≠ 0) =
        c.evicted ++ u.reverse.filter (· ≠ 0) := by
      rw [List.reverse_append, List.reverse_singleton, List.singleton_append, evicted_eq hold,
        List.filter_cons]
      by_cases hx : x = 0
      · simp [hx]
      · simp [hx]
    rw [List.length_append, List.length_singleton, hreverse]
    constructor
    · exact congrArg (c.evicted ++ ·) hfreed
    · refine hcells.trans ?_
      rw [push_eq]
      exact Cells.free_free cells c.evicted _

/-- **The destructor** deallocates exactly the entries of the stack, from the oldest on. -/
theorem Holds.drop_eq (h : c.Holds b s) (hb : b < 64) (cells : Cells α) :
    (c.drop cells).1 = s.reverse ∧ (c.drop cells).2.2 = cells.free s.reverse := by
  have hpos : 0 < 2 ^ b := Nat.pow_pos (by decide)
  have hle : 2 ^ b ≤ 2 ^ 63 := Nat.pow_le_pow_right (by decide) (by omega)
  have hcount : (c.mask + 1).toNat = (pad (2 ^ b) 0 s).length := by
    rw [length_pad h.length_le, UInt64.toNat_add, h.mask, UInt64.toNat_one,
      Nat.mod_eq_of_lt (by omega)]
    omega
  have hentries : (pad (2 ^ b) 0 s).reverse.filter (· ≠ 0) = s.reverse := by
    rw [List.filter_reverse, filter_pad _ h.nonnull]
  have hloop := dropLoop_behind hb (pad (2 ^ b) 0 s) 0 c cells h.mask
    (by rw [Nat.zero_add, length_pad h.length_le]) h.behind
  rw [hentries, ← hcount] at hloop
  exact hloop

end Holds

/-! ### Runs -/

theorem call_cells {x y : PointerCache × Cells α} {i : Call Ptr} {o : Answer Ptr}
    (h : call x i = some (o, y)) : y.2 = x.2.free o.dropped := by
  cases i with
  | push new =>
    cases h
    rw [push_eq]
  | pop =>
    cases h
    exact (Cells.free_nil _).symm

/-- The heap after a run lacks what the calls deallocated. -/
theorem exec_cells {x y : PointerCache × Cells α} {is : List (Call Ptr)} {os : List (Answer Ptr)}
    (h : exec call x is = some (os, y)) : y.2 = x.2.free (os.flatMap (·.dropped)) := by
  induction is generalizing x os with
  | nil =>
    cases h
    exact (Cells.free_nil _).symm
  | cons i is ih =>
    obtain ⟨⟨o, x'⟩, hcall, hrest⟩ := Option.bind_eq_some_iff.mp h
    obtain ⟨⟨os', y'⟩, hexec, heq⟩ := Option.bind_eq_some_iff.mp hrest
    cases heq
    rw [ih hexec, call_cells hcall, Cells.free_free, List.flatMap_cons]

/-- One call answers as the stack does and leaves a cache that holds what the stack keeps. -/
theorem call_simulates {b : ℕ} (hb : b < 64) {x : PointerCache × Cells α} {s : List Ptr}
    {i : Call Ptr} (h : x.1.Holds b s) (hi : i ≠ .push 0) :
    ∃ y, call x i = some ((answer (2 ^ b) s i).1, y) ∧ y.1.Holds b (answer (2 ^ b) s i).2 := by
  cases i with
  | push new =>
    have hnew : new ≠ 0 := fun heq => hi (by rw [heq])
    refine ⟨x.1.push x.2 new, ?_, h.pushed hb hnew x.2⟩
    rw [call, h.evicted new]
    rfl
  | pop =>
    refine ⟨(x.1.pop.2, x.2), ?_, h.popped hb⟩
    show some (({ popped := if x.1.pop.1 ≠ 0 then some x.1.pop.1 else none, dropped := [] } :
      Answer Ptr), (x.1.pop.2, x.2)) = _
    rw [h.pop_fst hb]
    rfl

/-- **The cache is a bounded stack.**  From a new cache of `2 ^ bsize` slots, any calls are
answered as the stack answers them; a push deallocates what the stack drops, the oldest entry of a
full one, and the destructor deallocates what the stack still holds, each entry once. -/
theorem cache_eq_stack (bsize : UInt64) (hb : bsize.toNat < 64) (cells : Cells α)
    (is : List (Call Ptr)) (hpush : ∀ i ∈ is, i ≠ .push 0) :
    ∃ c cells', exec call (new bsize, cells) is =
        some ((answers (answer (2 ^ bsize.toNat)) [] is).1, (c, cells')) ∧
      cells' = cells.free
        ((answers (answer (2 ^ bsize.toNat)) [] is).1.flatMap (·.dropped)) ∧
      (c.drop cells').1 = (answers (answer (2 ^ bsize.toNat)) [] is).2.reverse ∧
      (c.drop cells').2.2 =
        cells'.free (answers (answer (2 ^ bsize.toNat)) [] is).2.reverse := by
  have hstep : ∀ (x : PointerCache × Cells α) (s : List Ptr) (i : Call Ptr),
      x.1.Holds bsize.toNat s → i ≠ .push 0 →
        ∃ y, call x i = some ((answer (2 ^ bsize.toNat) s i).1, y) ∧
          y.1.Holds bsize.toNat (answer (2 ^ bsize.toNat) s i).2 :=
    fun x s i h hi => call_simulates hb h hi
  have hstart : (new bsize, cells).1.Holds bsize.toNat [] := new_holds hb
  have hok : InputsMeet (answer (2 ^ bsize.toNat)) (fun _ i => i ≠ .push 0) [] is :=
    InputsMeet.of_mem hpush []
  obtain ⟨⟨c, cells'⟩, hexec, hholds⟩ := exec_eq_of_simulation
    (R := fun (x : PointerCache × Cells α) s => x.1.Holds bsize.toNat s) hstep hstart hok
  exact ⟨c, cells', hexec, exec_cells hexec, hholds.drop_eq hb cells'⟩

/-- Two slots: a pop of the empty cache, three pushes of which the last drops the first entry, and
two more pops. -/
theorem cache_eq_stack_two :
    ∃ c cells', exec call (new 1, (fun _ => none : Cells ℕ)) [.pop, .push 7, .push 8, .push 9, .pop] =
        some ([⟨none, []⟩, ⟨none, []⟩, ⟨none, []⟩, ⟨none, [7]⟩, ⟨some 9, []⟩], (c, cells')) ∧
      (c.drop cells').1 = [8] := by
  obtain ⟨c, cells', hexec, -, hdrop, -⟩ := cache_eq_stack 1 (by decide) (fun _ => none : Cells ℕ)
    [.pop, .push 7, .push 8, .push 9, .pop] (by decide)
  exact ⟨c, cells', hexec, hdrop⟩

end PointerCache

end WaterNet.Queue
