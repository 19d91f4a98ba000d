import Mathlib.Data.Nat.Bitwise
import Mathlib.Data.Nat.ModEq
import WaterNet.Lib.Fifo

/-!
# `SizedRingQueue` called from one thread (`queue.rs`)

The ring is a block of `2 ^ bsize` items, each with a state word: 0 free, 1 being written,
2 written, 3 being read.  `put` and `get` take their item from the cursors `tx` and `rx`, which
only ever count up and are masked; `2 ^ 64` is a multiple of the block's length, so the cursors are
kept as natural numbers.  `len` is an `AtomicUint`.

* `put`, `get` — the two calls, run without interruption;
* `Holds` — the ring holds a list of values: where they are, and that all else is free;
* `put_holds`, `get_holds`, `get_holds_nil` — what each call does to it;
* `ring_fifo` — **the ring is a FIFO** over every sequence of calls in which a get that could be
  answered comes when `rx` has been moved past the oldest value by whole turns of the ring only.
-/

namespace WaterNet.Queue

open Lib
open Lib.Fifo (Call)

variable {α : Type*}

/-- `SizedRingQueueItem`; the value is `none` in memory that was never written. -/
structure SizedRingQueueItem (α : Type*) where
  state : UInt64
  value : Option α

namespace SizedRingQueueItem

/-- `state.compare_and_swap(old, new)`: what it returns, and the item after it. -/
def compareAndSwap (item : SizedRingQueueItem α) (old new : UInt64) :
    UInt64 × SizedRingQueueItem α :=
  (item.state, if item.state = old then { item with state := new } else item)

/-- The spin loop of `put`, which goes round again as long as the swap returns 0; `none` is more
rounds than `fuel`. -/
def spin (item : SizedRingQueueItem α) : ℕ → Option (SizedRingQueueItem α)
  | 0 => none
  | fuel + 1 =>
    let (old, item) := item.compareAndSwap 0 1
    if old == 0 then item.spin fuel else some item

/-- The loop never goes round more than twice: a swap that returns 0 leaves a 1. -/
theorem spin_add_two (item : SizedRingQueueItem α) (fuel : ℕ) :
    item.spin (fuel + 2) = some (if item.state = 0 then { item with state := 1 } else item) := by
  by_cases h : item.state = 0
  · simp [spin, compareAndSwap, h]
  · simp [spin, compareAndSwap, h]

end SizedRingQueueItem

structure SizedRingQueue (α : Type*) where
  block : List (SizedRingQueueItem α)
  mask : ℕ
  len : UInt64
  tx : ℕ
  rx : ℕ

namespace SizedRingQueue

/-- `SizedRingQueue::new`; the mask is `!(!0 << bsize)`. -/
def new (bsize : ℕ) : SizedRingQueue α :=
  let mask := 2 ^ bsize - 1
  { block := List.replicate (mask + 1) { state := 0, value := none }
    mask := mask, len := 0, tx := 0, rx := 0 }

/-- `SizedRingQueue::put`; `none` would be a spin that does not end. -/
def put (q : SizedRingQueue α) (t : α) : Option (SizedRingQueue α) := do
  let pos := q.tx &&& q.mask
  let item ← q.block[pos]?
  let item ← item.spin 2
  let item := { item with value := some t }
  let item := { item with state := 2 }
  some { q with tx := q.tx + 1, block := q.block.set pos item, len := q.len + 1 }

/-- `SizedRingQueue::get`, which is `maybeget(false)`; `none` would be a read of memory that was
never written. -/
def get (q : SizedRingQueue α) : Option (Option α × SizedRingQueue α) := do
  let pos := q.rx &&& q.mask
  let q := { q with rx := q.rx + 1 }
  let item ← q.block[pos]?
  let (old, item) := item.compareAndSwap 2 3
  if old != 2 then some (none, q)
  else do
    let t ← item.value
    let item := { item with state := 0 }
    some (some t, { q with block := q.block.set pos item, len := q.len - 1 })

/-- One call and its answer; a put answers nothing. -/
def call (q : SizedRingQueue α) : Call α → Option (Option α × SizedRingQueue α)
  | .put t => (q.put t).map fun q => (none, q)
  | .get => q.get

/-! ### Positions -/

/-- Masking is counting modulo the length of the block. -/
theorem and_mask (n bsize : ℕ) : n &&& (2 ^ bsize - 1) = n % 2 ^ bsize :=
  Nat.and_two_pow_sub_one_eq_mod n bsize

/-- Fewer than a whole turn apart, two positions share no item. -/
theorem mod_ne_of_lt {d i j n : ℕ} (hij : i < j) (hj : j < i + n) : (d + i) % n ≠ (d + j) % n := by
  intro h
  have hmod : i ≡ j [MOD n] := Nat.ModEq.add_left_cancel' d h
  have hdvd : n ∣ j - i := (Nat.modEq_iff_dvd' (by omega)).mp hmod
  have := Nat.le_of_dvd (by omega) hdvd
  omega

/-! ### What the ring holds -/

/-- After `taken` values have left it, the ring holds the values `pending`, the oldest first, in
the items from position `taken` on, and every other item is free. -/
structure Holds (bsize : ℕ) (q : SizedRingQueue α) (taken : ℕ) (pending : List α) : Prop where
  mask : q.mask = 2 ^ bsize - 1
  length : q.block.length = 2 ^ bsize
  tx : q.tx = taken + pending.length
  len : q.len = UInt64.ofNat pending.length
  written : ∀ i t, pending[i]? = some t →
    q.block[(taken + i) % 2 ^ bsize]? = some { state := 2, value := some t }
  free : ∀ pos < 2 ^ bsize, (∀ i < pending.length, (taken + i) % 2 ^ bsize ≠ pos) →
    ∃ value, q.block[pos]? = some { state := 0, value := value }

theorem new_holds (bsize : ℕ) : Holds bsize (new bsize : SizedRingQueue α) 0 [] where
  mask := rfl
  length := by
    have := Nat.two_pow_pos bsize
    simp only [new, List.length_replicate]
    omega
  tx := rfl
  len := rfl
  written := by
    intro i t h
    cases h
  free := by
    intro pos hpos _
    refine ⟨none, ?_⟩
    show (List.replicate (2 ^ bsize - 1 + 1) _)[pos]? = _
    rw [List.getElem?_replicate, if_pos (by omega)]

/-! ### One call -/

theorem put_eq {q : SizedRingQueue α} {item : SizedRingQueueItem α} (t : α)
    (hitem : q.block[q.tx &&& q.mask]? = some item) :
    q.put t = some { q with
      tx := q.tx + 1
      block := q.block.set (q.tx &&& q.mask) { state := 2, value := some t }
      len := q.len + 1 } := by
  simp only [put, hitem, item.spin_add_two 0, Option.bind_eq_bind, Option.bind_some]

theorem get_eq_some {q : SizedRingQueue α} {t : α}
    (hitem : q.block[q.rx &&& q.mask]? = some { state := 2, value := some t }) :
    q.get = some (some t, { q with
      rx := q.rx + 1
      block := q.block.set (q.rx &&& q.mask) { state := 0, value := some t }
      len := q.len - 1 }) := by
  simp [get, hitem, SizedRingQueueItem.compareAndSwap]

theorem get_eq_none {q : SizedRingQueue α} {value : Option α}
    (hitem : q.block[q.rx &&& q.mask]? = some { state := 0, value := value }) :
    q.get = some (none, { q with rx := q.rx + 1 }) := by
  simp [get, hitem, SizedRingQueueItem.compareAndSwap]

/-- A put into a ring that is not full. -/
theorem put_holds {bsize taken : ℕ} {q : SizedRingQueue α} {pending : List α}
    (h : Holds bsize q taken pending) (hroom : pending.length < 2 ^ bsize) (t : α) :
    ∃ q', q.put t = some q' ∧ q'.rx = q.rx ∧ Holds bsize q' taken (pending ++ [t]) := by
  have hpos : q.tx &&& q.mask = (taken + pending.length) % 2 ^ bsize := by
    rw [h.mask, h.tx, and_mask]
  have hlt := Nat.mod_lt (taken + pending.length) (Nat.two_pow_pos bsize)
  -- the item at `tx` is none of those that hold a value
  have hapart : ∀ i < pending.length,
      (taken + i) % 2 ^ bsize ≠ (taken + pending.length) % 2 ^ bsize := by
    intro i hi
    exact mod_ne_of_lt hi (by omega)
  obtain ⟨value, hitem⟩ := h.free _ hlt hapart
  rw [← hpos] at hitem
  refine ⟨_, put_eq t hitem, rfl, ?_⟩
  rw [hpos]
  constructor
  · exact h.mask
  · simp only [List.length_set]
    exact h.length
  · show q.tx + 1 = taken + (pending ++ [t]).length
    rw [h.tx, List.length_append, List.length_singleton, Nat.add_assoc]
  · show q.len + 1 = UInt64.ofNat (pending ++ [t]).length
    rw [h.len, List.length_append, List.length_singleton, UInt64.ofNat_add]
    rfl
  · intro i x hx
    by_cases hi : i < pending.length
    · rw [List.getElem?_append_left hi] at hx
      rw [List.getElem?_set_ne (hapart i hi).symm]
      exact h.written i x hx
    · rw [List.getElem?_append_right (by omega), List.getElem?_singleton] at hx
      obtain ⟨h0, hx⟩ := Option.ite_none_right_eq_some.mp hx
      have hi : i = pending.length := by omega
      rw [hi, List.getElem?_set_self (by rw [h.length]; exact hlt), ← hx]
  · intro pos hpos hne
    rw [List.length_append, List.length_singleton] at hne
    rw [List.getElem?_set_ne (hne pending.length (by omega))]
    exact h.free pos hpos (fun i hi => hne i (by omega))

/-- A get that finds the oldest value, `rx` being whole turns of the ring past it. -/
theorem get_holds {bsize taken : ℕ} {q : SizedRingQueue α} {t : α} {pending : List α}
    (h : Holds bsize q taken (t :: pending)) (hroom : pending.length < 2 ^ bsize)
    (hrx : q.rx % 2 ^ bsize = taken % 2 ^ bsize) :
    ∃ q', q.get = some (some t, q') ∧ q'.rx = q.rx + 1 ∧ Holds bsize q' (taken + 1) pending := by
  have hpos : q.rx &&& q.mask = taken % 2 ^ bsize := by rw [h.mask, and_mask, hrx]
  have hlt := Nat.mod_lt taken (Nat.two_pow_pos bsize)
  have hitem := h.written 0 t rfl
  rw [Nat.add_zero, ← hpos] at hitem
  have hshift : ∀ i, taken + 1 + i = taken + (i + 1) := by omega
  refine ⟨_, get_eq_some hitem, rfl, ?_⟩
  rw [hpos]
  constructor
  · exact h.mask
  · simp only [List.length_set]
    exact h.length
  · show q.tx = taken + 1 + pending.length
    rw [h.tx, List.length_cons]
    omega
  · show q.len - 1 = UInt64.ofNat pending.length
    rw [h.len, List.length_cons, UInt64.ofNat_add]
    exact UInt64.add_sub_cancel _ _
  · intro i x hx
    have hi : i < pending.length := (List.getElem?_eq_some_iff.mp hx).1
    have hne := mod_ne_of_lt (d := taken) (show 0 < i + 1 by omega)
      (show i + 1 < 0 + 2 ^ bsize by omega)
    rw [Nat.add_zero] at hne
    rw [hshift, List.getElem?_set_ne hne]
    exact h.written (i + 1) x hx
  · intro pos hp hne
    by_cases heq : taken % 2 ^ bsize = pos
    · refine ⟨some t, ?_⟩
      rw [← heq, List.getElem?_set_self (by rw [h.length]; exact hlt)]
    · rw [List.getElem?_set_ne heq]
      refine h.free pos hp (fun i hi => ?_)
      cases i with
      | zero => exact heq
      | succ i =>
        rw [← hshift]
        exact hne i (by rw [List.length_cons] at hi; omega)

/-- A get on an empty ring moves `rx` all the same. -/
theorem get_holds_nil {bsize taken : ℕ} {q : SizedRingQueue α} (h : Holds bsize q taken []) :
    ∃ q', q.get = some (none, q') ∧ q'.rx = q.rx + 1 ∧ Holds bsize q' taken [] := by
  have hlt := Nat.mod_lt q.rx (Nat.two_pow_pos bsize)
  obtain ⟨value, hitem⟩ := h.free _ hlt (fun i hi => absurd hi (Nat.not_lt_zero i))
  rw [← and_mask, ← h.mask] at hitem
  exact ⟨_, get_eq_none hitem, rfl, ⟨h.mask, h.length, h.tx, h.len, h.written, h.free⟩⟩

/-! ### Sequences of calls -/

/-- What an unbounded FIFO holds, and how many gets so far found it empty. -/
structure Polled (α : Type*) where
  pending : List α
  empties : ℕ

/-- The FIFO's answer to a call, with the count of gets on an empty queue. -/
def Polled.answer (s : Polled α) (c : Call α) : Option α × Polled α :=
  let (o, pending) := Fifo.answer s.pending c
  (o, { pending := pending
        empties := if c matches .get then (if o.isNone then s.empties + 1 else s.empties)
          else s.empties })

/-- A put comes while fewer than `2 ^ bsize` values are undelivered. -/
def HasRoom (bsize : ℕ) (pending : List α) : Call α → Prop
  | .put _ => pending.length < 2 ^ bsize
  | .get => True

/-- A put has room, and a get that comes while a value is undelivered comes when the number of
gets that found the queue empty is a multiple of `2 ^ bsize`. -/
def InTurn (bsize : ℕ) (s : Polled α) (c : Call α) : Prop :=
  HasRoom bsize s.pending c ∧ (c matches .get → s.pending.isEmpty ∨ 2 ^ bsize ∣ s.empties)

instance (bsize : ℕ) (pending : List α) (c : Call α) : Decidable (HasRoom bsize pending c) := by
  cases c <;> unfold HasRoom <;> infer_instance

instance (bsize : ℕ) (s : Polled α) (c : Call α) : Decidable (InTurn bsize s c) :=
  inferInstanceAs (Decidable (_ ∧ _))

/-- The ring and the FIFO agree. -/
def Agrees (bsize : ℕ) (q : SizedRingQueue α) (s : Polled α) : Prop :=
  ∃ taken, Holds bsize q taken s.pending ∧ q.rx = taken + s.empties ∧
    s.pending.length ≤ 2 ^ bsize

theorem call_agrees {bsize : ℕ} {q : SizedRingQueue α} {s : Polled α} {c : Call α}
    (h : Agrees bsize q s) (hc : InTurn bsize s c) :
    ∃ q', q.call c = some ((s.answer c).1, q') ∧ Agrees bsize q' (s.answer c).2 := by
  obtain ⟨taken, hholds, hrx, hle⟩ := h
  obtain ⟨pending, empties⟩ := s
  cases c with
  | put t =>
    obtain ⟨q', hput, hrx', hholds'⟩ := put_holds hholds hc.1 t
    refine ⟨q', ?_, taken, hholds', ?_, ?_⟩
    · rw [call, hput]
      rfl
    · rw [hrx', hrx]
      rfl
    · show (pending ++ [t]).length ≤ 2 ^ bsize
      rw [List.length_append, List.length_singleton]
      exact hc.1
  | get =>
    cases pending with
    | nil =>
      obtain ⟨q', hget, hrx', hholds'⟩ := get_holds_nil hholds
      refine ⟨q', hget, taken, hholds', ?_, hle⟩
      rw [hrx', hrx]
      rfl
    | cons t pending =>
      have hdvd : 2 ^ bsize ∣ empties := (hc.2 rfl).resolve_left (by simp)
      have hmod : q.rx % 2 ^ bsize = taken % 2 ^ bsize := by
        rw [hrx]
        obtain ⟨k, rfl⟩ := hdvd
        exact Nat.add_mul_mod_self_left taken (2 ^ bsize) k
      have hroom : pending.length < 2 ^ bsize := hle
      obtain ⟨q', hget, hrx', hholds'⟩ := get_holds hholds hroom hmod
      refine ⟨q', hget, taken + 1, hholds', ?_, ?_⟩
      · rw [hrx', hrx]
        show taken + empties + 1 = taken + 1 + empties
        omega
      · exact Nat.le_of_lt hroom

theorem answers_polled (calls : List (Call α)) (s : Polled α) :
    (answers Polled.answer s calls).1 = (answers Fifo.answer s.pending calls).1 ∧
      (answers Polled.answer s calls).2.pending = (answers Fifo.answer s.pending calls).2 := by
  induction calls generalizing s with
  | nil => exact ⟨rfl, rfl⟩
  | cons c calls ih =>
    obtain ⟨h₁, h₂⟩ := ih (s.answer c).2
    constructor
    · show (s.answer c).1 :: _ = _
      rw [h₁]
      rfl
    · exact h₂

/-- **The ring is a FIFO.**  For every `bsize` and every sequence of calls that is in turn, each
answer is the unbounded FIFO's and `len` is the number of undelivered values. -/
theorem ring_fifo (bsize : ℕ) (calls : List (Call α))
    (hturn : InputsMeet Polled.answer (InTurn bsize) { pending := [], empties := 0 } calls) :
    ∃ q : SizedRingQueue α,
      exec call (new bsize) calls = some ((answers Fifo.answer [] calls).1, q) ∧
      q.len = UInt64.ofNat (answers Fifo.answer [] calls).2.length := by
  have hnew : Agrees bsize (new bsize : SizedRingQueue α) { pending := [], empties := 0 } :=
    ⟨0, new_holds bsize, rfl, Nat.zero_le _⟩
  obtain ⟨q, hexec, taken, hholds, -, -⟩ :=
    exec_eq_of_simulation (fun _ _ _ => call_agrees) hnew hturn
  obtain ⟨h₁, h₂⟩ := answers_polled calls ({ pending := [], empties := 0 } : Polled α)
  refine ⟨q, ?_, ?_⟩
  · rw [hexec, h₁]
  · rw [hholds.len, h₂]

/-- Two turns of polling an empty ring of two items, then values that go around it. -/
def pollingCalls : List (Call ℕ) :=
  [.get, .get, .put 7, .put 8, .get, .put 9, .get, .get, .get, .get, .put 4, .get]

theorem fifo_pollingCalls : InputsMeet Polled.answer (InTurn 1) ⟨[], 0⟩ pollingCalls ∧
    ∃ q : SizedRingQueue ℕ, exec call (new 1) pollingCalls =
        some ([none, none, none, none, some 7, none, some 8, some 9, none, none, none, some 4], q) ∧
      q.len = 0 :=
  ⟨by decide, ring_fifo 1 pollingCalls (by decide)⟩

/-- One get on an empty ring of two items leaves `rx` on the item after the one the put fills. -/
def earlyGetCalls : List (Call ℕ) := [.get, .put 7, .get]

theorem not_fifo : ¬ ∀ (bsize : ℕ) (calls : List (Call ℕ)),
    InputsMeet Fifo.answer (HasRoom bsize) [] calls →
      ∃ q : SizedRingQueue ℕ, exec call (new bsize) calls =
          some ((answers Fifo.answer [] calls).1, q) ∧
        q.len = UInt64.ofNat (answers Fifo.answer [] calls).2.length := by
  intro hall
  obtain ⟨q, hexec, -⟩ := hall 1 earlyGetCalls (by decide)
  have hanswers : (exec call (new 1) earlyGetCalls).map Prod.fst = some [none, none, none] := rfl
  rw [hexec, Option.map_some] at hanswers
  have hfifo : (answers Fifo.answer [] earlyGetCalls).1 = [none, none, none] :=
    Option.some.inj hanswers
  exact absurd hfifo (by decide)

end SizedRingQueue

end WaterNet.Queue
