import Mathlib.Algebra.Group.Int.Defs
import Mathlib.Algebra.Group.Nat.Defs

/-!
# Time stamps (`timespec.rs`)

A `Timespec` is a 64-bit count of seconds and a 32-bit count of nano-seconds; `add` and `sub`
work on the two fields and `unitize` moves whole seconds from the second field to the first.
The additions of either width wrap, and a division truncates.

* `unitizeChecked` — `unitize` with every 32-bit operation made to fail where it overflows;
* `unitize_sec`, `unitize_nsec` — what `unitize` leaves, for every argument but one: a
  nano-second field of exactly one second, which the first comparison lets through;
* `unitize_normalises_iff` — a time stamp is normalised exactly when it is not that one;
* `add_sub_exact_iff` — `add` subtracts the nano-seconds of its second argument, so addition is
  right exactly when there are none; `sub_value` — subtraction is exact.
-/

namespace WaterNet

/-- `time::Timespec`: the seconds and the nano-seconds. -/
structure Timespec where
  sec : Int64
  nsec : Int32
  deriving DecidableEq, Repr

namespace Timespec

/-- The nano-seconds in a second. -/
def NSINSEC : Int64 := 1000000000

/-- The body of the first branch of `unitize`: add to seconds. -/
def carry (a : Timespec) : Timespec :=
  let sectoadd := a.nsec.toInt64 / NSINSEC
  { nsec := a.nsec - (sectoadd * NSINSEC).toInt32
    sec := a.sec + sectoadd }

/-- The body of the second branch of `unitize`: subtract from seconds. -/
def borrow (a : Timespec) : Timespec :=
  let sectotake := a.nsec.toInt64 / -NSINSEC
  let a : Timespec :=
    { nsec := a.nsec + (sectotake * NSINSEC).toInt32
      sec := a.sec - sectotake }
  -- Are we still negative?
  if a.nsec < 0 then { sec := a.sec - 1, nsec := a.nsec + NSINSEC.toInt32 } else a

/-- `timespec::unitize`. -/
def unitize (a : Timespec) : Timespec :=
  let a := if a.nsec > NSINSEC.toInt32 then carry a else a
  if a.nsec < 0 then borrow a else a

/-- `timespec::add`, which takes the difference of the nano-seconds. -/
def add (a b : Timespec) : Timespec :=
  unitize { sec := a.sec + b.sec, nsec := a.nsec - b.nsec }

/-- `timespec::sub`. -/
def sub (a b : Timespec) : Timespec :=
  unitize { sec := a.sec - b.sec, nsec := a.nsec - b.nsec }

/-! ### The 32-bit operations with their overflow check -/

/-- The values of an `i32`. -/
def InI32 (n : ℤ) : Prop := -2 ^ 31 ≤ n ∧ n < 2 ^ 31

instance (n : ℤ) : Decidable (InI32 n) := by unfold InI32; infer_instance

/-- `x as i32`, `none` where the value is cut. -/
def checkedCast (x : Int64) : Option Int32 := if InI32 x.toInt then some x.toInt32 else none

/-- `x + y` on `i32`, `none` where it overflows. -/
def checkedAdd (x y : Int32) : Option Int32 :=
  if InI32 (x.toInt + y.toInt) then some (x + y) else none

/-- `x - y` on `i32`, `none` where it overflows. -/
def checkedSub (x y : Int32) : Option Int32 :=
  if InI32 (x.toInt - y.toInt) then some (x - y) else none

/-- `carry` with its 32-bit operations checked. -/
def carryChecked (a : Timespec) : Option Timespec := do
  let sectoadd := a.nsec.toInt64 / NSINSEC
  let taken ← checkedCast (sectoadd * NSINSEC)
  let nsec ← checkedSub a.nsec taken
  return { nsec := nsec, sec := a.sec + sectoadd }

/-- `borrow` with its 32-bit operations checked. -/
def borrowChecked (a : Timespec) : Option Timespec := do
  let sectotake := a.nsec.toInt64 / -NSINSEC
  let given ← checkedCast (sectotake * NSINSEC)
  let nsec ← checkedAdd a.nsec given
  if nsec < 0 then
    let second ← checkedCast NSINSEC
    let nsec ← checkedAdd nsec second
    return { sec := a.sec - sectotake - 1, nsec := nsec }
  else return { nsec := nsec, sec := a.sec - sectotake }

/-- `unitize` with every 32-bit operation checked. -/
def unitizeChecked (a : Timespec) : Option Timespec := do
  let second ← checkedCast NSINSEC
  let a ← if a.nsec > second then carryChecked a else some a
  if a.nsec < 0 then borrowChecked a else return a

/-! ### The values of the machine operations -/

@[simp] theorem NSINSEC_toInt : NSINSEC.toInt = 1000000000 := rfl

@[simp] theorem neg_NSINSEC_toInt : (-NSINSEC).toInt = -1000000000 := rfl

@[simp] theorem NSINSEC_toInt32_toInt : NSINSEC.toInt32.toInt = 1000000000 := rfl

theorem bmod64_eq {n : ℤ} (h : -2 ^ 63 ≤ n ∧ n < 2 ^ 63) : n.bmod (2 ^ 64) = n :=
  Int.bmod_eq_of_le_mul_two (by omega) (by omega)

theorem bmod32_eq {n : ℤ} (h : InI32 n) : n.bmod (2 ^ 32) = n := by
  have hlo := h.1
  have hhi := h.2
  exact Int.bmod_eq_of_le_mul_two (by omega) (by omega)

theorem inI32_toInt (x : Int32) : InI32 x.toInt := ⟨x.le_toInt, x.toInt_lt⟩

theorem toInt_add_of_inI32 {x y : Int32} (h : InI32 (x.toInt + y.toInt)) :
    (x + y).toInt = x.toInt + y.toInt := by
  rw [Int32.toInt_add, bmod32_eq h]

theorem toInt_sub_of_inI32 {x y : Int32} (h : InI32 (x.toInt - y.toInt)) :
    (x - y).toInt = x.toInt - y.toInt := by
  rw [Int32.toInt_sub, bmod32_eq h]

theorem toInt_cast_of_inI32 {x : Int64} (h : InI32 x.toInt) : x.toInt32.toInt = x.toInt := by
  rw [Int64.toInt_toInt32, bmod32_eq h]

theorem checkedCast_eq {x : Int64} (h : InI32 x.toInt) : checkedCast x = some x.toInt32 :=
  if_pos h

theorem checkedAdd_eq {x y : Int32} (h : InI32 (x.toInt + y.toInt)) :
    checkedAdd x y = some (x + y) :=
  if_pos h

theorem checkedSub_eq {x y : Int32} (h : InI32 (x.toInt - y.toInt)) :
    checkedSub x y = some (x - y) :=
  if_pos h

theorem checkedCast_NSINSEC : checkedCast NSINSEC = some NSINSEC.toInt32 :=
  checkedCast_eq (by decide)

/-! ### The two branches -/

/-- The quotient of the first branch: a truncating division of a positive number. -/
theorem sectoadd_toInt {n : Int32} (hn : 0 ≤ n.toInt) :
    (n.toInt64 / NSINSEC).toInt = n.toInt / 1000000000 := by
  rw [Int64.toInt_div, Int32.toInt_toInt64, NSINSEC_toInt, Int.tdiv_eq_ediv_of_nonneg hn]
  have hhi := n.toInt_lt
  exact bmod64_eq (by omega)

/-- The quotient of the second branch: both numbers are negative. -/
theorem sectotake_toInt {n : Int32} (hn : n.toInt < 0) :
    (n.toInt64 / -NSINSEC).toInt = -n.toInt / 1000000000 := by
  rw [Int64.toInt_div, Int32.toInt_toInt64, neg_NSINSEC_toInt, Int.tdiv_neg, ← Int.neg_tdiv,
    Int.tdiv_eq_ediv_of_nonneg (by omega)]
  have hlo := n.le_toInt
  exact bmod64_eq (by omega)

/-- The seconds moved by either branch, as nano-seconds, are a 32-bit number. -/
theorem moved_toInt {q : Int64} (h : 0 ≤ q.toInt ∧ q.toInt ≤ 2) :
    (q * NSINSEC).toInt = q.toInt * 1000000000 := by
  rw [Int64.toInt_mul, NSINSEC_toInt]
  exact bmod64_eq (by omega)

theorem carry_nsec {a : Timespec} (h : 0 ≤ a.nsec.toInt) :
    (carry a).nsec.toInt = a.nsec.toInt % 1000000000 := by
  have hhi := a.nsec.toInt_lt
  have hq := sectoadd_toInt h
  have hmoved := moved_toInt (q := a.nsec.toInt64 / NSINSEC) (by omega)
  have hcast := toInt_cast_of_inI32 (x := a.nsec.toInt64 / NSINSEC * NSINSEC)
    ⟨by omega, by omega⟩
  show (a.nsec - (a.nsec.toInt64 / NSINSEC * NSINSEC).toInt32).toInt = _
  rw [toInt_sub_of_inI32 ⟨by omega, by omega⟩]
  omega

theorem carry_sec {a : Timespec} (h : 0 ≤ a.nsec.toInt) :
    (carry a).sec.toInt = (a.sec.toInt + a.nsec.toInt / 1000000000).bmod (2 ^ 64) := by
  show (a.sec + a.nsec.toInt64 / NSINSEC).toInt = _
  rw [Int64.toInt_add, sectoadd_toInt h]

theorem carryChecked_eq {a : Timespec} (h : 0 ≤ a.nsec.toInt) :
    carryChecked a = some (carry a) := by
  have hhi := a.nsec.toInt_lt
  have hq := sectoadd_toInt h
  have hmoved := moved_toInt (q := a.nsec.toInt64 / NSINSEC) (by omega)
  have hin : InI32 (a.nsec.toInt64 / NSINSEC * NSINSEC).toInt := ⟨by omega, by omega⟩
  have hcast := toInt_cast_of_inI32 hin
  have hsub : InI32 (a.nsec.toInt - (a.nsec.toInt64 / NSINSEC * NSINSEC).toInt32.toInt) :=
    ⟨by omega, by omega⟩
  simp only [carryChecked]
  rw [checkedCast_eq hin, Option.bind_eq_bind, Option.bind_some, checkedSub_eq hsub]
  rfl

/-- The nano-seconds of `borrow` before it asks whether they are still negative. -/
theorem borrow_first {n : Int32} (h : n.toInt < 0) :
    InI32 (n.toInt64 / -NSINSEC * NSINSEC).toInt ∧
      InI32 (n.toInt + (n.toInt64 / -NSINSEC * NSINSEC).toInt32.toInt) ∧
      (n + (n.toInt64 / -NSINSEC * NSINSEC).toInt32).toInt =
        n.toInt + -n.toInt / 1000000000 * 1000000000 := by
  have hlo := n.le_toInt
  have hq := sectotake_toInt h
  have hmoved := moved_toInt (q := n.toInt64 / -NSINSEC) (by omega)
  have hin : InI32 (n.toInt64 / -NSINSEC * NSINSEC).toInt := ⟨by omega, by omega⟩
  have hcast := toInt_cast_of_inI32 hin
  have hadd : InI32 (n.toInt + (n.toInt64 / -NSINSEC * NSINSEC).toInt32.toInt) :=
    ⟨by omega, by omega⟩
  refine ⟨hin, hadd, ?_⟩
  rw [toInt_add_of_inI32 hadd, hcast, hmoved, hq]

theorem lt_zero_iff (n : Int32) : n < 0 ↔ n.toInt < 0 := by
  rw [Int32.lt_iff_toInt_lt, Int32.toInt_zero]

theorem inI32_of_borrow {n : ℤ} (h : InI32 n) (hneg : n < 0) : InI32 (n + 1000000000) := by
  have hlo := h.1
  exact ⟨by omega, by omega⟩

theorem borrow_nsec {a : Timespec} (h : a.nsec.toInt < 0) :
    (borrow a).nsec.toInt = a.nsec.toInt % 1000000000 := by
  obtain ⟨-, -, hfirst⟩ := borrow_first h
  simp only [borrow, lt_zero_iff]
  split
  next hneg =>
    have hin := inI32_of_borrow (inI32_toInt _) hneg
    rw [toInt_add_of_inI32 (by simpa only [NSINSEC_toInt32_toInt] using hin),
      NSINSEC_toInt32_toInt]
    omega
  next hnonneg =>
    show (a.nsec + (a.nsec.toInt64 / -NSINSEC * NSINSEC).toInt32).toInt = _
    omega

theorem borrow_sec {a : Timespec} (h : a.nsec.toInt < 0) :
    (borrow a).sec.toInt = (a.sec.toInt + a.nsec.toInt / 1000000000).bmod (2 ^ 64) := by
  obtain ⟨-, -, hfirst⟩ := borrow_first h
  have hq := sectotake_toInt h
  simp only [borrow, lt_zero_iff]
  split
  next hneg =>
    rw [Int64.toInt_sub, Int64.toInt_sub, Int64.toInt_one, Int.bmod_sub_bmod, hq]
    congr 1
    omega
  next hnonneg =>
    rw [Int64.toInt_sub, hq]
    congr 1
    omega

theorem borrowChecked_eq {a : Timespec} (h : a.nsec.toInt < 0) :
    borrowChecked a = some (borrow a) := by
  obtain ⟨hin, hadd, -⟩ := borrow_first h
  simp only [borrowChecked, borrow]
  rw [checkedCast_eq hin, Option.bind_eq_bind, Option.bind_some, checkedAdd_eq hadd,
    Option.bind_some]
  by_cases hneg : a.nsec + (a.nsec.toInt64 / -NSINSEC * NSINSEC).toInt32 < 0
  · have hlast := inI32_of_borrow (inI32_toInt _) ((lt_zero_iff _).mp hneg)
    rw [if_pos hneg, if_pos hneg, checkedCast_NSINSEC, Option.bind_some, checkedAdd_eq hlast]
    rfl
  · rw [if_neg hneg, if_neg hneg]
    rfl

/-! ### What `unitize` leaves -/

theorem gt_second_iff (n : Int32) : n > NSINSEC.toInt32 ↔ 1000000000 < n.toInt := by
  show NSINSEC.toInt32 < n ↔ _
  rw [Int32.lt_iff_toInt_lt, NSINSEC_toInt32_toInt]

/-- The three kinds of argument: the one left alone, one that is carried, one that borrows. -/
theorem unitize_cases (a : Timespec) :
    (0 ≤ a.nsec.toInt ∧ a.nsec.toInt ≤ 1000000000 ∧
        unitize a = a ∧ unitizeChecked a = some a) ∨
      (1000000000 < a.nsec.toInt ∧
        unitize a = carry a ∧ unitizeChecked a = some (carry a)) ∨
      (a.nsec.toInt < 0 ∧
        unitize a = borrow a ∧ unitizeChecked a = some (borrow a)) := by
  unfold unitize unitizeChecked
  rw [checkedCast_NSINSEC, Option.bind_eq_bind, Option.bind_some]
  simp only [gt_second_iff]
  by_cases hgt : 1000000000 < a.nsec.toInt
  · have hcarry : ¬ (carry a).nsec < 0 := by
      rw [lt_zero_iff, carry_nsec (by omega)]
      omega
    refine Or.inr (Or.inl ⟨hgt, ?_, ?_⟩)
    · rw [if_pos hgt, if_neg hcarry]
    · rw [if_pos hgt, carryChecked_eq (by omega), Option.bind_eq_bind, Option.bind_some,
        if_neg hcarry, Option.pure_def]
  · by_cases hneg : a.nsec.toInt < 0
    · have hlt : a.nsec < 0 := (lt_zero_iff _).mpr hneg
      refine Or.inr (Or.inr ⟨hneg, ?_, ?_⟩)
      · rw [if_neg hgt, if_pos hlt]
      · rw [if_neg hgt, Option.bind_eq_bind, Option.bind_some, if_pos hlt, borrowChecked_eq hneg]
    · have hlt : ¬ a.nsec < 0 := fun h => hneg ((lt_zero_iff _).mp h)
      refine Or.inl ⟨by omega, by omega, ?_, ?_⟩
      · rw [if_neg hgt, if_neg hlt]
      · rw [if_neg hgt, Option.bind_eq_bind, Option.bind_some, if_neg hlt, Option.pure_def]

theorem unitizeChecked_eq (a : Timespec) : unitizeChecked a = some (unitize a) := by
  obtain ⟨-, -, hval, hchecked⟩ | ⟨-, hval, hchecked⟩ | ⟨-, hval, hchecked⟩ := unitize_cases a
  all_goals rw [hval, hchecked]

theorem unitize_nsec {a : Timespec} (h : a.nsec.toInt ≠ 1000000000) :
    (unitize a).nsec.toInt = a.nsec.toInt % 1000000000 := by
  obtain ⟨hlo, hhi, hval, -⟩ | ⟨hgt, hval, -⟩ | ⟨hneg, hval, -⟩ := unitize_cases a
  · rw [hval]
    omega
  · rw [hval, carry_nsec (by omega)]
  · rw [hval, borrow_nsec hneg]

theorem unitize_sec {a : Timespec} (h : a.nsec.toInt ≠ 1000000000) :
    (unitize a).sec.toInt = (a.sec.toInt + a.nsec.toInt / 1000000000).bmod (2 ^ 64) := by
  obtain ⟨hlo, hhi, hval, -⟩ | ⟨hgt, hval, -⟩ | ⟨hneg, hval, -⟩ := unitize_cases a
  · have hsec := a.sec.le_toInt
    have hsec' := a.sec.toInt_lt
    rw [hval, bmod64_eq (by omega)]
    omega
  · rw [hval, carry_sec (by omega)]
  · rw [hval, borrow_sec hneg]

/-- A normalised time stamp is left alone. -/
theorem unitize_of_normalised {a : Timespec}
    (h : 0 ≤ a.nsec.toInt ∧ a.nsec.toInt ≤ 1000000000) : unitize a = a := by
  obtain ⟨-, -, hval, -⟩ | ⟨hgt, -⟩ | ⟨hneg, -⟩ := unitize_cases a
  · exact hval
  · omega
  · omega

/-! ### Normalisation -/

/-- The time stamp in nano-seconds. -/
def value (a : Timespec) : ℤ := a.sec.toInt * 1000000000 + a.nsec.toInt

/-- The nano-seconds are less than a second and not negative. -/
def Normalised (a : Timespec) : Prop := 0 ≤ a.nsec.toInt ∧ a.nsec.toInt < 1000000000

instance (a : Timespec) : Decidable (Normalised a) := by unfold Normalised; infer_instance

/-- The values of an `i64`. -/
def InI64 (n : ℤ) : Prop := -2 ^ 63 ≤ n ∧ n < 2 ^ 63

instance (n : ℤ) : Decidable (InI64 n) := by unfold InI64; infer_instance

/-- What the comment of `unitize` promises: the value stays, the nano-seconds end below a second
and not negative, no 32-bit operation overflows, and a second call changes nothing. -/
structure IsUnitized (a : Timespec) : Prop where
  value_eq : (unitize a).value = a.value
  normalised : (unitize a).Normalised
  no_overflow : unitizeChecked a = some (unitize a)
  idempotent : unitize (unitize a) = unitize a

theorem value_congr {a : Timespec} {sec nsec : ℤ} (hsec : a.sec.toInt = sec)
    (hnsec : a.nsec.toInt = nsec) : a.value = sec * 1000000000 + nsec := by
  rw [value, hsec, hnsec]

theorem unitize_normalised {a : Timespec} (h : a.nsec.toInt ≠ 1000000000) :
    (unitize a).Normalised := by
  rw [Normalised, unitize_nsec h]
  omega

theorem unitize_value {a : Timespec} (h : a.nsec.toInt ≠ 1000000000)
    (hfit : InI64 (a.sec.toInt + a.nsec.toInt / 1000000000)) : (unitize a).value = a.value := by
  rw [value_congr (unitize_sec h) (unitize_nsec h), bmod64_eq hfit, value]
  omega

/-- **When `unitize` normalises.**  Whenever the adjusted seconds fit their field, all four
promises hold, except for a nano-second field of exactly one second. -/
theorem unitize_normalises_iff (a : Timespec)
    (hfit : InI64 (a.sec.toInt + a.nsec.toInt / 1000000000)) :
    IsUnitized a ↔ a.nsec ≠ NSINSEC.toInt32 := by
  have hne : a.nsec ≠ NSINSEC.toInt32 ↔ a.nsec.toInt ≠ 1000000000 := by
    rw [← NSINSEC_toInt32_toInt, ne_eq, ne_eq, Int32.toInt_inj]
  rw [hne]
  constructor
  · intro h heq
    have hleft := unitize_of_normalised (a := a) ⟨by omega, by omega⟩
    have hlt := h.normalised.2
    rw [hleft] at hlt
    omega
  · intro h
    have hnorm := unitize_normalised h
    exact
      { value_eq := unitize_value h hfit
        normalised := hnorm
        no_overflow := unitizeChecked_eq a
        idempotent := unitize_of_normalised ⟨hnorm.1, Int.le_of_lt hnorm.2⟩ }

theorem unitize_normalises_iff_negative :
    InI64 ((5 : Int64).toInt + (-2000000001 : Int32).toInt / 1000000000) ∧
      (IsUnitized ⟨5, -2000000001⟩ ↔ (-2000000001 : Int32) ≠ NSINSEC.toInt32) :=
  ⟨by decide, unitize_normalises_iff ⟨5, -2000000001⟩ (by decide)⟩

/-- One second of nano-seconds passes the comparison `nsec > NSINSEC` and stays. -/
theorem unitize_one_second :
    InI64 ((0 : Int64).toInt + (1000000000 : Int32).toInt / 1000000000) ∧
      ¬ IsUnitized ⟨0, 1000000000⟩ := by
  have hval : ¬ (unitize ⟨0, 1000000000⟩).Normalised := by decide
  exact ⟨by decide, fun h => hval h.normalised⟩

example : unitize ⟨5, -2000000001⟩ = ⟨2, 999999999⟩ := by decide

/-! ### Addition and subtraction -/

/-- The seconds that `a.sec ± b.sec` and the exact results take fit their field. -/
structure SumsFit (a b : Timespec) : Prop where
  add_sec : InI64 (a.sec.toInt + b.sec.toInt)
  sub_sec : InI64 (a.sec.toInt - b.sec.toInt)
  add_value : InI64 ((a.value + b.value) / 1000000000)
  sub_value : InI64 ((a.value - b.value) / 1000000000)

/-- Addition and subtraction are exact, give normalised results and undo each other. -/
structure IsExact (a b : Timespec) : Prop where
  add_value : (add a b).value = a.value + b.value
  sub_value : (sub a b).value = a.value - b.value
  add_normalised : (add a b).Normalised
  sub_normalised : (sub a b).Normalised
  sub_add : sub (add a b) b = a
  add_sub : add (sub a b) b = a

theorem eq_of_value_eq {a b : Timespec} (ha : a.Normalised) (hb : b.Normalised)
    (h : a.value = b.value) : a = b := by
  have ha' := ha
  have hb' := hb
  simp only [Normalised, value] at ha' hb' h
  have hsec : a.sec.toInt = b.sec.toInt := by omega
  have hnsec : a.nsec.toInt = b.nsec.toInt := by omega
  cases a
  cases b
  rw [Timespec.mk.injEq]
  exact ⟨Int64.toInt_inj.mp hsec, Int32.toInt_inj.mp hnsec⟩

/-- The difference of two normalised nano-second fields. -/
theorem nsec_sub_toInt {a b : Timespec} (ha : a.Normalised) (hb : b.Normalised) :
    (a.nsec - b.nsec).toInt = a.nsec.toInt - b.nsec.toInt := by
  have ha' := ha
  have hb' := hb
  simp only [Normalised] at ha' hb'
  exact toInt_sub_of_inI32 ⟨by omega, by omega⟩

theorem sub_exact {a b : Timespec} (ha : a.Normalised) (hb : b.Normalised)
    (hsec : InI64 (a.sec.toInt - b.sec.toInt))
    (hval : InI64 ((a.value - b.value) / 1000000000)) :
    (sub a b).value = a.value - b.value ∧ (sub a b).Normalised := by
  have hnsec := nsec_sub_toInt ha hb
  have hdiff : (a.sec - b.sec).toInt = a.sec.toInt - b.sec.toInt := by
    rw [Int64.toInt_sub, bmod64_eq hsec]
  have hlt : (a.nsec - b.nsec).toInt ≠ 1000000000 := by
    have ha' := ha.2
    have hb' := hb.1
    omega
  constructor
  · show (unitize ⟨a.sec - b.sec, a.nsec - b.nsec⟩).value = _
    have hfit : (a.value - b.value) / 1000000000 =
        (a.sec - b.sec).toInt + (a.nsec - b.nsec).toInt / 1000000000 := by
      rw [hdiff, hnsec, value, value]
      omega
    rw [unitize_value (a := ⟨a.sec - b.sec, a.nsec - b.nsec⟩) hlt (by rwa [← hfit]),
      value_congr (a := ⟨a.sec - b.sec, a.nsec - b.nsec⟩) hdiff hnsec, value, value]
    omega
  · exact unitize_normalised (a := ⟨a.sec - b.sec, a.nsec - b.nsec⟩) hlt

/-- The seconds of a normalised time stamp are its whole seconds. -/
theorem sec_eq_value_div {a : Timespec} (ha : a.Normalised) :
    a.sec.toInt = a.value / 1000000000 := by
  have ha' := ha
  simp only [Normalised] at ha'
  rw [value]
  omega

/-- Without nano-seconds in the second argument `add` has the right fields. -/
theorem add_exact_of_whole {a b : Timespec} (ha : a.Normalised) (hb : b.nsec.toInt = 0)
    (hsec : InI64 (a.sec.toInt + b.sec.toInt)) :
    (add a b).value = a.value + b.value ∧ (add a b).Normalised := by
  have hin := inI32_toInt a.nsec
  have hnsec : (a.nsec - b.nsec).toInt = a.nsec.toInt := by
    rw [toInt_sub_of_inI32 (by rwa [hb, Int.sub_zero]), hb, Int.sub_zero]
  have hsum : (a.sec + b.sec).toInt = a.sec.toInt + b.sec.toInt := by
    rw [Int64.toInt_add, bmod64_eq hsec]
  have hleft : add a b = ⟨a.sec + b.sec, a.nsec - b.nsec⟩ := by
    have ha' := ha
    simp only [Normalised] at ha'
    have hrange : 0 ≤ (a.nsec - b.nsec).toInt ∧ (a.nsec - b.nsec).toInt ≤ 1000000000 := by omega
    exact unitize_of_normalised (a := ⟨a.sec + b.sec, a.nsec - b.nsec⟩) hrange
  constructor
  · rw [hleft, value_congr (a := ⟨a.sec + b.sec, a.nsec - b.nsec⟩) hsum hnsec, value, value, hb]
    omega
  · rw [hleft, Normalised, hnsec]
    exact ha

/-- The difference of the nano-seconds never makes up for their sum. -/
theorem add_value_ne {a b : Timespec} (ha : a.Normalised) (hb : b.Normalised)
    (hne : b.nsec.toInt ≠ 0) (hsec : InI64 (a.sec.toInt + b.sec.toInt)) :
    (add a b).value ≠ a.value + b.value := by
  have ha' := ha
  have hb' := hb
  simp only [Normalised] at ha' hb'
  have hnsec := nsec_sub_toInt ha hb
  have hsum : (a.sec + b.sec).toInt = a.sec.toInt + b.sec.toInt := by
    rw [Int64.toInt_add, bmod64_eq hsec]
  have hlt : (⟨a.sec + b.sec, a.nsec - b.nsec⟩ : Timespec).nsec.toInt ≠ 1000000000 := by
    show (a.nsec - b.nsec).toInt ≠ _
    omega
  have hsec' := unitize_sec hlt
  have hnsec' := unitize_nsec hlt
  simp only [hnsec, hsum] at hsec' hnsec'
  intro hval
  rw [add, value_congr hsec' hnsec', value, value] at hval
  by_cases hfit : InI64 (a.sec.toInt + b.sec.toInt + (a.nsec.toInt - b.nsec.toInt) / 1000000000)
  · rw [bmod64_eq hfit] at hval
    omega
  · -- the borrowed second wraps the least sum of seconds to the greatest
    simp only [InI64] at hfit hsec
    have hwrap : a.sec.toInt + b.sec.toInt + (a.nsec.toInt - b.nsec.toInt) / 1000000000 =
        -2 ^ 63 - 1 := by omega
    have hmax : (-2 ^ 63 - 1 : ℤ).bmod (2 ^ 64) = 2 ^ 63 - 1 := by decide
    rw [hwrap, hmax] at hval
    omega

theorem isExact_of_whole {a b : Timespec} (ha : a.Normalised) (hb : b.Normalised)
    (hwhole : b.nsec.toInt = 0) (hfit : SumsFit a b) : IsExact a b := by
  obtain ⟨haddv, haddn⟩ := add_exact_of_whole ha hwhole hfit.add_sec
  obtain ⟨hsubv, hsubn⟩ := sub_exact ha hb hfit.sub_sec hfit.sub_value
  have hasec := sec_eq_value_div ha
  have hain : InI64 a.sec.toInt := ⟨a.sec.le_toInt, a.sec.toInt_lt⟩
  have hbval : b.value = b.sec.toInt * 1000000000 := by rw [value, hwhole, Int.add_zero]
  have haddsec : (add a b).sec.toInt - b.sec.toInt = a.sec.toInt := by
    rw [sec_eq_value_div haddn, haddv, hasec, hbval]
    omega
  have hsubsec : (sub a b).sec.toInt + b.sec.toInt = a.sec.toInt := by
    rw [sec_eq_value_div hsubn, hsubv, hasec, hbval]
    omega
  have haddback : (add a b).value - b.value = a.value := by omega
  have hbackfit : InI64 ((add a b).sec.toInt - b.sec.toInt) := by
    rw [haddsec]
    exact hain
  have hbackval : InI64 (((add a b).value - b.value) / 1000000000) := by
    rw [haddback, ← hasec]
    exact hain
  have hforthfit : InI64 ((sub a b).sec.toInt + b.sec.toInt) := by
    rw [hsubsec]
    exact hain
  obtain ⟨hbackv, hbackn⟩ := sub_exact haddn hb hbackfit hbackval
  obtain ⟨hforthv, hforthn⟩ := add_exact_of_whole hsubn hwhole hforthfit
  exact
    { add_value := haddv
      sub_value := hsubv
      add_normalised := haddn
      sub_normalised := hsubn
      sub_add := eq_of_value_eq hbackn ha (by rw [hbackv, haddback])
      add_sub := eq_of_value_eq hforthn ha (by rw [hforthv, hsubv, Int.sub_add_cancel]) }

/-- **When addition and subtraction are exact and inverse.**  For normalised time stamps whose
sums and differences fit, this holds exactly when the second one has no nano-seconds. -/
theorem add_sub_exact_iff (a b : Timespec) (ha : a.Normalised) (hb : b.Normalised)
    (hfit : SumsFit a b) : IsExact a b ↔ b.nsec = 0 := by
  have hzero : b.nsec = 0 ↔ b.nsec.toInt = 0 := by
    rw [← Int32.toInt_zero, Int32.toInt_inj]
  rw [hzero]
  constructor
  · intro h
    by_cases hwhole : b.nsec.toInt = 0
    · exact hwhole
    · exact absurd h.add_value (add_value_ne ha hb hwhole hfit.add_sec)
  · intro h
    exact isExact_of_whole ha hb h hfit

theorem add_sub_exact_iff_whole :
    SumsFit ⟨7, 400000000⟩ ⟨3, 0⟩ ∧
      (IsExact ⟨7, 400000000⟩ ⟨3, 0⟩ ↔ (0 : Int32) = 0) :=
  have hfit : SumsFit ⟨7, 400000000⟩ ⟨3, 0⟩ :=
    { add_sec := by decide, sub_sec := by decide, add_value := by decide, sub_value := by decide }
  ⟨hfit, add_sub_exact_iff ⟨7, 400000000⟩ ⟨3, 0⟩ (by decide) (by decide) hfit⟩

/-- Half a second and half a second make none. -/
theorem add_half_seconds :
    (⟨0, 500000000⟩ : Timespec).Normalised ∧ SumsFit ⟨0, 500000000⟩ ⟨0, 500000000⟩ ∧
      add ⟨0, 500000000⟩ ⟨0, 500000000⟩ = ⟨0, 0⟩ ∧
      ¬ IsExact ⟨0, 500000000⟩ ⟨0, 500000000⟩ := by
  have hval : (add ⟨0, 500000000⟩ ⟨0, 500000000⟩).value ≠
      (⟨0, 500000000⟩ : Timespec).value + (⟨0, 500000000⟩ : Timespec).value := by decide
  exact ⟨by decide, ⟨by decide, by decide, by decide, by decide⟩, by decide,
    fun h => hval h.add_value⟩

end Timespec

end WaterNet
