import Mathlib.Data.List.Basic

/-!
# The account of one endpoint: its handles, the count of them and the flag

What matters for one endpoint's lifetime, without threads, list or lock: how many handles there
are and where they are, the counter `refcnt` that is meant to count them, and the flag `dropped`.
A thread that works on the endpoint plays a `Role` in it, and a step changes the number of players
of a few roles.

* `Account.Step` — what can happen to an endpoint;
* `Account.Inv` — **the lifetime invariant**: the counter counts every handle, an endpoint that
  user code can reach is listed and has no removal under way, and one that nobody can reach has a
  removal under way;
* `Account.step_inv` — every step keeps it, by one lemma for each;
* `Account.Inv.at_rest` — what it says of an endpoint that no thread works on.
-/

namespace WaterNet.Lifetime

/-- What a thread has to do with an endpoint.  `dropping`, `casing` and `entered` are the three
stages of a drop, of a handle that the net's list held if `nested`. -/
inductive Role where
  /-- has made it and holds the one handle -/
  | newborn
  /-- has cloned the one handle and holds both -/
  | twin
  /-- holds a handle that it is about to return to user code -/
  | owing
  /-- is making a clone of a handle -/
  | borrowing
  /-- holds a handle that it is to drop -/
  | dropping (nested : Bool)
  /-- has seen the count 1 -/
  | casing (nested : Bool)
  /-- has entered `drop_endpoint` -/
  | entered (nested : Bool)
  | panicked
  deriving DecidableEq, Repr

attribute [grind =] Role.dropping.injEq Role.casing.injEq Role.entered.injEq

structure Account where
  made : Bool
  refcnt : ℕ
  dropped : Bool
  /-- the calls of `drop_endpoint` so far -/
  calls : ℕ
  /-- the handles of user code -/
  user : ℕ
  /-- the handles in the net's list -/
  listed : ℕ
  role : Role → ℕ

/-- Players leave the roles in `out` and take up those in `into`. -/
def Moves (n n' : Role → ℕ) (out into : List Role) : Prop :=
  ∀ r, n' r + out.count r = n r + into.count r

theorem Moves.none {n n' : Role → ℕ} (h : Moves n n' [] []) : n' = n :=
  funext h

theorem Moves.enter {n n' : Role → ℕ} {r : Role} (h : Moves n n' [] [r]) :
    n' r = n r + 1 ∧ ∀ r', r' ≠ r → n' r' = n r' := by
  refine ⟨by simpa using h r, fun r' hne => ?_⟩
  simpa [Ne.symm hne] using h r'

theorem Moves.leave {n n' : Role → ℕ} {r : Role} (h : Moves n n' [r] []) :
    n' r + 1 = n r ∧ ∀ r', r' ≠ r → n' r' = n r' := by
  refine ⟨by simpa using h r, fun r' hne => ?_⟩
  simpa [Ne.symm hne] using h r'

theorem Moves.leave_two {n n' : Role → ℕ} {r s : Role} (hrs : r ≠ s) (h : Moves n n' [r, s] []) :
    n' r + 1 = n r ∧ n' s + 1 = n s ∧ ∀ r', r' ≠ r → r' ≠ s → n' r' = n r' := by
  refine ⟨by simpa [Ne.symm hrs] using h r, by simpa [hrs] using h s, fun r' hr hs => ?_⟩
  simpa [Ne.symm hr, Ne.symm hs] using h r'

theorem Moves.change {n n' : Role → ℕ} {r s : Role} (hrs : r ≠ s) (h : Moves n n' [r] [s]) :
    n' r + 1 = n r ∧ n' s = n s + 1 ∧ ∀ r', r' ≠ r → r' ≠ s → n' r' = n r' := by
  refine ⟨by simpa [Ne.symm hrs] using h r, by simpa [hrs] using h s, fun r' hr hs => ?_⟩
  simpa [Ne.symm hr, Ne.symm hs] using h r'

namespace Account

/-- What can happen to an endpoint. -/
inductive Step (a : Account) : Account → Prop where
  | shift {n} (h : Moves a.role n [] []) : Step a { a with role := n }
  | make {n} (hm : a.made = false) (h : Moves a.role n [] [.newborn]) :
      Step a { a with made := true, refcnt := 1, dropped := false, calls := 0, user := 0, role := n }
  | twin {n} (h : Moves a.role n [.newborn] [.twin]) :
      Step a { a with refcnt := a.refcnt + 1, role := n }
  | push {n} (h : Moves a.role n [.twin] [.owing]) :
      Step a { a with listed := a.listed + 1, role := n }
  | created {n} (h : Moves a.role n [.owing] []) : Step a { a with user := a.user + 1, role := n }
  | borrow {n} (hu : 0 < a.user) (h : Moves a.role n [] [.borrowing]) : Step a { a with role := n }
  | cloneAdd {n} (hb : 0 < a.role .borrowing) (h : Moves a.role n [] [.owing]) :
      Step a { a with refcnt := a.refcnt + 1, role := n }
  | cloneDone {n} (h : Moves a.role n [.borrowing, .owing] []) :
      Step a { a with user := a.user + 1, role := n }
  | release {n} (hu : 0 < a.user) (hb : 0 < a.role .borrowing → 1 < a.user)
      (h : Moves a.role n [] [.dropping false]) : Step a { a with user := a.user - 1, role := n }
  | snapshot {n} (hl : 0 < a.listed) (h : Moves a.role n [] [.dropping false]) :
      Step a { a with refcnt := a.refcnt + 1, role := n }
  | sub {n nested} (hne : a.refcnt - 1 ≠ 1) (h : Moves a.role n [.dropping nested] []) :
      Step a { a with refcnt := a.refcnt - 1, role := n }
  | subToOne {n nested} (heq : a.refcnt - 1 = 1)
      (h : Moves a.role n [.dropping nested] [.casing nested]) :
      Step a { a with refcnt := a.refcnt - 1, role := n }
  | casLost {n nested} (hd : a.dropped = true) (h : Moves a.role n [.casing nested] []) :
      Step a { a with role := n }
  | casWon {n nested} (hd : a.dropped = false)
      (h : Moves a.role n [.casing nested] [.entered nested]) :
      Step a { a with dropped := true, calls := a.calls + 1, role := n }
  | remove {n} (hl : 0 < a.listed) (h : Moves a.role n [.entered false] [.dropping true]) :
      Step a { a with listed := a.listed - 1, role := n }
  | absent {n} (hl : a.listed = 0) (h : Moves a.role n [.entered false] []) :
      Step a { a with role := n }
  | panic {n} (hl : 1 < a.listed) (h : Moves a.role n [.entered false] [.panicked]) :
      Step a { a with role := n }

/-- **The lifetime invariant.** -/
structure Inv (a : Account) : Prop where
  count : a.refcnt = a.user + a.listed + a.role .newborn + 2 * a.role .twin + a.role .owing +
    a.role (.dropping false) + a.role (.dropping true)
  unmade : a.made = false →
    a.refcnt = 0 ∧ a.dropped = false ∧ a.calls = 0 ∧ a.role (.casing false) = 0
  /-- an endpoint being made has no other handles -/
  newborn : 0 < a.role .newborn + a.role .twin → a.role .newborn + a.role .twin = 1 ∧
    a.user + a.listed + a.role .owing + a.role (.dropping false) + a.role (.dropping true) = 0
  /-- what user code has a handle of, or is about to get one of, is in the list once -/
  listed : 0 < a.user + a.role .owing → a.listed = 1
  once : a.listed ≤ 1
  borrow : 0 < a.role .borrowing → 0 < a.user
  /-- nobody is about to remove an endpoint that user code can reach -/
  live : 0 < a.user + a.role .owing + a.role .newborn + a.role .twin →
    a.dropped = false ∧ a.role (.casing false) = 0
  dropped : 0 < a.role (.entered false) + a.role (.dropping true) + a.role (.casing true) →
    a.dropped = true
  notNested : a.role (.entered true) = 0
  noPanic : a.role .panicked = 0
  /-- whoever left the list's handle as the only one is at the compare-and-swap -/
  last : a.listed = 1 → a.dropped = false → a.refcnt = 1 → 0 < a.role (.casing false)
  /-- whoever set the flag is about to remove the endpoint -/
  pending : a.listed = 1 → a.dropped = true → 0 < a.role (.entered false)
  calls : a.calls = if a.dropped then 1 else 0

/-! ### One lemma for each step -/

section steps

variable {a : Account} {n : Role → ℕ} {nested : Bool}

theorem Inv.make (hinv : a.Inv) (hm : a.made = false) (h : Moves a.role n [] [.newborn]) :
    Inv { a with made := true, refcnt := 1, dropped := false, calls := 0, user := 0, role := n } := by
  obtain ⟨hin, hrest⟩ := h.enter
  cases hinv
  constructor <;> dsimp only <;> grind -ring -linarith

theorem Inv.twin (hinv : a.Inv) (h : Moves a.role n [.newborn] [.twin]) :
    Inv { a with refcnt := a.refcnt + 1, role := n } := by
  obtain ⟨hout, hin, hrest⟩ := h.change (by decide)
  cases hinv
  constructor <;> dsimp only <;> grind -ring -linarith

theorem Inv.push (hinv : a.Inv) (h : Moves a.role n [.twin] [.owing]) :
    Inv { a with listed := a.listed + 1, role := n } := by
  obtain ⟨hout, hin, hrest⟩ := h.change (by decide)
  cases hinv
  constructor <;> dsimp only <;> grind -ring -linarith

theorem Inv.created (hinv : a.Inv) (h : Moves a.role n [.owing] []) :
    Inv { a with user := a.user + 1, role := n } := by
  obtain ⟨hout, hrest⟩ := h.leave
  cases hinv
  constructor <;> dsimp only <;> grind -ring -linarith

theorem Inv.startClone (hinv : a.Inv) (hu : 0 < a.user) (h : Moves a.role n [] [.borrowing]) :
    Inv { a with role := n } := by
  obtain ⟨hin, hrest⟩ := h.enter
  cases hinv
  constructor <;> dsimp only <;> grind -ring -linarith

theorem Inv.cloneAdd (hinv : a.Inv) (hb : 0 < a.role .borrowing) (h : Moves a.role n [] [.owing]) :
    Inv { a with refcnt := a.refcnt + 1, role := n } := by
  obtain ⟨hin, hrest⟩ := h.enter
  cases hinv
  constructor <;> dsimp only <;> grind -ring -linarith

theorem Inv.cloneDone (hinv : a.Inv) (h : Moves a.role n [.borrowing, .owing] []) :
    Inv { a with user := a.user + 1, role := n } := by
  obtain ⟨hout, hout', hrest⟩ := h.leave_two (by decide)
  cases hinv
  constructor <;> dsimp only <;> grind -ring -linarith

theorem Inv.release (hinv : a.Inv) (hu : 0 < a.user) (hb : 0 < a.role .borrowing → 1 < a.user)
    (h : Moves a.role n [] [.dropping false]) :
    Inv { a with user := a.user - 1, role := n } := by
  obtain ⟨hin, hrest⟩ := h.enter
  cases hinv
  constructor <;> dsimp only <;> grind -ring -linarith

theorem Inv.snapshot (hinv : a.Inv) (hl : 0 < a.listed) (h : Moves a.role n [] [.dropping false]) :
    Inv { a with refcnt := a.refcnt + 1, role := n } := by
  obtain ⟨hin, hrest⟩ := h.enter
  cases hinv
  constructor <;> dsimp only <;> grind -ring -linarith

theorem Inv.sub (hinv : a.Inv) (hne : a.refcnt - 1 ≠ 1) (h : Moves a.role n [.dropping nested] []) :
    Inv { a with refcnt := a.refcnt - 1, role := n } := by
  obtain ⟨hout, hrest⟩ := h.leave
  cases hinv
  cases nested
  all_goals constructor <;> dsimp only <;> grind -ring -linarith

theorem Inv.subToOne (hinv : a.Inv) (heq : a.refcnt - 1 = 1)
    (h : Moves a.role n [.dropping nested] [.casing nested]) :
    Inv { a with refcnt := a.refcnt - 1, role := n } := by
  -- a handle of user code and the list's would make two besides the one dropped
  obtain ⟨hout, hin, hrest⟩ := h.change (by simp)
  cases hinv
  cases nested
  all_goals constructor <;> dsimp only <;> grind -ring -linarith

theorem Inv.casLost (hinv : a.Inv) (hd : a.dropped = true)
    (h : Moves a.role n [.casing nested] []) :
    Inv { a with role := n } := by
  obtain ⟨hout, hrest⟩ := h.leave
  cases hinv
  cases nested
  all_goals constructor <;> dsimp only <;> grind -ring -linarith

theorem Inv.casWon (hinv : a.Inv) (hd : a.dropped = false)
    (h : Moves a.role n [.casing nested] [.entered nested]) :
    Inv { a with dropped := true, calls := a.calls + 1, role := n } := by
  -- by `live`, user code cannot reach what somebody is at the compare-and-swap of
  obtain ⟨hout, hin, hrest⟩ := h.change (by simp)
  cases hinv
  cases nested
  all_goals constructor <;> dsimp only <;> grind -ring -linarith

theorem Inv.remove (hinv : a.Inv) (hl : 0 < a.listed)
    (h : Moves a.role n [.entered false] [.dropping true]) :
    Inv { a with listed := a.listed - 1, role := n } := by
  obtain ⟨hout, hin, hrest⟩ := h.change (by decide)
  cases hinv
  constructor <;> dsimp only <;> grind -ring -linarith

theorem Inv.absent (hinv : a.Inv) (hl : a.listed = 0) (h : Moves a.role n [.entered false] []) :
    Inv { a with role := n } := by
  obtain ⟨hout, hrest⟩ := h.leave
  cases hinv
  constructor <;> dsimp only <;> grind -ring -linarith

end steps

/-- **Every step keeps the invariant.** -/
theorem step_inv {a a' : Account} (h : Step a a') (hinv : a.Inv) : a'.Inv := by
  cases h with
  | shift h =>
    obtain rfl := h.none
    exact hinv
  | make hm h => exact hinv.make hm h
  | twin h => exact hinv.twin h
  | push h => exact hinv.push h
  | created h => exact hinv.created h
  | borrow hu h => exact hinv.startClone hu h
  | cloneAdd hb h => exact hinv.cloneAdd hb h
  | cloneDone h => exact hinv.cloneDone h
  | release hu hb h => exact hinv.release hu hb h
  | snapshot hl h => exact hinv.snapshot hl h
  | sub hne h => exact hinv.sub hne h
  | subToOne heq h => exact hinv.subToOne heq h
  | casLost hd h => exact hinv.casLost hd h
  | casWon hd h => exact hinv.casWon hd h
  | remove hl h => exact hinv.remove hl h
  | absent hl h => exact hinv.absent hl h
  | panic hl h => exact absurd hinv.once (Nat.not_le.mpr hl)

/-- **At rest.**  When no thread has anything to do with the endpoint, the counter counts the
handles of user code and of the list, and the list's handle is not the only one. -/
theorem Inv.at_rest {a : Account} (hinv : a.Inv) (hrest : ∀ r, a.role r = 0) :
    a.refcnt = a.user + a.listed ∧ (a.user = 0 → a.listed = 0) := by
  have hcount : a.refcnt = a.user + a.listed := by
    rw [hinv.count]
    simp only [hrest]
    omega
  refine ⟨hcount, fun hu => ?_⟩
  by_contra hl
  have hone : a.listed = 1 := by
    have := hinv.once
    omega
  cases hd : a.dropped with
  | false => exact absurd (hinv.last hone hd (by omega)) (by rw [hrest]; omega)
  | true => exact absurd (hinv.pending hone hd) (by rw [hrest]; omega)

end Account

end WaterNet.Lifetime
