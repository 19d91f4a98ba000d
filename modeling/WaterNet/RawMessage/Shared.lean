import WaterNet.RawMessage.Access
import WaterNet.Lib.Machine

/-!
# Buffers behind shared handles (`rawmessage.rs`)

A `RawMessage` is a handle on an `Arc<Mutex<Internal>>`.  A panic under the lock leaves the mutex
poisoned, and every later `lock().unwrap()` on it panics.  The machine makes new buffers, clones
and duplicates handles, and calls the mutating methods through any handle, in any order.

* `Internal.WellFormed` — the length is within the capacity, which is the allocation's size;
* `setlenRun_wellFormed`, `resize_wellFormed`, `writeFromSliceRun_wellFormed`, … — each method
  keeps it, by its own rule for the length;
* `perform_panicked` — a call that panics leaves the buffer as it was;
* `len_le_cap` — **the length is within the capacity in every reachable state**.
-/

namespace WaterNet.RawMessage

open WaterNet.Lib.Machine (run run_invariant)

namespace Internal

/-- `Internal::setlen`, with the text it panics with. -/
def setlenRun (i : Internal) (len : UInt64) : Outcome Unit :=
  if len > i.cap then
    .panic i ("len:" ++ toString len ++ " must be <= cap:" ++ toString i.cap)
  else { cell := { i with len := len }, reads := [], writes := [], result := .ok () }

theorem setlenRun_cell? (i : Internal) (len : UInt64) :
    (i.setlenRun len).cell? = i.setlen len := by
  unfold setlenRun setlen
  split
  · rfl
  · rfl

/-- The length is within the capacity, and the capacity is what was allocated. -/
structure WellFormed (i : Internal) : Prop where
  len_le : i.len ≤ i.cap
  allocated : i.Allocated

/-- The slice of `as_slice` and `as_mutslice` has its `len` bytes inside the buffer. -/
theorem WellFormed.asSlice_length {i : Internal} (h : i.WellFormed) :
    i.len.toNat ≤ i.buf.length ∧ i.asSlice.length = i.len.toNat := by
  have hlen : i.buf.length = i.cap.toNat := h.allocated
  have hle := UInt64.le_iff_toNat_le.mp h.len_le
  rw [asSlice, List.length_take]
  omega

theorem new_wellFormed (junk : ℕ → UInt8) (cap : UInt64) : (new junk cap).WellFormed where
  len_le := UInt64.le_refl _
  allocated := new_allocated junk cap

theorem dup_wellFormed {i : Internal} (h : i.WellFormed) : i.dup.WellFormed where
  len_le := UInt64.le_refl _
  allocated := by
    have hlen : i.buf.length = i.cap.toNat := h.allocated
    show (i.buf.take i.cap.toNat).length = i.cap.toNat
    rw [List.length_take]
    omega

theorem setlenRun_wellFormed {i : Internal} (h : i.WellFormed) (len : UInt64) :
    (i.setlenRun len).cell.WellFormed := by
  unfold setlenRun
  split
  next => exact h
  next hle => exact ⟨UInt64.not_lt.mp hle, h.allocated⟩

theorem resize_wellFormed (junk : ℕ → UInt8) (i : Internal) (newcap : UInt64) :
    (i.resize junk newcap).WellFormed where
  len_le := by
    rw [UInt64.le_iff_toNat_le, resize_len]
    exact Nat.min_le_right _ _
  allocated := by
    show (List.map _ (List.range newcap.toNat)).length = newcap.toNat
    rw [List.length_map, List.length_range]

/-- The offset at the end of the loop is the wrapped sum that was compared with the capacity. -/
theorem writeFromSliceRun_wellFormed {i : Internal} (h : i.WellFormed) (offset : UInt64)
    (f : List UInt8) : (i.writeFromSliceRun offset f).cell.WellFormed := by
  unfold writeFromSliceRun
  by_cases hcheck : offset + UInt64.ofNat f.length > i.cap
  · rw [if_pos hcheck]
    exact h
  · rw [if_neg hcheck, sliceLoop_eq]
    have hbuf : (storeBytes i.buf offset f).length = i.cap.toNat := by
      rw [length_storeBytes]
      exact h.allocated
    refine ⟨?_, hbuf⟩
    show (if offset + UInt64.ofNat f.length > i.len then offset + UInt64.ofNat f.length
      else i.len) ≤ i.cap
    split
    next => exact UInt64.not_lt.mp hcheck
    next => exact h.len_le

theorem writestructrefRun_wellFormed {i : Internal} (h : i.WellFormed) (offset : UInt64)
    (t : List UInt8) : (i.writestructrefRun offset t).cell.WellFormed := by
  unfold writestructrefRun
  dsimp only
  split
  next => exact h
  next =>
    split
    next => exact h
    next =>
      refine ⟨h.len_le, ?_⟩
      show (storeBytes i.buf offset t).length = i.cap.toNat
      rw [length_storeBytes]
      exact h.allocated

end Internal

/-! ### The machine -/

/-- `Mutex<Internal>`. -/
structure Cell where
  i : Internal
  poisoned : Bool
  deriving DecidableEq, Repr

/-- The buffers that were allocated, and for each handle of user code the buffer it shares. -/
structure Heap where
  cells : List Cell
  handles : List ℕ
  deriving DecidableEq, Repr

inductive Act where
  | new (junk : ℕ → UInt8) (cap : UInt64)
  | setlen (h : ℕ) (len : UInt64)
  | resize (h : ℕ) (junk : ℕ → UInt8) (newcap : UInt64)
  | writeFromSlice (h : ℕ) (offset : UInt64) (f : List UInt8)
  | writestruct (h : ℕ) (offset : UInt64) (t : List UInt8)
  | clone (h : ℕ)
  | dup (h : ℕ)

/-- `lock().unwrap()` and a method on what the lock guards; `true` is a panic. -/
def Cell.call (c : Cell) (op : Internal → Outcome Unit) : Cell × Bool :=
  if c.poisoned then (c, true)
  else
    match (op c.i).result with
    | .ok _ => ({ i := (op c.i).cell, poisoned := false }, false)
    | .error _ => ({ i := (op c.i).cell, poisoned := true }, true)

namespace Heap

def empty : Heap := { cells := [], handles := [] }

/-- `RawMessage {i: Arc::new(Mutex::new(i))}`, handed to user code. -/
def alloc (s : Heap) (i : Internal) : Heap :=
  { cells := s.cells ++ [{ i := i, poisoned := false }], handles := s.handles ++ [s.cells.length] }

/-- The buffer behind a handle. -/
def cell? (s : Heap) (h : ℕ) : Option (ℕ × Cell) := do
  let k ← s.handles[h]?
  let c ← s.cells[k]?
  return (k, c)

/-- A method called through a handle. -/
def call (s : Heap) (h : ℕ) (op : Internal → Outcome Unit) : Option (Heap × Bool) := do
  let (k, c) ← s.cell? h
  let (c, panicked) := c.call op
  return ({ s with cells := s.cells.set k c }, panicked)

/-- One call and whether it panicked; `none` where there is no such handle. -/
def perform (s : Heap) : Act → Option (Heap × Bool)
  | .new junk cap => some (s.alloc (Internal.new junk cap), false)
  | .setlen h len => s.call h fun i => i.setlenRun len
  | .resize h junk newcap => s.call h fun i => i.resizeRun junk newcap
  | .writeFromSlice h offset f => s.call h fun i => i.writeFromSliceRun offset f
  | .writestruct h offset t => s.call h fun i => i.writestructRun offset t
  | .clone h => do
    let k ← s.handles[h]?
    return ({ s with handles := s.handles ++ [k] }, false)
  | .dup h => do
    let (_, c) ← s.cell? h
    if c.poisoned then return (s, true) else return (s.alloc c.i.dup, false)

def step (s : Heap) (a : Act) : Option Heap := (s.perform a).map Prod.fst

/-- Every buffer is well formed. -/
def Inv (s : Heap) : Prop := ∀ c ∈ s.cells, c.i.WellFormed

end Heap

/-- The method keeps a well-formed buffer well formed, and a panic in it changes nothing. -/
structure Keeps (op : Internal → Outcome Unit) : Prop where
  wellFormed : ∀ i : Internal, i.WellFormed → (op i).cell.WellFormed
  panicked : ∀ (i : Internal) msg, (op i).result = .error msg → (op i).cell = i

theorem keeps_setlenRun (len : UInt64) : Keeps fun i => i.setlenRun len where
  wellFormed i h := Internal.setlenRun_wellFormed h len
  panicked i msg h := by
    unfold Internal.setlenRun at h ⊢
    split at h
    next hgt =>
      rw [if_pos hgt]
      rfl
    next => cases h

theorem keeps_resizeRun (junk : ℕ → UInt8) (newcap : UInt64) :
    Keeps fun i => i.resizeRun junk newcap where
  wellFormed i _ := Internal.resize_wellFormed junk i newcap
  panicked i msg h := by cases h

theorem keeps_writeFromSliceRun (offset : UInt64) (f : List UInt8) :
    Keeps fun i => i.writeFromSliceRun offset f where
  wellFormed i h := Internal.writeFromSliceRun_wellFormed h offset f
  panicked i msg h := by
    unfold Internal.writeFromSliceRun at h ⊢
    split at h
    next hgt =>
      rw [if_pos hgt]
      rfl
    next => cases h

theorem keeps_writestructRun (offset : UInt64) (t : List UInt8) :
    Keeps fun i => i.writestructRun offset t where
  wellFormed i h := Internal.writestructrefRun_wellFormed h offset t
  panicked i msg h := by
    unfold Internal.writestructRun Internal.writestructrefRun at h ⊢
    dsimp only at h ⊢
    split at h
    next hgt =>
      rw [if_pos hgt]
      rfl
    next =>
      split at h
      next => cases h
      next => cases h

/-! ### One call -/

theorem Cell.call_wellFormed {op : Internal → Outcome Unit} (hop : Keeps op) {c : Cell}
    (h : c.i.WellFormed) : (c.call op).1.i.WellFormed := by
  unfold Cell.call
  split
  next => exact h
  next =>
    split
    next => exact hop.wellFormed c.i h
    next => exact hop.wellFormed c.i h

theorem Cell.call_panicked {op : Internal → Outcome Unit} (hop : Keeps op) {c : Cell}
    (h : (c.call op).2 = true) : (c.call op).1.i = c.i := by
  unfold Cell.call at h ⊢
  by_cases hpoisoned : c.poisoned = true
  · rw [if_pos hpoisoned]
  · rw [if_neg hpoisoned] at h ⊢
    cases hres : (op c.i).result with
    | ok r => simp [hres] at h
    | error msg => exact hop.panicked c.i msg hres

namespace Heap

variable {s s' : Heap}

theorem cell?_eq_some {h k : ℕ} {c : Cell} :
    s.cell? h = some (k, c) ↔ s.handles[h]? = some k ∧ s.cells[k]? = some c := by
  unfold cell?
  constructor
  · intro heq
    obtain ⟨k', hk', hrest⟩ := Option.bind_eq_some_iff.mp heq
    obtain ⟨c', hc', hpair⟩ := Option.bind_eq_some_iff.mp hrest
    cases hpair
    exact ⟨hk', hc'⟩
  · rintro ⟨hk, hc⟩
    rw [hk, Option.bind_eq_bind, Option.bind_some, hc]
    rfl

/-- **Inversion of a method call**: the buffer behind the handle goes through the method. -/
theorem call_eq_some {h : ℕ} {op : Internal → Outcome Unit} {panicked : Bool}
    (hcall : s.call h op = some (s', panicked)) :
    ∃ k c, s.handles[h]? = some k ∧ s.cells[k]? = some c ∧ panicked = (c.call op).2 ∧
      s' = { s with cells := s.cells.set k (c.call op).1 } := by
  obtain ⟨⟨k, c⟩, hcell, hrest⟩ := Option.bind_eq_some_iff.mp hcall
  obtain ⟨hk, hc⟩ := cell?_eq_some.mp hcell
  cases hrest
  exact ⟨k, c, hk, hc, rfl, rfl⟩

/-- What a call can do to the buffers. -/
inductive Effect (s s' : Heap) (panicked : Bool) : Prop where
  | same (hcells : s'.cells = s.cells)
  | alloc (i : Internal) (hi : s.Inv → i.WellFormed) (hret : panicked = false)
      (hcells : s'.cells = s.cells ++ [{ i := i, poisoned := false }])
  | method (k : ℕ) (c : Cell) (op : Internal → Outcome Unit) (hop : Keeps op)
      (hc : s.cells[k]? = some c) (hret : panicked = (c.call op).2)
      (hcells : s'.cells = s.cells.set k (c.call op).1)

theorem effect_of_call {h : ℕ} {op : Internal → Outcome Unit} (hop : Keeps op) {panicked : Bool}
    (hcall : s.call h op = some (s', panicked)) : Effect s s' panicked := by
  obtain ⟨k, c, -, hc, hret, rfl⟩ := call_eq_some hcall
  exact .method k c op hop hc hret rfl

theorem effect_of_perform {a : Act} {panicked : Bool} (h : s.perform a = some (s', panicked)) :
    Effect s s' panicked := by
  cases a with
  | new junk cap =>
    cases h
    exact .alloc _ (fun _ => Internal.new_wellFormed junk cap) rfl rfl
  | setlen k len => exact effect_of_call (keeps_setlenRun len) h
  | resize k junk newcap => exact effect_of_call (keeps_resizeRun junk newcap) h
  | writeFromSlice k offset f => exact effect_of_call (keeps_writeFromSliceRun offset f) h
  | writestruct k offset t => exact effect_of_call (keeps_writestructRun offset t) h
  | clone k =>
    obtain ⟨k', -, hrest⟩ := Option.bind_eq_some_iff.mp h
    cases hrest
    exact .same rfl
  | dup k =>
    obtain ⟨⟨k', c⟩, hcell, hrest⟩ := Option.bind_eq_some_iff.mp h
    obtain ⟨-, hc⟩ := cell?_eq_some.mp hcell
    dsimp only at hrest
    split at hrest
    next =>
      cases hrest
      exact .same rfl
    next =>
      cases hrest
      exact .alloc _ (fun hinv => Internal.dup_wellFormed (hinv c (List.mem_of_getElem? hc))) rfl
        rfl

theorem inv_empty : Inv empty := by
  intro c hc
  cases hc

theorem inv_perform {a : Act} {panicked : Bool} (hinv : s.Inv)
    (h : s.perform a = some (s', panicked)) : s'.Inv := by
  intro c hc
  cases effect_of_perform h with
  | same hcells =>
    rw [hcells] at hc
    exact hinv c hc
  | alloc i hi hret hcells =>
    rw [hcells, List.mem_append, List.mem_singleton] at hc
    rcases hc with hc | rfl
    · exact hinv c hc
    · exact hi hinv
  | method k c' op hop hc' hret hcells =>
    rw [hcells] at hc
    rcases List.mem_or_eq_of_mem_set hc with hc | rfl
    · exact hinv c hc
    · exact Cell.call_wellFormed hop (hinv c' (List.mem_of_getElem? hc'))

/-- A call that panics leaves every buffer as it was. -/
theorem perform_panicked {a : Act} (h : s.perform a = some (s', true)) {k : ℕ} {c' : Cell}
    (hc' : s'.cells[k]? = some c') : ∃ c, s.cells[k]? = some c ∧ c'.i = c.i := by
  cases effect_of_perform h with
  | same hcells =>
    rw [hcells] at hc'
    exact ⟨c', hc', rfl⟩
  | alloc i hi hret hcells => cases hret
  | method j c op hop hc hret hcells =>
    rw [hcells] at hc'
    by_cases hjk : j = k
    · subst hjk
      obtain ⟨hlt, -⟩ := List.getElem?_eq_some_iff.mp hc
      rw [List.getElem?_set_self hlt, Option.some.injEq] at hc'
      subst hc'
      exact ⟨c, hc, Cell.call_panicked hop hret.symm⟩
    · rw [List.getElem?_set_ne hjk] at hc'
      exact ⟨c', hc', rfl⟩

theorem inv_run {as : List Act} (hrun : run step s as = some s') (hinv : s.Inv) : s'.Inv := by
  refine run_invariant ?_ hrun hinv
  intro s a s' hinv hstep
  obtain ⟨⟨s'', panicked⟩, hperform, rfl⟩ := Option.map_eq_some_iff.mp hstep
  exact inv_perform hinv hperform

end Heap

/-- **The length never exceeds the capacity.**  After any calls through any handles every buffer
has its length within its capacity, its capacity is the allocation's size, its slice lies inside
the allocation, and the next call, if it panics, leaves every length and capacity as it was. -/
theorem len_le_cap (as : List Act) (s : Heap) (hrun : run Heap.step Heap.empty as = some s) :
    (∀ c ∈ s.cells, c.i.len ≤ c.i.cap ∧ c.i.buf.length = c.i.cap.toNat ∧
      c.i.len.toNat ≤ c.i.buf.length ∧ c.i.asSlice.length = c.i.len.toNat) ∧
    ∀ (a : Act) (s' : Heap), s.perform a = some (s', true) →
      ∀ (k : ℕ) (c' : Cell), s'.cells[k]? = some c' →
        ∃ c, s.cells[k]? = some c ∧ c'.i.len = c.i.len ∧ c'.i.cap = c.i.cap := by
  have hinv := Heap.inv_run hrun Heap.inv_empty
  constructor
  · intro c hc
    have hwf := hinv c hc
    exact ⟨hwf.len_le, hwf.allocated, hwf.asSlice_length⟩
  · intro a s' hperform k c' hc'
    obtain ⟨c, hc, heq⟩ := Heap.perform_panicked hperform hc'
    exact ⟨c, hc, by rw [heq], by rw [heq]⟩

/-- A zero request, a clone, a write through it that passes on a wrapped sum, and a panic. -/
theorem len_le_cap_clone :
    ∃ s, run Heap.step Heap.empty
        [.new (fun _ => 0) 0, .clone 0, .resize 1 (fun _ => 0) 4, .writeFromSlice 0 1 [5, 6],
          .writeFromSlice 1 18446744073709551615 [7, 8], .dup 0, .setlen 0 9] = some s ∧
      ∀ c ∈ s.cells, c.i.len ≤ c.i.cap := by
  obtain ⟨s, hs⟩ := Option.isSome_iff_exists.mp
    (show (run Heap.step Heap.empty
      [.new (fun _ => 0) 0, .clone 0, .resize 1 (fun _ => 0) 4, .writeFromSlice 0 1 [5, 6],
        .writeFromSlice 1 18446744073709551615 [7, 8], .dup 0, .setlen 0 9]).isSome by
      decide +kernel)
  exact ⟨s, hs, fun c hc => ((len_le_cap _ s hs).1 c hc).1⟩

end WaterNet.RawMessage
