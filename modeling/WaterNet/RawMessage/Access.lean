import WaterNet.RawMessage

/-!
# The bytes a call touches (`rawmessage.rs`)

The methods of `RawMessage` once more, with the address of every byte they read or write, taken
relative to the buffer and modulo `2^64`, and with the text they panic with.

* `writeFromSliceRun_cell?`, `writestructrefRun_cell?`, `readstructunsaferefRun_toOption` — these
  are the methods of `Internal`; `readstruct`, `readstructref` and the `readX` and `writeX`
  helpers call them with a type's size;
* `accesses_contained_iff` — the three of them stay inside the buffer, or panic with nothing
  changed, exactly when the end of the range does not wrap round to a value within the capacity;
* `resize_safe_iff` — `resize` copies the larger of the two capacities, so it stays inside both
  buffers exactly when they are equal.
-/

namespace WaterNet.RawMessage

/-- What a call does: the cell it leaves, the addresses it reads and writes, and its result or
the text of its panic. -/
structure Outcome (α : Type) where
  cell : Internal
  reads : List UInt64
  writes : List UInt64
  result : Except String α

namespace Outcome

/-- A panic before anything was touched. -/
def panic {α : Type} (i : Internal) (msg : String) : Outcome α :=
  { cell := i, reads := [], writes := [], result := .error msg }

/-- The result where the call returned. -/
def toOption {α : Type} (o : Outcome α) : Option α :=
  match o.result with
  | .ok r => some r
  | .error _ => none

/-- The cell where the call returned. -/
def cell? {α : Type} (o : Outcome α) : Option Internal := o.toOption.map fun _ => o.cell

/-- A panicking call has changed nothing, any other touches only bytes below the capacity. -/
def Contained {α : Type} (i : Internal) (o : Outcome α) : Prop :=
  match o.result with
  | .error _ => o.cell = i ∧ o.writes = []
  | .ok _ => ∀ a ∈ o.reads ++ o.writes, a < i.cap

end Outcome

/-- `n` consecutive addresses; the sum wraps. -/
def addresses (offset : UInt64) : ℕ → List UInt64
  | 0 => []
  | n + 1 => offset :: addresses (offset + 1) n

@[simp] theorem addresses_zero (offset : UInt64) : addresses offset 0 = [] := rfl

theorem mem_addresses {n : ℕ} {offset a : UInt64} :
    a ∈ addresses offset n ↔ ∃ k < n, a = offset + UInt64.ofNat k := by
  induction n generalizing offset with
  | zero => simp
  | succ n ih =>
    rw [addresses, List.mem_cons, ih]
    constructor
    · rintro (rfl | ⟨k, hk, rfl⟩)
      · exact ⟨0, by omega, by simp⟩
      · refine ⟨k + 1, by omega, ?_⟩
        rw [UInt64.ofNat_add, UInt64.add_assoc, UInt64.add_comm 1]
        rfl
    · rintro ⟨k, hk, rfl⟩
      cases k with
      | zero => exact Or.inl (by simp)
      | succ k =>
        refine Or.inr ⟨k, by omega, ?_⟩
        rw [UInt64.ofNat_add, UInt64.add_assoc, UInt64.add_comm 1]
        rfl

/-- The loop of `write_from_slice`: the buffer, the wrapping offset and the bytes written. -/
def sliceLoop (buf : List UInt8) (offset : UInt64) (writes : List UInt64) :
    List UInt8 → List UInt8 × UInt64 × List UInt64
  | [] => (buf, offset, writes)
  | item :: f => sliceLoop (buf.set offset.toNat item) (offset + 1) (writes ++ [offset]) f

theorem sliceLoop_eq (f buf : List UInt8) (offset : UInt64) (writes : List UInt64) :
    sliceLoop buf offset writes f =
      (storeBytes buf offset f, offset + UInt64.ofNat f.length,
        writes ++ addresses offset f.length) := by
  induction f generalizing buf offset writes with
  | nil => simp [sliceLoop, storeBytes]
  | cons item f ih =>
    have hnext : offset + 1 + UInt64.ofNat f.length = offset + UInt64.ofNat (f.length + 1) := by
      rw [UInt64.ofNat_add, UInt64.add_assoc, UInt64.add_comm 1]
      rfl
    rw [sliceLoop, ih, storeBytes, List.length_cons, addresses, hnext, List.append_assoc,
      List.singleton_append]

namespace Internal

/-- `RawMessage::write_from_slice`. -/
def writeFromSliceRun (i : Internal) (offset : UInt64) (f : List UInt8) : Outcome Unit :=
  if offset + UInt64.ofNat f.length > i.cap then .panic i "write past end of buffer"
  else
    let (buf, offset, writes) := sliceLoop i.buf offset [] f
    { cell := { i with buf := buf, len := if offset > i.len then offset else i.len }
      reads := []
      writes := writes
      result := .ok () }

/-- `RawMessage::writestructref`: `t` is the byte representation of the value. -/
def writestructrefRun (i : Internal) (offset : UInt64) (t : List UInt8) : Outcome Unit :=
  let stop := offset + UInt64.ofNat t.length
  if stop > i.cap then
    .panic i ("write past end of buffer! " ++ toString stop ++ ":" ++ toString i.cap)
  else if t.length = 0 then { cell := i, reads := [], writes := [], result := .ok () }
  else
    -- `copy_memory::<T>(buf + offset, t, 1)`
    { cell := { i with buf := storeBytes i.buf offset t }
      reads := []
      writes := addresses offset t.length
      result := .ok () }

/-- `RawMessage::writestruct` hands the value on by reference and forgets it. -/
def writestructRun (i : Internal) (offset : UInt64) (t : List UInt8) : Outcome Unit :=
  i.writestructrefRun offset t

/-- `RawMessage::readstructunsaferef` of a type of `size` bytes. -/
def readstructunsaferefRun (junk : ℕ → UInt8) (i : Internal) (offset : UInt64) (size : ℕ) :
    Outcome (List UInt8) :=
  if offset + UInt64.ofNat size > i.cap then .panic i "read past end of buffer!"
  else
    { cell := i
      reads := addresses offset size
      writes := []
      result := .ok (loadBytes junk i.buf offset size) }

/-- `RawMessage::readstructunsafe` reads into a fresh value and returns it. -/
def readstructunsafeRun (junk : ℕ → UInt8) (i : Internal) (offset : UInt64) (size : ℕ) :
    Outcome (List UInt8) :=
  i.readstructunsaferefRun junk offset size

theorem writeFromSliceRun_cell? (i : Internal) (offset : UInt64) (f : List UInt8) :
    (i.writeFromSliceRun offset f).cell? = i.writeFromSlice offset f := by
  unfold writeFromSliceRun writeFromSlice
  rw [sliceLoop_eq]
  split
  · rfl
  · rfl

theorem writestructrefRun_cell? (i : Internal) (offset : UInt64) (t : List UInt8) :
    (i.writestructrefRun offset t).cell? = i.writestructref offset t := by
  unfold writestructrefRun writestructref
  dsimp only
  split
  · rfl
  · split
    · rfl
    · rfl

theorem readstructunsaferefRun_toOption (junk : ℕ → UInt8) (i : Internal) (offset : UInt64)
    (size : ℕ) : (i.readstructunsaferefRun junk offset size).toOption =
      i.readstructunsaferef junk offset size := by
  unfold readstructunsaferefRun readstructunsaferef
  split
  · rfl
  · rfl

end Internal

/-! ### The bounds check and the addresses -/

/-- The end of the range wraps round to a value the check lets through. -/
def WrapsInside (i : Internal) (offset : UInt64) (n : ℕ) : Prop :=
  2 ^ 64 ≤ offset.toNat + n ∧ offset + UInt64.ofNat n ≤ i.cap

theorem toNat_add_ofNat (offset : UInt64) (n : ℕ) :
    (offset + UInt64.ofNat n).toNat = (offset.toNat + n) % 2 ^ 64 := by
  rw [UInt64.toNat_add, UInt64.toNat_ofNat', Nat.add_mod_mod]

theorem mem_addresses_of_lt {n : ℕ} {offset a : UInt64} (h : offset.toNat + n < 2 ^ 64)
    (ha : a ∈ addresses offset n) : offset.toNat ≤ a.toNat ∧ a.toNat < offset.toNat + n := by
  obtain ⟨k, hk, rfl⟩ := mem_addresses.mp ha
  rw [toNat_add_ofNat]
  omega

/-- A range that reaches the end of the address space holds its last address. -/
theorem last_mem_addresses {n : ℕ} {offset : UInt64}
    (h : 2 ^ 64 ≤ offset.toNat + n) : ∃ a ∈ addresses offset n, a.toNat = 2 ^ 64 - 1 := by
  have hoff := offset.toNat_lt
  refine ⟨offset + UInt64.ofNat (2 ^ 64 - 1 - offset.toNat), ?_, ?_⟩
  · exact mem_addresses.mpr ⟨2 ^ 64 - 1 - offset.toNat, by omega, rfl⟩
  · rw [toNat_add_ofNat]
    omega

/-- Past the check the range is inside the buffer exactly when its end did not wrap. -/
theorem addresses_lt_cap_iff {i : Internal} {offset : UInt64} {n : ℕ}
    (hcheck : ¬ offset + UInt64.ofNat n > i.cap) :
    (∀ a ∈ addresses offset n, a < i.cap) ↔ ¬ WrapsInside i offset n := by
  have hle : offset + UInt64.ofNat n ≤ i.cap := UInt64.not_lt.mp hcheck
  constructor
  · rintro hall ⟨hwrap, -⟩
    obtain ⟨a, ha, hlast⟩ := last_mem_addresses hwrap
    have hlt := UInt64.lt_iff_toNat_lt.mp (hall a ha)
    have hcap := i.cap.toNat_lt
    omega
  · intro hnot a ha
    have hlt : offset.toNat + n < 2 ^ 64 := by
      by_cases hlt : offset.toNat + n < 2 ^ 64
      · exact hlt
      · exact absurd ⟨by omega, hle⟩ hnot
    have hrange := mem_addresses_of_lt hlt ha
    have hend := UInt64.le_iff_toNat_le.mp hle
    rw [toNat_add_ofNat, Nat.mod_eq_of_lt hlt] at hend
    rw [UInt64.lt_iff_toNat_lt]
    omega

theorem not_wrapsInside_of_gt {i : Internal} {offset : UInt64} {n : ℕ}
    (hcheck : offset + UInt64.ofNat n > i.cap) : ¬ WrapsInside i offset n := by
  rintro ⟨-, hle⟩
  exact absurd hcheck (UInt64.not_lt.mpr hle)

/-- The calls that rest on the comparison of `offset + size` with the capacity. -/
inductive Access where
  | writeFromSlice (f : List UInt8)
  | writestructref (t : List UInt8)
  | writestruct (t : List UInt8)
  | readstructunsaferef (size : ℕ)
  | readstructunsafe (size : ℕ)

/-- The number of bytes the call is about: a slice's length or a type's size. -/
def Access.size : Access → ℕ
  | .writeFromSlice f => f.length
  | .writestructref t => t.length
  | .writestruct t => t.length
  | .readstructunsaferef size => size
  | Access.readstructunsafe size => size

/-- The call at `offset` panics with nothing changed or stays inside the buffer. -/
def Access.Contained (junk : ℕ → UInt8) (i : Internal) (offset : UInt64) : Access → Prop
  | .writeFromSlice f => (i.writeFromSliceRun offset f).Contained i
  | .writestructref t => (i.writestructrefRun offset t).Contained i
  | .writestruct t => (i.writestructRun offset t).Contained i
  | .readstructunsaferef size => (i.readstructunsaferefRun junk offset size).Contained i
  | Access.readstructunsafe size => (i.readstructunsafeRun junk offset size).Contained i

theorem writeFromSliceRun_contained_iff {i : Internal} {offset : UInt64} {f : List UInt8} :
    (i.writeFromSliceRun offset f).Contained i ↔ ¬ WrapsInside i offset f.length := by
  unfold Internal.writeFromSliceRun
  by_cases hcheck : offset + UInt64.ofNat f.length > i.cap
  · rw [if_pos hcheck]
    exact iff_of_true ⟨rfl, rfl⟩ (not_wrapsInside_of_gt hcheck)
  · rw [if_neg hcheck, sliceLoop_eq]
    exact addresses_lt_cap_iff hcheck

theorem writestructrefRun_contained_iff {i : Internal} {offset : UInt64} {t : List UInt8} :
    (i.writestructrefRun offset t).Contained i ↔ ¬ WrapsInside i offset t.length := by
  unfold Internal.writestructrefRun
  dsimp only
  by_cases hcheck : offset + UInt64.ofNat t.length > i.cap
  · rw [if_pos hcheck]
    exact iff_of_true ⟨rfl, rfl⟩ (not_wrapsInside_of_gt hcheck)
  · rw [if_neg hcheck, ← addresses_lt_cap_iff hcheck]
    by_cases hzero : t.length = 0
    · rw [if_pos hzero, hzero]
      exact Iff.rfl
    · rw [if_neg hzero]
      exact Iff.rfl

theorem readstructunsaferefRun_contained_iff {junk : ℕ → UInt8} {i : Internal} {offset : UInt64}
    {size : ℕ} :
    (i.readstructunsaferefRun junk offset size).Contained i ↔ ¬ WrapsInside i offset size := by
  unfold Internal.readstructunsaferefRun
  by_cases hcheck : offset + UInt64.ofNat size > i.cap
  · rw [if_pos hcheck]
    exact iff_of_true ⟨rfl, rfl⟩ (not_wrapsInside_of_gt hcheck)
  · rw [if_neg hcheck, ← addresses_lt_cap_iff hcheck]
    unfold Outcome.Contained
    rw [List.append_nil]

/-- **When an access stays inside the buffer.**  For every buffer, offset and size, each of the
calls panics with nothing changed or touches only bytes below the capacity, exactly when the end
of its range does not wrap round to a value within the capacity. -/
theorem accesses_contained_iff (junk : ℕ → UInt8) (i : Internal) (offset : UInt64) (c : Access) :
    c.Contained junk i offset ↔ ¬ WrapsInside i offset c.size := by
  cases c with
  | writeFromSlice f => exact writeFromSliceRun_contained_iff
  | writestructref t => exact writestructrefRun_contained_iff
  | writestruct t => exact writestructrefRun_contained_iff
  | readstructunsaferef size => exact readstructunsaferefRun_contained_iff
  | readstructunsafe size => exact readstructunsaferefRun_contained_iff

/-- One byte written at the last address of all passes the check: the sum is `0`. -/
theorem write_at_last_address :
    ¬ (Access.writeFromSlice [7]).Contained (fun _ => 0) ⟨4, 4, [0, 0, 0, 0]⟩
        18446744073709551615 := by
  intro h
  have hlt : (18446744073709551615 : UInt64) < 4 := h 18446744073709551615 (by decide)
  exact absurd hlt (by decide)

/-! ### `resize` -/

/-- `Internal::resize`: one `copy_memory(nbuf, self.buf, n)` from the old buffer, which the reads
are relative to, into the new one, which the writes are relative to. -/
def Internal.resizeRun (junk : ℕ → UInt8) (i : Internal) (newcap : UInt64) : Outcome Unit :=
  let n := i.resizeCopied newcap
  { cell := i.resize junk newcap
    reads := addresses 0 n.toNat
    writes := addresses 0 n.toNat
    result := .ok () }

/-- The new buffer has the asked capacity, the old bytes as far as they go, and nothing was
touched outside the two buffers. -/
structure ResizeSafe (i : Internal) (newcap : UInt64) (o : Outcome Unit) : Prop where
  reads : ∀ a ∈ o.reads, a < i.cap
  writes : ∀ a ∈ o.writes, a < newcap
  cap : o.cell.cap = newcap
  len : o.cell.len.toNat = min i.len.toNat newcap.toNat
  contents : ∀ k < min i.cap.toNat newcap.toNat, o.cell.buf[k]? = i.buf[k]?

theorem resizeCopied_toNat (i : Internal) (newcap : UInt64) :
    (i.resizeCopied newcap).toNat = max i.cap.toNat newcap.toNat := by
  unfold Internal.resizeCopied
  split
  next h =>
    rw [UInt64.le_iff_toNat_le] at h
    omega
  next h =>
    rw [UInt64.le_iff_toNat_le] at h
    omega

theorem resize_len (junk : ℕ → UInt8) (i : Internal) (newcap : UInt64) :
    (i.resize junk newcap).len.toNat = min i.len.toNat newcap.toNat := by
  show (if i.len > newcap then newcap else i.len).toNat = _
  split
  next h =>
    have hlt := UInt64.lt_iff_toNat_lt.mp h
    omega
  next h =>
    have hle := UInt64.le_iff_toNat_le.mp (UInt64.not_lt.mp h)
    omega

/-- Growing or shrinking, the bytes both buffers have are kept. -/
theorem resize_contents (junk : ℕ → UInt8) {i : Internal} (hbuf : i.Allocated)
    (newcap : UInt64) {k : ℕ} (hk : k < min i.cap.toNat newcap.toNat) :
    (i.resize junk newcap).buf[k]? = i.buf[k]? := by
  have hlen : i.buf.length = i.cap.toNat := hbuf
  have hold : k < i.buf.length := by omega
  have hcopied : k < (i.resizeCopied newcap).toNat := by
    rw [resizeCopied_toNat]
    omega
  unfold Internal.resize
  rw [List.getElem?_map, List.getElem?_range (by omega), Option.map_some, if_pos hcopied,
    List.getD_eq_getElem?_getD, List.getElem?_eq_getElem hold, Option.getD_some]

/-- **When `resize` stays in bounds.**  It copies the larger capacity, so it reads past the old
buffer when growing and writes past the new one when shrinking. -/
theorem resize_safe_iff (junk : ℕ → UInt8) (i : Internal) (newcap : UInt64)
    (hbuf : i.Allocated) (hnew : 1 ≤ newcap.toNat) :
    ResizeSafe i newcap (i.resizeRun junk newcap) ↔ newcap = i.cap := by
  have hcopied := resizeCopied_toNat i newcap
  constructor
  · intro h
    have hlast : UInt64.ofNat ((i.resizeCopied newcap).toNat - 1) ∈
        addresses 0 (i.resizeCopied newcap).toNat :=
      mem_addresses.mpr ⟨_, by omega, (UInt64.zero_add _).symm⟩
    have hread := UInt64.lt_iff_toNat_lt.mp (h.reads _ hlast)
    have hwrite := UInt64.lt_iff_toNat_lt.mp (h.writes _ hlast)
    have hn := (i.resizeCopied newcap).toNat_lt
    rw [UInt64.toNat_ofNat', Nat.mod_eq_of_lt (by omega)] at hread hwrite
    rw [← UInt64.toNat_inj]
    omega
  · intro h
    have hall : ∀ a ∈ addresses 0 (i.resizeCopied newcap).toNat, a < newcap := by
      intro a ha
      have hn := newcap.toNat_lt
      have hrange := mem_addresses_of_lt (by rw [UInt64.toNat_zero, hcopied, ← h]; omega) ha
      rw [UInt64.toNat_zero, hcopied, ← h] at hrange
      rw [UInt64.lt_iff_toNat_lt]
      omega
    exact
      { reads := by rwa [← h]
        writes := hall
        cap := rfl
        len := resize_len junk i newcap
        contents := fun k hk => resize_contents junk hbuf newcap hk }

theorem resize_safe_iff_same :
    ResizeSafe ⟨2, 3, [1, 2, 3]⟩ 3
        ((⟨2, 3, [1, 2, 3]⟩ : Internal).resizeRun (fun _ => 0) 3) ↔ (3 : UInt64) = 3 :=
  resize_safe_iff (fun _ => 0) ⟨2, 3, [1, 2, 3]⟩ 3 rfl (by decide)

/-- Growing from two bytes to four reads the old buffer's bytes two and three. -/
theorem resize_grow_reads_past :
    ¬ ResizeSafe ⟨2, 2, [1, 2]⟩ 4
        ((⟨2, 2, [1, 2]⟩ : Internal).resizeRun (fun _ => 0) 4) := by
  intro h
  have hlt : (3 : UInt64) < 2 := h.reads 3 (by decide)
  exact absurd hlt (by decide)

end WaterNet.RawMessage
