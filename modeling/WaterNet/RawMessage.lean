import Mathlib.Algebra.Group.Nat.Defs
import Mathlib.Data.List.Basic

/-!
# The raw buffer (`rawmessage.rs`)

`Internal` is the heap cell behind a `RawMessage`: a length, a capacity and the allocated bytes.
`usize` is `UInt64`, so every sum below wraps modulo `2^64` as the source's sums do.  A method
that can panic returns `none` on the inputs it panics on.

* `new`, `dup`, `setlen`, `resize`, `writeFromSlice`, `writestructref`, `readstructunsaferef` are
  the methods; `RawOp` collects the mutating ones a holder of a `RawMessage` can call;
* `storeBytes_eq`, `getElem?_storeBytes` — stores that stay inside the buffer replace a range of
  it; `loadBytes_eq` — loads that stay inside read a range of it;
* `dup_dup` — a duplicate of a duplicate is the duplicate;
* `dup_asSlice_eq_iff` — what a duplicate shows agrees with the original exactly at full length.

Bytes an allocation has not been written to are arbitrary: they come from a parameter `junk`.
A store outside the allocation has no effect on the bytes kept here.
-/

namespace WaterNet.RawMessage

/-- `rawmessage::Internal`: the length, the capacity and the allocated bytes. -/
structure Internal where
  len : UInt64
  cap : UInt64
  buf : List UInt8
  deriving DecidableEq, Repr

/-- The allocation has the capacity's size. -/
def Internal.Allocated (i : Internal) : Prop := i.buf.length = i.cap.toNat

/-- `allocate(cap, _)`: `cap` bytes of whatever the memory held. -/
def allocate (junk : ℕ → UInt8) (cap : UInt64) : List UInt8 := (List.range cap.toNat).map junk

/-- Stores of consecutive bytes at `buf + offset`, `buf + offset + 1`, …; the address wraps. -/
def storeBytes (buf : List UInt8) (offset : UInt64) : List UInt8 → List UInt8
  | [] => buf
  | b :: bs => storeBytes (buf.set offset.toNat b) (offset + 1) bs

/-- The `n` bytes at `buf + offset`, …; an address outside the allocation reads `junk`. -/
def loadBytes (junk : ℕ → UInt8) (buf : List UInt8) (offset : UInt64) : ℕ → List UInt8
  | 0 => []
  | n + 1 => buf.getD offset.toNat (junk offset.toNat) :: loadBytes junk buf (offset + 1) n

theorem storeBytes_eq {buf : List UInt8} (hbuf : buf.length < 2 ^ 64) (f : List UInt8)
    (offset : UInt64) (h : offset.toNat + f.length ≤ buf.length) :
    storeBytes buf offset f = buf.take offset.toNat ++ f ++ buf.drop (offset.toNat + f.length) := by
  induction f generalizing buf offset with
  | nil => simp [storeBytes]
  | cons b f ih =>
    rw [List.length_cons] at h
    have hnext : (offset + 1).toNat = offset.toNat + 1 := by
      rw [UInt64.toNat_add]
      exact Nat.mod_eq_of_lt (by simp only [UInt64.toNat_one]; omega)
    have hlt : offset.toNat < buf.length := by omega
    rw [storeBytes, ih (by rwa [List.length_set]) (offset + 1)
      (by rw [hnext, List.length_set]; omega), hnext]
    have htake : (buf.set offset.toNat b).take (offset.toNat + 1) =
        buf.take offset.toNat ++ [b] := by
      rw [List.take_add_one, List.getElem?_set_self hlt, List.take_set_of_le (Nat.le_refl _)]
      rfl
    have hdrop : (buf.set offset.toNat b).drop (offset.toNat + 1 + f.length) =
        buf.drop (offset.toNat + (b :: f).length) := by
      rw [List.drop_set_of_lt (by omega), List.length_cons]
      congr 1
      omega
    rw [htake, hdrop]
    simp

/-- No store changes the allocation's size, wherever it goes. -/
@[simp] theorem length_storeBytes (buf : List UInt8) (offset : UInt64) (f : List UInt8) :
    (storeBytes buf offset f).length = buf.length := by
  induction f generalizing buf offset with
  | nil => rfl
  | cons b f ih => rw [storeBytes, ih, List.length_set]

/-- A store inside the buffer byte by byte: the stored bytes in their range, the old ones
elsewhere. -/
theorem getElem?_storeBytes {buf : List UInt8} (hbuf : buf.length < 2 ^ 64) {f : List UInt8}
    {offset : UInt64} (h : offset.toNat + f.length ≤ buf.length) (k : ℕ) :
    (storeBytes buf offset f)[k]? =
      if offset.toNat ≤ k ∧ k < offset.toNat + f.length then f[k - offset.toNat]? else buf[k]? := by
  have htake : (buf.take offset.toNat).length = offset.toNat := by
    rw [List.length_take]
    omega
  rw [storeBytes_eq hbuf f offset h, List.append_assoc]
  by_cases hlo : k < offset.toNat
  · rw [if_neg (by omega), List.getElem?_append_left (by omega), List.getElem?_take_of_lt hlo]
  · rw [List.getElem?_append_right (by omega), htake]
    by_cases hhi : k < offset.toNat + f.length
    · rw [if_pos ⟨by omega, hhi⟩, List.getElem?_append_left (by omega)]
    · rw [if_neg (by omega), List.getElem?_append_right (by omega), List.getElem?_drop]
      congr 1
      omega

/-- A load inside the buffer reads a range of it. -/
theorem loadBytes_eq (junk : ℕ → UInt8) {buf : List UInt8} (hbuf : buf.length < 2 ^ 64) (n : ℕ)
    (offset : UInt64) (h : offset.toNat + n ≤ buf.length) :
    loadBytes junk buf offset n = (buf.drop offset.toNat).take n := by
  induction n generalizing offset with
  | zero => rw [loadBytes, List.take_zero]
  | succ n ih =>
    have hlt : offset.toNat < buf.length := by omega
    have hnext : (offset + 1).toNat = offset.toNat + 1 := by
      rw [UInt64.toNat_add]
      exact Nat.mod_eq_of_lt (by simp only [UInt64.toNat_one]; omega)
    rw [loadBytes, ih (offset + 1) (by omega), hnext, List.drop_eq_getElem_cons hlt,
      List.take_succ_cons, List.getD_eq_getElem?_getD, List.getElem?_eq_getElem hlt,
      Option.getD_some]

namespace Internal

/-- `Internal::new`: a request for zero bytes allocates one. -/
def new (junk : ℕ → UInt8) (cap : UInt64) : Internal :=
  let cap := if cap = 0 then 1 else cap
  { len := cap, cap := cap, buf := allocate junk cap }

theorem new_allocated (junk : ℕ → UInt8) (cap : UInt64) : (new junk cap).Allocated := by
  show (allocate junk _).length = _
  rw [allocate, List.length_map, List.length_range]
  rfl

/-- A new buffer has room for as many bytes as were asked for. -/
theorem le_new_cap (junk : ℕ → UInt8) {n : ℕ} (hn : n < 2 ^ 64) :
    n ≤ (new junk (UInt64.ofNat n)).cap.toNat := by
  have hofNat : (UInt64.ofNat n).toNat = n := by rw [UInt64.toNat_ofNat', Nat.mod_eq_of_lt hn]
  show n ≤ (if UInt64.ofNat n = 0 then 1 else UInt64.ofNat n).toNat
  split
  next h0 =>
    rw [h0, UInt64.toNat_zero] at hofNat
    omega
  next => omega

/-- `Internal::dup`: a fresh allocation of `cap` bytes, all of them overwritten by the copy. -/
def dup (i : Internal) : Internal :=
  { len := i.cap, cap := i.cap, buf := i.buf.take i.cap.toNat }

/-- `Internal::setlen`: panics past the capacity. -/
def setlen (i : Internal) (len : UInt64) : Option Internal :=
  if len > i.cap then none else some { i with len := len }

/-- The number of bytes `resize` copies from the old buffer into the new one. -/
def resizeCopied (i : Internal) (newcap : UInt64) : UInt64 :=
  if newcap ≤ i.cap then i.cap else newcap

/-- `Internal::resize`: of the copied bytes only those inside the new allocation are kept, and
those read past the old one are `junk`. -/
def resize (junk : ℕ → UInt8) (i : Internal) (newcap : UInt64) : Internal :=
  { len := if i.len > newcap then newcap else i.len
    cap := newcap
    buf := (List.range newcap.toNat).map fun k =>
      if k < (i.resizeCopied newcap).toNat then i.buf.getD k (junk k) else junk k }

/-- `RawMessage::write_from_slice`: the end offset is a wrapping sum. -/
def writeFromSlice (i : Internal) (offset : UInt64) (f : List UInt8) : Option Internal :=
  if offset + UInt64.ofNat f.length > i.cap then none
  else
    let stop := offset + UInt64.ofNat f.length
    some { i with
      buf := storeBytes i.buf offset f
      len := if stop > i.len then stop else i.len }

/-- `RawMessage::writestructref`: `t` is the byte representation of the value. -/
def writestructref (i : Internal) (offset : UInt64) (t : List UInt8) : Option Internal :=
  if offset + UInt64.ofNat t.length > i.cap then none
  else if t.length = 0 then some i
  else some { i with buf := storeBytes i.buf offset t }

/-- `RawMessage::readstructunsaferef`: the byte representation of a value of `size` bytes. -/
def readstructunsaferef (junk : ℕ → UInt8) (i : Internal) (offset : UInt64) (size : ℕ) :
    Option (List UInt8) :=
  if offset + UInt64.ofNat size > i.cap then none else some (loadBytes junk i.buf offset size)

/-- `RawMessage::as_slice`: the first `len` bytes. -/
def asSlice (i : Internal) : List UInt8 := i.buf.take i.len.toNat

/-- A store through `RawMessage::as_mutslice`: an index past the length panics. -/
def setMutslice (i : Internal) (k : ℕ) (b : UInt8) : Option Internal :=
  if k < i.len.toNat then some { i with buf := i.buf.set k b } else none

@[simp] theorem dup_len (i : Internal) : i.dup.len = i.cap := rfl

@[simp] theorem dup_cap (i : Internal) : i.dup.cap = i.cap := rfl

@[simp] theorem dup_buf (i : Internal) : i.dup.buf = i.buf.take i.cap.toNat := rfl

@[simp] theorem dup_dup (i : Internal) : i.dup.dup = i.dup := by
  simp [dup, List.take_take]

/-- A new buffer overwritten from its first byte to its last. -/
theorem writeFromSlice_new (junk : ℕ → UInt8) {cap : UInt64} (hcap : cap ≠ 0) {f : List UInt8}
    (hf : f.length = cap.toNat) :
    (new junk cap).writeFromSlice 0 f = some { len := cap, cap := cap, buf := f } := by
  have hofNat : UInt64.ofNat f.length = cap := by rw [hf, UInt64.ofNat_toNat]
  have hlen : (allocate junk cap).length = cap.toNat := by simp [allocate]
  have hstore : storeBytes (allocate junk cap) 0 f = f := by
    rw [storeBytes_eq (by rw [hlen]; exact cap.toNat_lt) f 0 (by simp [hlen, hf])]
    simp [hlen, hf]
  simp [writeFromSlice, new, hcap, hofNat, hstore]

/-- **What a duplicate shows.**  Its length and its slice are the original's exactly when the
original's length was its whole capacity. -/
theorem dup_asSlice_eq_iff (i : Internal) :
    (i.dup.len = i.len ∧ i.dup.asSlice = i.asSlice) ↔ i.len = i.cap := by
  constructor
  · rintro ⟨hlen, -⟩
    exact hlen.symm
  · intro h
    refine ⟨h.symm, ?_⟩
    simp [asSlice, h, List.take_take]

end Internal

/-- The calls by which the holder of a `RawMessage` changes its buffer. -/
inductive RawOp where
  | setlen (len : UInt64)
  | resize (junk : ℕ → UInt8) (newcap : UInt64)
  | writeFromSlice (offset : UInt64) (f : List UInt8)
  | writestruct (offset : UInt64) (t : List UInt8)
  | setMutslice (k : ℕ) (b : UInt8)

/-- The buffer after the call, `none` where the call panics. -/
def RawOp.apply (i : Internal) : RawOp → Option Internal
  | .setlen len => i.setlen len
  | .resize junk newcap => some (i.resize junk newcap)
  | .writeFromSlice offset f => i.writeFromSlice offset f
  | .writestruct offset t => i.writestructref offset t
  | .setMutslice k b => i.setMutslice k b

end WaterNet.RawMessage
