import WaterNet.RawMessage
import WaterNet.Lib.BigEndian
import WaterNet.Lib.Machine

/-!
# Typed reads and writes (`rawmessage.rs`)

A type of fixed size has a byte representation from which its values can be read back; the
`writestruct` family stores it and the `readstruct` family loads it.  A sequence of writes of any
types, and of byte slices, is compared with what a reader expects of each single byte: the byte of
the last write over it, or the one that was there.

* `FixedSize` — the representation of a type, injective because it can be read back;
* `write_eq` — what one write in range does, whichever of the two writing loops it takes;
* `run_write` — what a sequence of them leaves: byte by byte, capacity and length;
* `typed_read_last_write` — **a typed read sees the last write of its type that nothing later
  overlaps**, bytes under no write are kept, and only slices move the length.
-/

namespace WaterNet.RawMessage

open WaterNet.Lib.Machine (run run_cons_eq_some)

/-- A type of `size_of::<T>()` bytes: the bytes of its values, and the value read from bytes. -/
class FixedSize (T : Type) where
  size : ℕ
  toBytes : T → List UInt8
  length_toBytes : ∀ t, (toBytes t).length = size
  ofBytes : List UInt8 → T
  ofBytes_toBytes : ∀ t, ofBytes (toBytes t) = t

namespace FixedSize

/-- A machine word of `size` bytes, the least significant first. -/
abbrev ofWord {T : Type} (size : ℕ) (toNat : T → ℕ) (ofNat : ℕ → T)
    (hlt : ∀ t, toNat t < 256 ^ size) (hinv : ∀ t, ofNat (toNat t) = t) : FixedSize T where
  size := size
  toBytes t := (Lib.BigEndian.bytes size (toNat t)).reverse
  length_toBytes t := by rw [List.length_reverse, Lib.BigEndian.length_bytes]
  ofBytes l := ofNat (Lib.BigEndian.value l.reverse)
  ofBytes_toBytes t := by
    rw [List.reverse_reverse, Lib.BigEndian.value_bytes, Nat.mod_eq_of_lt (hlt t), hinv]

instance : FixedSize UInt8 :=
  ofWord 1 UInt8.toNat UInt8.ofNat (fun t => t.toNat_lt) (fun _ => UInt8.ofNat_toNat)

instance : FixedSize UInt16 :=
  ofWord 2 UInt16.toNat UInt16.ofNat (fun t => t.toNat_lt) (fun _ => UInt16.ofNat_toNat)

instance : FixedSize UInt32 :=
  ofWord 4 UInt32.toNat UInt32.ofNat (fun t => t.toNat_lt) (fun _ => UInt32.ofNat_toNat)

instance : FixedSize Int8 :=
  ofWord 1 (fun t => t.toUInt8.toNat) (fun n => (UInt8.ofNat n).toInt8)
    (fun t => t.toUInt8.toNat_lt) (fun _ => by rw [UInt8.ofNat_toNat, Int8.toInt8_toUInt8])

instance : FixedSize Int16 :=
  ofWord 2 (fun t => t.toUInt16.toNat) (fun n => (UInt16.ofNat n).toInt16)
    (fun t => t.toUInt16.toNat_lt) (fun _ => by rw [UInt16.ofNat_toNat, Int16.toInt16_toUInt16])

instance : FixedSize Int32 :=
  ofWord 4 (fun t => t.toUInt32.toNat) (fun n => (UInt32.ofNat n).toInt32)
    (fun t => t.toUInt32.toNat_lt) (fun _ => by rw [UInt32.ofNat_toNat, Int32.toInt32_toUInt32])

end FixedSize

open FixedSize (size toBytes ofBytes length_toBytes ofBytes_toBytes)

namespace Internal

section Typed

variable {T : Type} [FixedSize T]

/-- `RawMessage::writestruct` on a value; `writestructref` copies its bytes. -/
def writestruct (i : Internal) (offset : UInt64) (t : T) : Option Internal :=
  i.writestructref offset (toBytes t)

/-- `RawMessage::readstructunsafe`. -/
def readstructunsafe (T : Type) [FixedSize T] (junk : ℕ → UInt8) (i : Internal)
    (offset : UInt64) : Option T :=
  (i.readstructunsaferef junk offset (size T)).map ofBytes

end Typed

def writeu8 (i : Internal) (offset : UInt64) (value : UInt8) := i.writestruct offset value

def writeu16 (i : Internal) (offset : UInt64) (value : UInt16) := i.writestruct offset value

def writeu32 (i : Internal) (offset : UInt64) (value : UInt32) := i.writestruct offset value

def writei8 (i : Internal) (offset : UInt64) (value : Int8) := i.writestruct offset value

def writei16 (i : Internal) (offset : UInt64) (value : Int16) := i.writestruct offset value

def writei32 (i : Internal) (offset : UInt64) (value : Int32) := i.writestruct offset value

def readu8 (junk : ℕ → UInt8) (i : Internal) := readstructunsafe UInt8 junk i

def readu16 (junk : ℕ → UInt8) (i : Internal) := readstructunsafe UInt16 junk i

def readu32 (junk : ℕ → UInt8) (i : Internal) := readstructunsafe UInt32 junk i

def readi8 (junk : ℕ → UInt8) (i : Internal) := readstructunsafe Int8 junk i

def readi16 (junk : ℕ → UInt8) (i : Internal) := readstructunsafe Int16 junk i

def readi32 (junk : ℕ → UInt8) (i : Internal) := readstructunsafe Int32 junk i

end Internal

/-! ### Sequences of writes -/

/-- The calls that write into a buffer. -/
inductive Write where
  | writeu8 (offset : UInt64) (value : UInt8)
  | writeu16 (offset : UInt64) (value : UInt16)
  | writeu32 (offset : UInt64) (value : UInt32)
  | writei8 (offset : UInt64) (value : Int8)
  | writei16 (offset : UInt64) (value : Int16)
  | writei32 (offset : UInt64) (value : Int32)
  | writestruct {T : Type} [FixedSize T] (offset : UInt64) (t : T)
  | writestructref {T : Type} [FixedSize T] (offset : UInt64) (t : T)
  | writeFromSlice (offset : UInt64) (f : List UInt8)

def Internal.write (i : Internal) : Write → Option Internal
  | .writeu8 offset value => i.writeu8 offset value
  | .writeu16 offset value => i.writeu16 offset value
  | .writeu32 offset value => i.writeu32 offset value
  | .writei8 offset value => i.writei8 offset value
  | .writei16 offset value => i.writei16 offset value
  | .writei32 offset value => i.writei32 offset value
  | @Write.writestruct _ _ offset t => i.writestruct offset t
  | @Write.writestructref _ _ offset t => i.writestructref offset (toBytes t)
  | .writeFromSlice offset f => i.writeFromSlice offset f

namespace Write

def offset : Write → UInt64
  | .writeu8 offset _ => offset
  | .writeu16 offset _ => offset
  | .writeu32 offset _ => offset
  | .writei8 offset _ => offset
  | .writei16 offset _ => offset
  | .writei32 offset _ => offset
  | @writestruct _ _ offset _ => offset
  | @writestructref _ _ offset _ => offset
  | .writeFromSlice offset _ => offset

def bytes : Write → List UInt8
  | .writeu8 _ value => toBytes value
  | .writeu16 _ value => toBytes value
  | .writeu32 _ value => toBytes value
  | .writei8 _ value => toBytes value
  | .writei16 _ value => toBytes value
  | .writei32 _ value => toBytes value
  | @writestruct _ _ _ t => toBytes t
  | @writestructref _ _ _ t => toBytes t
  | .writeFromSlice _ f => f

/-- The end of the written range. -/
def stop (w : Write) : ℕ := w.offset.toNat + w.bytes.length

/-- The range does not wrap and ends within the capacity. -/
def InRange (cap : UInt64) (w : Write) : Prop := w.stop ≤ cap.toNat

instance (cap : UInt64) (w : Write) : Decidable (w.InRange cap) := by unfold InRange; infer_instance

/-- The byte `k` of the buffer is in the written range. -/
def Covers (w : Write) (k : ℕ) : Prop := w.offset.toNat ≤ k ∧ k < w.stop

instance (w : Write) (k : ℕ) : Decidable (w.Covers k) := by unfold Covers; infer_instance

/-- The byte `k` after the write, from what it was before. -/
def byteAfter (k : ℕ) (old : Option UInt8) (w : Write) : Option UInt8 :=
  if w.Covers k then w.bytes[k - w.offset.toNat]? else old

/-- The length after the write: only a slice moves it, to the end of the range at least. -/
def lenAfter (len : ℕ) : Write → ℕ
  | .writeFromSlice offset f => max len (offset.toNat + f.length)
  | _ => len

/-- The write stores the value `t` of `T` at `o`. -/
def Stores {T : Type} [FixedSize T] (w : Write) (o : UInt64) (t : T) : Prop :=
  w.offset = o ∧ w.bytes = toBytes t

end Write

section InRange

variable {i : Internal} {offset : UInt64}

/-- The check on the wrapping sum lets a range inside the buffer through. -/
theorem check_of_le {n : ℕ} (h : offset.toNat + n ≤ i.cap.toNat) :
    ¬ offset + UInt64.ofNat n > i.cap ∧ (offset + UInt64.ofNat n).toNat = offset.toNat + n := by
  have hcap := i.cap.toNat_lt
  have hsum : (offset + UInt64.ofNat n).toNat = offset.toNat + n := by
    rw [UInt64.toNat_add, UInt64.toNat_ofNat', Nat.add_mod_mod, Nat.mod_eq_of_lt (by omega)]
  refine ⟨?_, hsum⟩
  intro hgt
  have hlt := UInt64.lt_iff_toNat_lt.mp hgt
  omega

theorem writestructref_eq {t : List UInt8} (h : offset.toNat + t.length ≤ i.cap.toNat) :
    i.writestructref offset t = some { i with buf := storeBytes i.buf offset t } := by
  rw [Internal.writestructref, if_neg (check_of_le h).1]
  by_cases hzero : t.length = 0
  · rw [if_pos hzero, List.length_eq_zero_iff.mp hzero]
    rfl
  · rw [if_neg hzero]

theorem writeFromSlice_eq {f : List UInt8} (h : offset.toNat + f.length ≤ i.cap.toNat) :
    ∃ len, i.writeFromSlice offset f =
        some { i with buf := storeBytes i.buf offset f, len := len } ∧
      len.toNat = max i.len.toNat (offset.toNat + f.length) := by
  obtain ⟨hcheck, hsum⟩ := check_of_le h
  refine ⟨_, by rw [Internal.writeFromSlice, if_neg hcheck], ?_⟩
  split
  next hgt =>
    have hlt := UInt64.lt_iff_toNat_lt.mp hgt
    omega
  next hle =>
    have hle' := UInt64.le_iff_toNat_le.mp (UInt64.not_lt.mp hle)
    omega

end InRange

/-- One write in range stores its bytes and moves the length as `lenAfter` says. -/
theorem write_eq {i : Internal} {w : Write} (h : w.InRange i.cap) :
    ∃ len, i.write w = some { i with buf := storeBytes i.buf w.offset w.bytes, len := len } ∧
      len.toNat = w.lenAfter i.len.toNat := by
  cases w with
  | writeFromSlice offset f => exact writeFromSlice_eq h
  | writeu8 offset value => exact ⟨i.len, writestructref_eq h, rfl⟩
  | writeu16 offset value => exact ⟨i.len, writestructref_eq h, rfl⟩
  | writeu32 offset value => exact ⟨i.len, writestructref_eq h, rfl⟩
  | writei8 offset value => exact ⟨i.len, writestructref_eq h, rfl⟩
  | writei16 offset value => exact ⟨i.len, writestructref_eq h, rfl⟩
  | writei32 offset value => exact ⟨i.len, writestructref_eq h, rfl⟩
  | writestruct offset t => exact ⟨i.len, writestructref_eq h, rfl⟩
  | writestructref offset t => exact ⟨i.len, writestructref_eq h, rfl⟩

/-- What a sequence of writes has left of the buffer `i`. -/
structure WritesLeave (i : Internal) (ws : List Write) (j : Internal) : Prop where
  cap : j.cap = i.cap
  allocated : j.Allocated
  len : j.len.toNat = ws.foldl Write.lenAfter i.len.toNat
  byte : ∀ k, j.buf[k]? = ws.foldl (Write.byteAfter k) i.buf[k]?

theorem run_write {i : Internal} {ws : List Write} (hbuf : i.Allocated)
    (h : ∀ w ∈ ws, w.InRange i.cap) : ∃ j, run Internal.write i ws = some j ∧ WritesLeave i ws j := by
  induction ws generalizing i with
  | nil => exact ⟨i, rfl, ⟨rfl, hbuf, rfl, fun _ => rfl⟩⟩
  | cons w ws ih =>
    have hw : w.InRange i.cap := h w List.mem_cons_self
    obtain ⟨len, hstep, hlen⟩ := write_eq hw
    have hbuf' : i.buf.length = i.cap.toNat := hbuf
    have hcap := i.cap.toNat_lt
    obtain ⟨j, hj, hleave⟩ := ih (i := { i with buf := storeBytes i.buf w.offset w.bytes, len := len })
      (by rw [Internal.Allocated, length_storeBytes, hbuf'])
      (fun w' hw' => h w' (List.mem_cons_of_mem w hw'))
    have hbyte : ∀ k, (storeBytes i.buf w.offset w.bytes)[k]? = w.byteAfter k i.buf[k]? := by
      intro k
      exact getElem?_storeBytes (by omega) (by rw [hbuf']; exact hw) k
    refine ⟨j, run_cons_eq_some.mpr ⟨_, hstep, hj⟩, hleave.cap, hleave.allocated, ?_, ?_⟩
    · rw [List.foldl_cons, hleave.len, hlen]
    · intro k
      rw [List.foldl_cons, hleave.byte k, hbyte k]

/-! ### What readers see -/

/-- A byte under none of the writes is what it was. -/
theorem foldl_byteAfter_of_not_covered {ws : List Write} {k : ℕ} {old : Option UInt8}
    (h : ∀ w ∈ ws, ¬ w.Covers k) : ws.foldl (Write.byteAfter k) old = old := by
  induction ws generalizing old with
  | nil => rfl
  | cons w ws ih =>
    have hstep : w.byteAfter k old = old := if_neg (h w List.mem_cons_self)
    rw [List.foldl_cons, hstep]
    exact ih fun w' hw' => h w' (List.mem_cons_of_mem w hw')

/-- A byte under `w` and under nothing later is the byte of `w`. -/
theorem foldl_byteAfter_last {before after : List Write} {w : Write} {k : ℕ} {old : Option UInt8}
    (hw : w.Covers k) (hafter : ∀ w' ∈ after, ¬ w'.Covers k) :
    (before ++ w :: after).foldl (Write.byteAfter k) old = w.bytes[k - w.offset.toNat]? := by
  have hstep : ∀ old, w.byteAfter k old = w.bytes[k - w.offset.toNat]? := fun old => if_pos hw
  rw [List.foldl_append, List.foldl_cons, hstep, foldl_byteAfter_of_not_covered hafter]

/-- The two ranges share a byte. -/
def Write.Overlaps (w : Write) (o : UInt64) (n : ℕ) : Prop :=
  ∃ k, w.Covers k ∧ o.toNat ≤ k ∧ k < o.toNat + n

theorem not_covers_of_not_overlaps {w : Write} {o : UInt64} {n k : ℕ} (h : ¬ w.Overlaps o n)
    (hlo : o.toNat ≤ k) (hhi : k < o.toNat + n) : ¬ w.Covers k :=
  fun hcov => h ⟨k, hcov, hlo, hhi⟩

/-- A typed read of a range that holds a value's bytes returns the value. -/
theorem readstructunsafe_of_bytes {T : Type} [FixedSize T] (junk : ℕ → UInt8) {j : Internal}
    (hbuf : j.Allocated) {o : UInt64} {t : T} (hin : o.toNat + size T ≤ j.cap.toNat)
    (hbytes : ∀ n < size T, j.buf[o.toNat + n]? = (toBytes t)[n]?) :
    Internal.readstructunsafe T junk j o = some t := by
  have hcap := j.cap.toNat_lt
  have hlen : j.buf.length = j.cap.toNat := hbuf
  have hslice : (j.buf.drop o.toNat).take (size T) = toBytes t := by
    apply List.ext_getElem?
    intro n
    by_cases hn : n < size T
    · rw [List.getElem?_take_of_lt hn, List.getElem?_drop, hbytes n hn]
    · have hlt : (toBytes t).length ≤ n := by
        rw [length_toBytes]
        omega
      rw [List.getElem?_eq_none hlt, List.getElem?_eq_none]
      rw [List.length_take]
      omega
  rw [Internal.readstructunsafe, Internal.readstructunsaferef, if_neg (check_of_le hin).1,
    loadBytes_eq junk (by omega) (size T) o (by omega), hslice, Option.map_some, ofBytes_toBytes]

/-- **Typed reads see the last write.**  After any writes in range: a typed read at `o` returns
the value of the last write of its type at `o` if no later write overlaps it; bytes under no write
are kept; the capacity is kept; and the length is moved by slices only, to the end of each. -/
theorem typed_read_last_write (junk : ℕ → UInt8) (i : Internal) (ws : List Write)
    (hbuf : i.Allocated) (hrange : ∀ w ∈ ws, w.InRange i.cap) :
    ∃ j, run Internal.write i ws = some j ∧
      (∀ (T : Type) [FixedSize T] (before after : List Write) (w : Write) (o : UInt64) (t : T),
        ws = before ++ w :: after → w.Stores o t → (∀ w' ∈ after, ¬ w'.Overlaps o (size T)) →
        Internal.readstructunsafe T junk j o = some t) ∧
      (∀ k, (∀ w ∈ ws, ¬ w.Covers k) → j.buf[k]? = i.buf[k]?) ∧
      j.cap = i.cap ∧ j.len.toNat = ws.foldl Write.lenAfter i.len.toNat := by
  obtain ⟨j, hj, hleave⟩ := run_write hbuf hrange
  refine ⟨j, hj, ?_, ?_, hleave.cap, hleave.len⟩
  · intro T _ before after w o t hws hstores hlater
    have hin : o.toNat + size T ≤ j.cap.toNat := by
      have hw : w.InRange i.cap := hrange w (by rw [hws]; simp)
      rw [Write.InRange, Write.stop, hstores.1, hstores.2, length_toBytes] at hw
      rw [hleave.cap]
      exact hw
    apply readstructunsafe_of_bytes junk hleave.allocated hin
    intro n hn
    have hcov : w.Covers (o.toNat + n) := by
      rw [Write.Covers, Write.stop, hstores.1, hstores.2, length_toBytes]
      omega
    have hafter : ∀ w' ∈ after, ¬ w'.Covers (o.toNat + n) := fun w' hw' =>
      not_covers_of_not_overlaps (hlater w' hw') (by omega) (by omega)
    rw [hleave.byte, hws, foldl_byteAfter_last hcov hafter, hstores.1, hstores.2,
      Nat.add_sub_cancel_left]
  · intro k hk
    rw [hleave.byte, foldl_byteAfter_of_not_covered hk]

/-- A word, a half word over its end, and a slice next to that one. -/
theorem typed_read_last_write_overlap :
    ∃ j, run Internal.write ⟨4, 8, [0, 0, 0, 0, 0, 0, 0, 0]⟩
        [.writeu32 0 67305985, .writei16 2 (-2), .writeFromSlice 4 [9, 9]] = some j ∧
      j.readi16 (fun _ => 0) 2 = some (-2) := by
  obtain ⟨j, hj, hread, -⟩ := typed_read_last_write (fun _ => 0)
    ⟨4, 8, [0, 0, 0, 0, 0, 0, 0, 0]⟩
    [.writeu32 0 67305985, .writei16 2 (-2), .writeFromSlice 4 [9, 9]] (by rfl) (by decide)
  refine ⟨j, hj, hread Int16 [.writeu32 0 67305985] [.writeFromSlice 4 [9, 9]]
    (.writei16 2 (-2)) 2 (-2) rfl ⟨rfl, rfl⟩ ?_⟩
  intro w' hw'
  obtain rfl := List.mem_singleton.mp hw'
  rintro ⟨k, hcov, -, hhi⟩
  have hlo : 4 ≤ k := hcov.1
  have hhi' : k < 2 + 2 := hhi
  omega

end WaterNet.RawMessage
