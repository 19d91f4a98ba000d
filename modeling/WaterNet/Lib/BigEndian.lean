import Mathlib.Algebra.Group.Nat.Defs
import Mathlib.Data.List.Basic

/-!
# Big-endian words on a byte stream

A number written as `k` bytes, most significant first, and read back.

* `value_bytes` — reading what was written gives the number modulo `256 ^ k`;
* `takeWord_bytes_append` — a word at the head of a stream is read off whole, and the rest of the
  stream is left as it was;
* `TakesOff`, `TakesOff.trans` — readers that take a fixed number of bytes compose.
-/

namespace WaterNet.Lib.BigEndian

/-- The `k` low bytes of `n`, most significant first. -/
def bytes : ℕ → ℕ → List UInt8
  | 0, _ => []
  | k + 1, n => UInt8.ofNat (n / 256 ^ k) :: bytes k n

/-- The number that bytes stand for, most significant first. -/
def value : List UInt8 → ℕ
  | [] => 0
  | b :: bs => b.toNat * 256 ^ bs.length + value bs

@[simp] theorem length_bytes (k n : ℕ) : (bytes k n).length = k := by
  induction k with
  | zero => rfl
  | succ k ih => rw [bytes, List.length_cons, ih]

theorem value_bytes (k n : ℕ) : value (bytes k n) = n % 256 ^ k := by
  induction k with
  | zero => rw [Nat.pow_zero, Nat.mod_one, bytes, value]
  | succ k ih =>
    have htop : (UInt8.ofNat (n / 256 ^ k)).toNat = n / 256 ^ k % 256 := UInt8.toNat_ofNat'
    rw [bytes, value, ih, length_bytes, htop, Nat.mod_pow_succ, Nat.mul_comm, Nat.add_comm]

/-- The first `k` bytes of a stream as a number, if it has that many, and the bytes after them. -/
def takeWord (k : ℕ) (s : List UInt8) : Option (ℕ × List UInt8) :=
  if s.length < k then none else some (value (s.take k), s.drop k)

theorem takeWord_bytes_append (k n : ℕ) (rest : List UInt8) :
    takeWord k (bytes k n ++ rest) = some (n % 256 ^ k, rest) := by
  have hlen : ¬(bytes k n ++ rest).length < k := by simp
  rw [takeWord, if_neg hlen, List.take_left' (length_bytes k n), List.drop_left' (length_bytes k n),
    value_bytes]

/-! ### What a reader takes off a stream -/

/-- `rest` is what is left of `s` behind its first `k` bytes, all of which are there. -/
structure TakesOff (k : ℕ) (s rest : List UInt8) : Prop where
  le : k ≤ s.length
  eq : rest = s.drop k

theorem TakesOff.length {k : ℕ} {s rest : List UInt8} (h : TakesOff k s rest) :
    rest.length + k = s.length := by
  rw [h.eq, List.length_drop]
  exact Nat.sub_add_cancel h.le

/-- Two readers, one after the other. -/
theorem TakesOff.trans {j k : ℕ} {s s₁ s₂ : List UInt8} (h : TakesOff j s s₁) (h' : TakesOff k s₁ s₂) :
    TakesOff (j + k) s s₂ where
  le := by
    have hle := h'.le
    have hlen := h.length
    omega
  eq := by rw [h'.eq, h.eq, List.drop_drop]

/-- A word takes its bytes off the stream. -/
theorem takes_of_takeWord {k n : ℕ} {s rest : List UInt8} (h : takeWord k s = some (n, rest)) :
    TakesOff k s rest := by
  unfold takeWord at h
  split at h
  · cases h
  · rename_i hlen
    cases h
    exact ⟨Nat.not_lt.mp hlen, rfl⟩

end WaterNet.Lib.BigEndian
