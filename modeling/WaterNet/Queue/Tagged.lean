import Mathlib.Data.List.Nodup
import WaterNet.Lib.Pool

/-!
# Values and the puts that brought them

Under several threads the values of a queue are told apart by the number of the put that brought
them.  `ofPut` counts the value of one put wherever tagged values are kept.

* `nodup_of_once` — counted once at most, they are different values;
* `perm_tagged_of_once` — counted once each, they are the values put.
-/

namespace WaterNet.Queue

open Lib.Pool

/-- A value and the number of the put that brought it. -/
structure Tagged (α : Type*) where
  origin : ℕ
  value : α
  deriving DecidableEq, Repr

variable {α : Type*}

/-- The value belongs to put number `n`. -/
def ofPut (n : ℕ) (v : Tagged α) : ℕ := if v.origin = n then 1 else 0

/-- The values put, each with the number of its put. -/
def tagged (puts : List α) : List (Tagged α) := puts.mapIdx Tagged.mk

theorem ofPut_self (v : Tagged α) : ofPut v.origin v = 1 := if_pos rfl

theorem origin_eq_of_ofPut_pos {n : ℕ} {v : Tagged α} (h : 0 < ofPut n v) : v.origin = n := by
  by_contra hne
  rw [ofPut, if_neg hne] at h
  cases h

theorem nodup_of_once {l : List (Tagged α)} (h : ∀ n, total (ofPut n) l ≤ 1) :
    (l.map Tagged.origin).Nodup := by
  rw [List.nodup_iff_pairwise_ne, List.pairwise_iff_getElem]
  intro i j hi hj hij heq
  rw [List.length_map] at hi hj
  rw [List.getElem_map, List.getElem_map] at heq
  have hle := add_le_total (ofPut l[i].origin) (Nat.ne_of_lt hij) (List.getElem?_eq_getElem hi)
    (List.getElem?_eq_getElem hj)
  have honce := h l[i].origin
  rw [ofPut_self, ofPut, if_pos heq.symm] at hle
  omega

/-- There are no more of them than puts. -/
theorem length_le_of_once {l : List (Tagged α)} {puts : List α}
    (h : ∀ n, total (ofPut n) l ≤ 1) (hput : ∀ v ∈ l, puts[v.origin]? = some v.value) :
    l.length ≤ puts.length := by
  have hsub : l.map Tagged.origin ⊆ List.range puts.length := by
    intro n hn
    obtain ⟨v, hv, rfl⟩ := List.mem_map.mp hn
    exact List.mem_range.mpr (List.getElem?_eq_some_iff.mp (hput v hv)).1
  have hle := List.Nodup.length_le_of_subset (nodup_of_once h) hsub
  rwa [List.length_map, List.length_range] at hle

theorem mem_tagged {puts : List α} {v : Tagged α} :
    v ∈ tagged puts ↔ puts[v.origin]? = some v.value := by
  rw [tagged, List.mem_mapIdx]
  constructor
  · rintro ⟨n, hn, rfl⟩
    exact List.getElem?_eq_getElem hn
  · intro h
    obtain ⟨hlt, heq⟩ := List.getElem?_eq_some_iff.mp h
    exact ⟨v.origin, hlt, by rw [heq]⟩

theorem nodup_tagged (puts : List α) : (tagged puts).Nodup := by
  rw [List.nodup_iff_pairwise_ne, List.pairwise_iff_getElem]
  intro i j hi hj hij heq
  simp only [tagged, List.getElem_mapIdx, Tagged.mk.injEq] at heq
  omega

theorem perm_tagged_of_once {l : List (Tagged α)} {puts : List α}
    (h : ∀ n, total (ofPut n) l = if n < puts.length then 1 else 0)
    (hput : ∀ v ∈ l, puts[v.origin]? = some v.value) : l.Perm (tagged puts) := by
  have hle : ∀ n, total (ofPut n) l ≤ 1 := by
    intro n
    rw [h n]
    split <;> omega
  refine (List.perm_ext_iff_of_nodup (nodup_of_once hle).of_map (nodup_tagged puts)).mpr fun v =>
    ⟨fun hv => mem_tagged.mpr (hput v hv), fun hv => ?_⟩
  have hv' := mem_tagged.mp hv
  have hpos : 0 < total (ofPut v.origin) l := by
    rw [h, if_pos (List.getElem?_eq_some_iff.mp hv').1]
    exact Nat.one_pos
  obtain ⟨x, hx, hxpos⟩ := exists_of_total_pos hpos
  have horigin := origin_eq_of_ofPut_pos hxpos
  have hxv := hput x hx
  rw [horigin, hv'] at hxv
  obtain ⟨origin, value⟩ := x
  obtain ⟨origin', value'⟩ := v
  obtain rfl := Option.some.inj hxv
  obtain rfl : origin = origin' := horigin
  exact hx

end WaterNet.Queue
