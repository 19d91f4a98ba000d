import WaterNet.Queue.LinkStep

/-!
# A get that runs alone (`queue.rs`)

While the other threads pause, the steps of one thread through `get` do what the call does when it
is run without interruption.

* `taildeallocLoop_alone`, `claimLoop_alone` — its two loops;
* `get_alone` — the call.
-/

namespace WaterNet.Queue.Link

open Lib.Machine
open InfiniteLinkQueue (taildeallocLoop claimLoop get_cases)

variable {α : Type*}

/-- The queue is `q` and the thread `t` at `pc`, the rest as in `w`. -/
def World.atPc (w : World α) (t : ℕ) (q : InfiniteLinkQueue (Tagged α)) (pc : Pc α) : World α :=
  { w with q := q, threads := w.threads.set t pc }

/-- Steps of the thread `t` lead from one world to the other. -/
def Alone (t : ℕ) (w w' : World α) : Prop :=
  ∃ n, run World.step w (List.replicate n (.step t)) = some w'

namespace Alone

variable {t : ℕ} {w w₁ w₂ : World α} {q : InfiniteLinkQueue (Tagged α)} {pc : Pc α}

theorem refl (t : ℕ) (w : World α) : Alone t w w := ⟨0, rfl⟩

theorem trans (h₁ : Alone t w w₁) (h₂ : Alone t w₁ w₂) : Alone t w w₂ := by
  obtain ⟨n₁, hrun₁⟩ := h₁
  obtain ⟨n₂, hrun₂⟩ := h₂
  refine ⟨n₁ + n₂, ?_⟩
  rw [List.replicate_add]
  exact run_append_eq_some.mpr ⟨w₁, hrun₁, hrun₂⟩

/-- One step. -/
theorem step (ht : t < w.threads.length) (h : (w.atPc t q pc).advance t pc = some w₁) :
    Alone t (w.atPc t q pc) w₁ := by
  have hpc : (w.atPc t q pc).threads[t]? = some pc := List.getElem?_set_self ht
  have hstep : (w.atPc t q pc).step (.step t) = some w₁ :=
    Option.bind_eq_some_iff.mpr ⟨pc, hpc, h⟩
  exact ⟨1, run_cons_eq_some.mpr ⟨_, hstep, rfl⟩⟩

end Alone

section Loops

variable {w : World α} {t : ℕ} {q q' : InfiniteLinkQueue (Tagged α)}

open World (tailLoop afterLst)

/-- A push, from its `pos.fetch_add` to the next round of the loop. -/
theorem push_alone (ht : t < w.threads.length) (cur tail ncur : Ptr) :
    Alone t (w.atPc t q (.pushPos cur tail ncur))
      (w.atPc t { q with recycle := (q.recycle.push q.cells tail).1
                         cells := (q.recycle.push q.cells tail).2 } (tailLoop cur ncur)) := by
  obtain ⟨old, recycle, hswap⟩ : ∃ old recycle,
      q.recycle.pushPos.2.swap q.recycle.pushPos.1 tail = (old, recycle) := ⟨_, _, rfl⟩
  have hpush : q.recycle.push q.cells tail =
      (recycle, if old ≠ 0 then Function.update q.cells old none else q.cells) := by
    simp only [PointerCache.push, hswap]
  have hpos : Alone t (w.atPc t q (.pushPos cur tail ncur))
      (w.atPc t { q with recycle := q.recycle.pushPos.2 }
        (.pushSwap q.recycle.pushPos.1 cur tail ncur)) :=
    Alone.step ht (by simp [World.advance, World.atPc])
  refine hpos.trans ?_
  rw [hpush]
  by_cases h0 : old = 0
  · refine Alone.step ht ?_
    simp [World.advance, World.atPc, hswap, h0]
  · have hfree : Alone t (w.atPc t { q with recycle := q.recycle.pushPos.2 }
          (.pushSwap q.recycle.pushPos.1 cur tail ncur))
        (w.atPc t { q with recycle := recycle } (.pushFree cur old ncur)) :=
      Alone.step ht (by simp [World.advance, World.atPc, hswap, h0])
    refine hfree.trans (Alone.step ht ?_)
    simp [World.advance, World.atPc, h0]

theorem taildeallocLoop_alone (ht : t < w.threads.length) {fuel : ℕ} {cur tail : Ptr}
    (h : taildeallocLoop fuel q tail = some q') :
    Alone t (w.atPc t q (tailLoop cur tail)) (w.atPc t q' (.tailClear cur)) := by
  induction fuel generalizing q tail with
  | zero => cases h
  | succ fuel ih =>
    by_cases h0 : tail = 0
    · rw [taildeallocLoop, if_pos h0] at h
      cases h
      rw [tailLoop, if_pos h0]
      exact Alone.refl t _
    · rw [taildeallocLoop, if_neg h0] at h
      obtain ⟨i, hi, h⟩ := Option.bind_eq_some_iff.mp h
      rw [tailLoop, if_neg h0]
      have hnext : Alone t (w.atPc t q (.tailNext cur tail)) (w.atPc t q (.pushPos cur tail i.next)) :=
        Alone.step ht (by simp [World.advance, World.atPc, hi])
      exact hnext.trans ((push_alone ht cur tail i.next).trans (ih h))

theorem release_alone (ht : t < w.threads.length) {cur : Ptr} (h : q.release cur = some q') :
    Alone t (w.atPc t q (.casRel cur)) (w.atPc t q' (.testAgain cur)) := by
  cases hrel : q.doingrel with
  | true =>
    rw [InfiniteLinkQueue.release, if_pos hrel] at h
    cases h
    exact Alone.step ht (by simp [World.advance, World.atPc, hrel])
  | false =>
    rw [InfiniteLinkQueue.release, hrel] at h
    obtain ⟨q₁, hdealloc, h⟩ := Option.bind_eq_some_iff.mp h
    cases h
    obtain ⟨i, hi, hdealloc⟩ := Option.bind_eq_some_iff.mp hdealloc
    obtain ⟨q₂, hloop, hdealloc⟩ := Option.bind_eq_some_iff.mp hdealloc
    obtain ⟨cells, hcells, hdealloc⟩ := Option.bind_eq_some_iff.mp hdealloc
    cases hdealloc
    have hcas : Alone t (w.atPc t q (.casRel cur))
        (w.atPc t { q with doingrel := true } (.tailFirst cur)) :=
      Alone.step ht (by simp [World.advance, World.atPc, hrel])
    have hfirst : Alone t (w.atPc t { q with doingrel := true } (.tailFirst cur))
        (w.atPc t { q with doingrel := true } (tailLoop cur i.next)) :=
      Alone.step ht (by simp_all [World.advance, World.atPc])
    have hclear : Alone t (w.atPc t q₂ (.tailClear cur))
        (w.atPc t { q₂ with cells := cells } (.endRel cur)) :=
      Alone.step ht (by simp [World.advance, World.atPc, World.modify, hcells])
    have hend : Alone t (w.atPc t { q₂ with cells := cells } (.endRel cur))
        (w.atPc t { q₂ with cells := cells, doingrel := false } (.testAgain cur)) :=
      Alone.step ht (by simp [World.advance, World.atPc])
    exact hcas.trans (hfirst.trans ((taildeallocLoop_alone ht hloop).trans (hclear.trans hend)))

/-- `nlst = (*cur).prev.load()` and the `compare_and_swap` that may follow. -/
theorem advanceLst_alone (ht : t < w.threads.length) {cur : Ptr} {i : Item (Tagged α)}
    (hi : q.cells cur = some i) (v : Option (Tagged α)) :
    Alone t (w.atPc t q (.loadPrev cur v))
      (w.atPc t (q.advanceLst cur i.prev) (afterLst cur i.prev v)) := by
  by_cases h0 : i.prev = 0
  · refine Alone.step ht ?_
    simp [World.advance, World.atPc, hi, h0, InfiniteLinkQueue.advanceLst]
  · have hload : Alone t (w.atPc t q (.loadPrev cur v)) (w.atPc t q (.advance cur i.prev v)) :=
      Alone.step ht (by simp [World.advance, World.atPc, hi, h0])
    refine hload.trans (Alone.step ht ?_)
    by_cases hlst : q.lst = cur <;>
      simp [World.advance, World.atPc, h0, hlst, InfiniteLinkQueue.advanceLst]

theorem advanceLst_cells (q : InfiniteLinkQueue (Tagged α)) (cur nlst : Ptr) :
    (q.advanceLst cur nlst).cells = q.cells := by
  unfold InfiniteLinkQueue.advanceLst
  split <;> rfl

theorem claimLoop_alone (ht : t < w.threads.length) {fuel : ℕ} {cur : Ptr} {first : Bool}
    {r : Option (Tagged α)} (h : claimLoop fuel q cur first = some (r, q')) :
    Alone t (w.atPc t q (if cur = 0 then .leaveNone else .claim cur first))
      ({ w with returned := w.returned ++ r.toList }.atPc t q' .idle) := by
  induction fuel generalizing q cur first with
  | zero => cases h
  | succ fuel ih =>
    by_cases h0 : cur = 0
    · rw [claimLoop, if_pos h0] at h
      cases h
      rw [if_pos h0]
      exact Alone.step ht (by simp [World.advance, World.atPc])
    · rw [claimLoop, if_neg h0] at h
      obtain ⟨i, hi, h⟩ := Option.bind_eq_some_iff.mp h
      rw [if_neg h0]
      cases hclaimed : i.claimed with
      | true =>
        rw [hclaimed, if_pos rfl] at h
        have htaken : Alone t (w.atPc t q (.claim cur first)) (w.atPc t q (.next cur)) :=
          Alone.step ht (by simp [World.advance, World.atPc, hi, hclaimed])
        have hnext : Alone t (w.atPc t q (.next cur))
            (w.atPc t q (if i.prev = 0 then .leaveNone else .claim i.prev false)) :=
          Alone.step ht (by simp [World.advance, World.atPc, hi])
        exact htaken.trans (hnext.trans (ih h))
      | false =>
        simp only [hclaimed, Bool.false_eq_true, if_false] at h
        let i₁ : Item (Tagged α) := { i with claimed := true }
        let q₁ : InfiniteLinkQueue (Tagged α) := { q with
          cells := Function.update q.cells cur (some i₁), len := q.len - 1 }
        let q₂ := if first then q₁.advanceLst cur i₁.prev else q₁
        have hi₁ : q₁.cells cur = some i₁ := Function.update_self _ _ _
        have hi₂ : q₂.cells = q₁.cells := by
          simp only [q₂]
          split
          · exact advanceLst_cells q₁ cur i₁.prev
          · rfl
        have hclaim : Alone t (w.atPc t q (.claim cur first))
            (w.atPc t { q with cells := q₁.cells } (.dropLen cur first i.payload)) :=
          Alone.step ht (by simp [World.advance, World.atPc, hi, hclaimed, q₁, i₁])
        have hdrop : Alone t (w.atPc t { q with cells := q₁.cells } (.dropLen cur first i.payload))
            (w.atPc t q₁ (if first then .loadPrev cur (some i.payload) else .copy cur i.payload)) :=
          Alone.step ht (by simp [World.advance, World.atPc, q₁])
        have hlst : Alone t
            (w.atPc t q₁ (if first then .loadPrev cur (some i.payload) else .copy cur i.payload))
            (w.atPc t q₂ (.copy cur i.payload)) := by
          cases first with
          | true => exact advanceLst_alone ht hi₁ (some i.payload)
          | false => exact Alone.refl t _
        have hcopy : Alone t (w.atPc t q₂ (.copy cur i.payload))
            (w.atPc t q₂ (.markRel cur i.payload)) :=
          Alone.step ht (by simp [World.advance, World.atPc, hi₂, hi₁, i₁])
        have hmark : Alone t (w.atPc t q₂ (.markRel cur i.payload)) (w.atPc t { q₂ with
            cells := Function.update q₂.cells cur (some { i₁ with needrel := true }) }
              (.bumpRel i.payload)) := by
          refine Alone.step ht ?_
          have hi₃ : q₂.cells cur = some i₁ := hi₂ ▸ hi₁
          simp [World.advance, World.atPc, World.modify, Cells.modify, hi₃]
        have hbump : Alone t (w.atPc t { q₂ with
            cells := Function.update q₂.cells cur (some { i₁ with needrel := true }) }
              (.bumpRel i.payload)) (w.atPc t { q₂ with
            cells := Function.update q₂.cells cur (some { i₁ with needrel := true })
            needrel := q₂.needrel + 1 } (.leave i.payload)) :=
          Alone.step ht (by simp [World.advance, World.atPc])
        refine hclaim.trans (hdrop.trans (hlst.trans (hcopy.trans (hmark.trans (hbump.trans ?_)))))
        cases h
        refine Alone.step ht ?_
        simp only [World.advance, World.atPc, World.setQ, World.setPc, List.set_set]
        rfl

end Loops

/-- A get of thread `t` that takes `n` steps. -/
def getAlone (t n : ℕ) : List (Act α) := .get t :: List.replicate n (.step t)

/-- **A get that runs alone** does what the call does. -/
theorem get_alone {w : World α} {t : ℕ} {r : Option (Tagged α)}
    {q' : InfiniteLinkQueue (Tagged α)} (ht : w.threads[t]? = some .idle)
    (h : w.q.get = some (r, q')) :
    ∃ n, run World.step w (getAlone t n) =
      some { w with q := q', returned := w.returned ++ r.toList } := by
  have hlt : t < w.threads.length := (List.getElem?_eq_some_iff.mp ht).1
  have hstart : w.step (.get t) = some (w.atPc t w.q .enter) := by
    simp [World.step, World.start, ht, World.atPc]
  have hidle : w.threads.set t .idle = w.threads := by
    rw [← (List.getElem?_eq_some_iff.mp ht).2]
    exact List.set_getElem_self hlt
  suffices halone : Alone t (w.atPc t w.q .enter)
      ({ w with returned := w.returned ++ r.toList }.atPc t q' .idle) by
    obtain ⟨n, hn⟩ := halone
    refine ⟨n, run_cons_eq_some.mpr ⟨_, hstart, hn.trans ?_⟩⟩
    simp [World.atPc, hidle]
  let q₀ : InfiniteLinkQueue (Tagged α) := { w.q with rinside := w.q.rinside + 1 }
  have henter : Alone t (w.atPc t w.q .enter) (w.atPc t q₀ .loadLst) :=
    Alone.step hlt (by simp [World.advance, World.atPc, q₀])
  refine henter.trans ?_
  rcases get_cases h with ⟨h0, rfl, rfl⟩ | ⟨h0, i, q₁, i₁, hi, hq₁, hi₁, hloop⟩
  · refine Alone.step hlt ?_
    simp [World.advance, World.atPc, h0, q₀]
  · have hload : Alone t (w.atPc t q₀ .loadLst) (w.atPc t q₀ (.testRel w.q.lst)) :=
      Alone.step hlt (by simp [World.advance, World.atPc, h0, q₀])
    -- the release, if the item at `lst` has the mark
    have hrelease : Alone t (w.atPc t q₀ (.testRel w.q.lst)) (w.atPc t q₁ (.testAgain w.q.lst)) := by
      have htest : Alone t (w.atPc t q₀ (.testRel w.q.lst))
          (w.atPc t q₀ (if i.needrel then .casRel w.q.lst else .testAgain w.q.lst)) := by
        refine Alone.step hlt ?_
        simp [World.advance, World.atPc, hi, q₀]
      refine htest.trans ?_
      by_cases hrel : i.needrel = true
      · rw [if_pos hrel] at hq₁ ⊢
        exact release_alone hlt hq₁
      · rw [if_neg hrel] at hq₁ ⊢
        cases hq₁
        exact Alone.refl t _
    have hagain : Alone t (w.atPc t q₁ (.testAgain w.q.lst))
        (w.atPc t q₁ (if i₁.needrel then .loadPrev w.q.lst none else .claim w.q.lst true)) :=
      Alone.step hlt (by simp [World.advance, World.atPc, hi₁])
    refine hload.trans (hrelease.trans (hagain.trans ?_))
    by_cases hrel : i₁.needrel = true
    · rw [if_pos hrel] at hloop ⊢
      exact (advanceLst_alone hlt hi₁ none).trans (claimLoop_alone hlt hloop)
    · rw [if_neg hrel] at hloop ⊢
      have hclaim := claimLoop_alone hlt hloop (w := w)
      rwa [if_neg h0] at hclaim

end WaterNet.Queue.Link
