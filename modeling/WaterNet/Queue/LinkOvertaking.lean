import WaterNet.Queue.LinkSafe

/-!
# No value overtakes another in `InfiniteLinkQueue` (`queue.rs`)

A put links its item with one `swap` of `ptr`, and gets claim the items in the order in which they were
linked.  So the queue is first in, first out for any number of threads, as far as they can tell: what
was linked before a put began is claimed before the value of that put.

* `Linked`, `Claimed` — how far a value has come;
* `Inv.mem_hist`, `Inv.mem_claimed`, `Inv.claimed_of_mem` — what that says of the order of the links;
* `no_overtaking` — **a put that has linked its value is not overtaken by one that begins later**.
-/

namespace WaterNet.Queue.Link

open Lib Lib.Pool Lib.Machine

variable {α : Type*}

namespace World

/-- The value was put, and its put has come past the `swap` of `ptr`. -/
def Linked (w : World α) (v : Tagged α) : Prop :=
  v ∈ tagged w.puts ∧ ∀ pc ∈ w.threads, pc.brings ≠ some v

/-- A get has returned the value, or has claimed it and not returned yet. -/
def Claimed (w : World α) (v : Tagged α) : Prop :=
  v ∈ w.returned ∨ ∃ pc ∈ w.threads, pc.takes = some v

end World

/-- Two values that one put brought are the same. -/
theorem eq_of_put {puts : List α} {x v : Tagged α} (hx : puts[x.origin]? = some x.value)
    (hv : puts[v.origin]? = some v.value) (horigin : x.origin = v.origin) : x = v := by
  rw [horigin, hv] at hx
  obtain ⟨origin, value⟩ := x
  obtain ⟨origin', value'⟩ := v
  obtain rfl := Option.some.inj hx
  obtain rfl : origin = origin' := horigin
  rfl

/-- A thread that holds a value counts for the put of that value, and for no other. -/
theorem exists_of_elim_pos {n : ℕ} {o : Option (Tagged α)} (hpos : 0 < o.elim 0 (ofPut n)) :
    ∃ v, o = some v ∧ v.origin = n := by
  cases o with
  | none => cases hpos
  | some v => exact ⟨v, rfl, origin_eq_of_ofPut_pos hpos⟩

namespace Inv

variable {w : World α} {g : Ghost α} {v : Tagged α}

/-- An item that counts for a put holds the value of that put. -/
theorem exists_item (h : Inv w g) {items : List (Ptr × Tagged α)} (hsub : items ⊆ g.hist)
    (hv : w.puts[v.origin]? = some v.value) (hpos : 0 < total (itemOf v.origin) items) :
    ∃ x ∈ items, x.2 = v := by
  obtain ⟨x, hx, hxpos⟩ := exists_of_total_pos hpos
  exact ⟨x, hx, eq_of_put (h.ledger.inList x (hsub hx)) hv (origin_eq_of_ofPut_pos hxpos)⟩

/-- A linked value is in the list. -/
theorem mem_hist (h : Inv w g) (hv : w.Linked v) : ∃ x ∈ g.hist, x.2 = v := by
  have hput := mem_tagged.mp hv.1
  refine h.exists_item (List.Subset.refl _) hput ?_
  have hzero : total (Pc.bringing v.origin) w.threads = 0 := by
    refine total_eq_zero fun pc hpc => ?_
    by_contra hne
    obtain ⟨x, hx, horigin⟩ := exists_of_elim_pos (Nat.pos_of_ne_zero hne)
    have heq := eq_of_put (h.ledger.inPut pc hpc x hx) hput horigin
    exact hv.2 pc hpc (heq ▸ hx)
  have hbrought := h.ledger.brought v.origin
  rw [if_pos (List.getElem?_eq_some_iff.mp hput).1] at hbrought
  omega

/-- A claimed value was put. -/
theorem put_of_claimed (h : Inv w g) (hv : w.Claimed v) : w.puts[v.origin]? = some v.value := by
  rcases hv with hret | ⟨pc, hpc, htakes⟩
  · exact h.ledger.given v hret
  · exact h.ledger.inGet pc hpc v htakes

/-- A claimed value is among the first `claimed` of the list. -/
theorem mem_claimed (h : Inv w g) (hv : w.Claimed v) : ∃ x ∈ g.hist.take g.claimed, x.2 = v := by
  refine h.exists_item (List.take_subset _ _) (h.put_of_claimed hv) ?_
  have htaken := h.ledger.taken v.origin
  rcases hv with hret | ⟨pc, hpc, htakes⟩
  · have hle := le_total (ofPut v.origin) hret
    rw [ofPut_self] at hle
    omega
  · have hle := le_total (Pc.taking v.origin) hpc
    rw [Pc.taking, htakes, Option.elim_some, ofPut_self] at hle
    omega

/-- The first `claimed` values of the list are claimed. -/
theorem claimed_of_mem (h : Inv w g) {x : Ptr × Tagged α} (hx : x ∈ g.hist.take g.claimed) :
    w.Claimed x.2 := by
  have hput := h.ledger.inList x (List.take_subset _ _ hx)
  have hone := le_total (itemOf x.2.origin) hx
  rw [itemOf, ofPut_self, ← h.ledger.taken x.2.origin] at hone
  rcases Nat.eq_zero_or_pos (total (ofPut x.2.origin) w.returned) with hzero | hpos
  · -- it is with a get that has not returned yet
    obtain ⟨pc, hpc, hpcpos⟩ := exists_of_total_pos
      (show 0 < total (Pc.taking x.2.origin) w.threads by omega)
    obtain ⟨v, hv, horigin⟩ := exists_of_elim_pos hpcpos
    obtain rfl := eq_of_put (h.ledger.inGet pc hpc v hv) hput horigin
    exact Or.inr ⟨pc, hpc, hv⟩
  · obtain ⟨v, hv, hvpos⟩ := exists_of_total_pos hpos
    obtain rfl := eq_of_put (h.ledger.given v hv) hput (origin_eq_of_ofPut_pos hvpos)
    exact Or.inl hv

/-- The list holds no value of a put that has not begun. -/
theorem origin_lt (h : Inv w g) {x : Ptr × Tagged α} (hx : x ∈ g.hist) :
    x.2.origin < w.puts.length :=
  (List.getElem?_eq_some_iff.mp (h.ledger.inList x hx)).1

/-- A run whose releases are alone only adds to the end of the list. -/
theorem run_hist (h : Inv w g) {acts : List (Act α)} {w' : World α}
    (halone : StepsMeet World.step (fun w a => releasesAlone w a = true) w acts)
    (hrun : run World.step w acts = some w') : ∃ g', Inv w' g' ∧ g.hist <+: g'.hist := by
  have hstep : ∀ (s : World α) (a : Act α) (s' : World α), (∃ g', Inv s g' ∧ g.hist <+: g'.hist) →
      releasesAlone s a = true → s.step a = some s' → ∃ g', Inv s' g' ∧ g.hist <+: g'.hist := by
    rintro s a s' ⟨g', hinv, hpre⟩ hok hs'
    obtain ⟨g'', hinv', hpre'⟩ := hinv.step_hist hok (World.step_trans hs')
    exact ⟨g'', hinv', hpre.trans hpre'⟩
  exact run_invariant_of hstep halone hrun ⟨g, h, List.prefix_rfl⟩

/-- What is in the list before another put begins is claimed before the value of that put. -/
theorem claimed_before (h : Inv w g) {early : List (Ptr × Tagged α)} (hpre : early <+: g.hist)
    {a b : Tagged α} (ha : ∃ x ∈ early, x.2 = a) (hb : ∀ x ∈ early, x.2 ≠ b)
    (hclaimed : w.Claimed b) : w.Claimed a := by
  obtain ⟨x, hx, rfl⟩ := ha
  obtain ⟨y, hy, rfl⟩ := h.mem_claimed hclaimed
  obtain ⟨late, hhist⟩ := hpre
  -- `y` is past the early part, so all of that part is claimed
  have hle : early.length ≤ g.claimed := by
    by_contra hgt
    have htake : (early ++ late).take g.claimed = early.take g.claimed :=
      List.take_append_of_le_length (Nat.le_of_not_le hgt)
    rw [← hhist, htake] at hy
    exact hb y (List.mem_of_mem_take hy) rfl
  refine h.claimed_of_mem ?_
  rw [← hhist, List.take_append, List.take_of_length_le hle]
  exact List.mem_append_left _ hx

end Inv

/-- **No value overtakes another.**  In every run of any number of threads whose releases are alone:
if a value is linked at one point of the run and another put begins after that point, then the value
of that put is claimed only after the first one is. -/
theorem no_overtaking (n : ℕ) {acts acts' : List (Act α)} {w w' : World α} {a b : Tagged α}
    (halone : StepsMeet World.step (fun w a => releasesAlone w a = true) (World.init α n)
      (acts ++ acts'))
    (hrun : run World.step (World.init α n) acts = some w)
    (hrun' : run World.step w acts' = some w') (ha : w.Linked a) (hb : w.puts.length ≤ b.origin)
    (hclaimed : w'.Claimed b) : w'.Claimed a := by
  obtain ⟨hearly, hlate⟩ := halone.of_append hrun
  obtain ⟨g, hinv, -⟩ := (init_inv α n).run_hist hearly hrun
  obtain ⟨g', hinv', hpre⟩ := hinv.run_hist hlate hrun'
  refine hinv'.claimed_before hpre (hinv.mem_hist ha) (fun x hx heq => ?_) hclaimed
  have hlt := hinv.origin_lt hx
  rw [heq] at hlt
  omega

/-- Two puts that overlap link their items in the other order than they began. -/
def crossedRun : List (Act ℕ) :=
  .put 0 7 :: List.replicate 2 (Act.step 0) ++ putNew 1 8 200 ++ .box 0 100 :: List.replicate 5 (Act.step 0)

/-- A third put, and then a get that claims the second item and waits while another one returns the
third. -/
def stalledRun : List (Act ℕ) := putNew 1 9 300 ++ getAlone 2 12 ++ getAlone 0 5 ++ getAlone 2 12

theorem no_overtaking_stalledRun : ∃ w w', run World.step (World.init ℕ 3) crossedRun = some w ∧
    run World.step w stalledRun = some w' ∧ w.Linked ⟨0, 7⟩ ∧ w'.returned = [⟨1, 8⟩, ⟨2, 9⟩] ∧
      w'.Claimed ⟨0, 7⟩ := by
  have halone : StepsMeet World.step (fun w a => releasesAlone w a = true) (World.init ℕ 3)
      (crossedRun ++ stalledRun) := by decide +kernel
  obtain ⟨w, hrun, hobs⟩ := Option.map_eq_some_iff.mp
    (show (run World.step (World.init ℕ 3) crossedRun).map (fun w => (w.puts, w.threads)) =
      some ([7, 8], [.idle, .idle, .idle]) by decide +kernel)
  obtain ⟨w', hboth, hret⟩ := Option.map_eq_some_iff.mp
    (show (run World.step (World.init ℕ 3) (crossedRun ++ stalledRun)).map World.returned =
      some [⟨1, 8⟩, ⟨2, 9⟩] by decide +kernel)
  obtain ⟨_, hfirst, hrun'⟩ := run_append_eq_some.mp hboth
  obtain rfl := Option.some.inj (hrun.symm.trans hfirst)
  rw [Prod.mk.injEq] at hobs
  obtain ⟨hputs, hthreads⟩ := hobs
  have hlinked : w.Linked ⟨0, 7⟩ := by
    rw [World.Linked, hputs, hthreads]
    decide
  have hlater : w.puts.length ≤ (⟨2, 9⟩ : Tagged ℕ).origin := by
    rw [hputs]
    decide
  have hclaimed : w'.Claimed ⟨2, 9⟩ := by
    refine Or.inl ?_
    rw [hret]
    decide
  exact ⟨w, w', hrun, hrun', hlinked, hret,
    no_overtaking 3 halone hrun hrun' hlinked hlater hclaimed⟩

end WaterNet.Queue.Link
