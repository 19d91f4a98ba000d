import Mathlib.Data.List.Basic

/-!
# Partial step machines: runs, invariants and guarded runs

A machine is a partial step function `step : σ → α → Option σ`; an action that is not enabled
gives `none`.  A run is a list of actions, so every order of the actions is one list and a
statement over all lists is a statement over all interleavings.

* `run_append` — a run splits at any point;
* `run_invariant` — what every enabled step preserves, every run preserves;
* `run_invariant_of` — the same where the steps of the run are known to satisfy a condition
  on the state they start from (`StepsMeet`);
* `run_all_iff` — when a property holds all along a run.
-/

namespace WaterNet.Lib.Machine

variable {σ α : Type*}

/-- The state after a list of actions, if each of them was enabled in its turn. -/
def run (step : σ → α → Option σ) : σ → List α → Option σ
  | s, [] => some s
  | s, a :: as => (step s a).bind fun s' => run step s' as

@[simp] theorem run_nil (step : σ → α → Option σ) (s : σ) : run step s [] = some s := rfl

theorem run_cons (step : σ → α → Option σ) (s : σ) (a : α) (as : List α) :
    run step s (a :: as) = (step s a).bind fun s' => run step s' as := rfl

theorem run_append (step : σ → α → Option σ) (s : σ) (as bs : List α) :
    run step s (as ++ bs) = (run step s as).bind fun s' => run step s' bs := by
  induction as generalizing s with
  | nil => rfl
  | cons a as ih =>
    rw [List.cons_append, run_cons, run_cons, Option.bind_assoc]
    congr 1
    funext s'
    exact ih s'

/-- The first step of a run and the rest of it. -/
theorem run_cons_eq_some {step : σ → α → Option σ} {s t : σ} {a : α} {as : List α} :
    run step s (a :: as) = some t ↔ ∃ s', step s a = some s' ∧ run step s' as = some t := by
  rw [run_cons, Option.bind_eq_some_iff]

/-- A run through a list that splits passes through a state between the two parts. -/
theorem run_append_eq_some {step : σ → α → Option σ} {s t : σ} {as bs : List α} :
    run step s (as ++ bs) = some t ↔
      ∃ s', run step s as = some s' ∧ run step s' bs = some t := by
  rw [run_append, Option.bind_eq_some_iff]

/-! ### Invariants -/

/-- **The invariant rule.**  What each enabled step preserves holds after every run. -/
theorem run_invariant {step : σ → α → Option σ} {Inv : σ → Prop}
    (hstep : ∀ s a s', Inv s → step s a = some s' → Inv s') {s t : σ} {as : List α}
    (hrun : run step s as = some t) (hs : Inv s) : Inv t := by
  induction as generalizing s with
  | nil =>
    rw [run_nil, Option.some.injEq] at hrun
    exact hrun ▸ hs
  | cons a as ih =>
    obtain ⟨s', hs', hrest⟩ := run_cons_eq_some.mp hrun
    exact ih hrest (hstep s a s' hs hs')

/-- Every step of the run starts in a state where the condition holds of its action. -/
def StepsMeet (step : σ → α → Option σ) (ok : σ → α → Prop) : σ → List α → Prop
  | _, [] => True
  | s, a :: as => ok s a ∧ ∀ s', step s a = some s' → StepsMeet step ok s' as

instance StepsMeet.decide {step : σ → α → Option σ} {ok : σ → α → Prop}
    [∀ s a, Decidable (ok s a)] : ∀ s as, Decidable (StepsMeet step ok s as)
  | _, [] => isTrue trivial
  | s, a :: as =>
    match h : step s a with
    | none => decidable_of_iff (ok s a) (by simp [StepsMeet, h])
    | some s' =>
      have : Decidable (StepsMeet step ok s' as) := StepsMeet.decide s' as
      decidable_of_iff (ok s a ∧ StepsMeet step ok s' as) (by simp [StepsMeet, h])

theorem StepsMeet.mono {step : σ → α → Option σ} {ok ok' : σ → α → Prop}
    (h : ∀ s a, ok s a → ok' s a) {s : σ} {as : List α} (hok : StepsMeet step ok s as) :
    StepsMeet step ok' s as := by
  induction as generalizing s with
  | nil => trivial
  | cons a as ih => exact ⟨h s a hok.1, fun s' hs' => ih (hok.2 s' hs')⟩

/-- The steps of both parts of a run that splits. -/
theorem StepsMeet.of_append {step : σ → α → Option σ} {ok : σ → α → Prop} {s t : σ} {as bs : List α}
    (h : StepsMeet step ok s (as ++ bs)) (hrun : run step s as = some t) :
    StepsMeet step ok s as ∧ StepsMeet step ok t bs := by
  induction as generalizing s with
  | nil =>
    obtain rfl := Option.some.inj hrun
    exact ⟨trivial, h⟩
  | cons a as ih =>
    obtain ⟨u, hu, hrest⟩ := run_cons_eq_some.mp hrun
    refine ⟨⟨h.1, fun s' hs' => ?_⟩, (ih (h.2 u hu) hrest).2⟩
    obtain rfl := Option.some.inj (hu.symm.trans hs')
    exact (ih (h.2 u hu) hrest).1

/-- A condition on the actions alone. -/
theorem StepsMeet.of_forall {step : σ → α → Option σ} {p : α → Prop} {as : List α}
    (hp : ∀ a ∈ as, p a) (s : σ) : StepsMeet step (fun _ a => p a) s as := by
  induction as generalizing s with
  | nil => trivial
  | cons a as ih =>
    exact ⟨hp a List.mem_cons_self, fun s' _ => ih (fun b hb => hp b (List.mem_cons_of_mem a hb)) s'⟩

/-- A condition on the actions alone joins a condition on the steps. -/
theorem StepsMeet.and_forall {step : σ → α → Option σ} {ok : σ → α → Prop} {p : α → Prop} {s : σ}
    {as : List α} (hok : StepsMeet step ok s as) (hp : ∀ a ∈ as, p a) :
    StepsMeet step (fun s a => ok s a ∧ p a) s as := by
  induction as generalizing s with
  | nil => trivial
  | cons a as ih =>
    exact ⟨⟨hok.1, hp a List.mem_cons_self⟩, fun s' hs' =>
      ih (hok.2 s' hs') fun b hb => hp b (List.mem_cons_of_mem a hb)⟩

/-- A condition on the states that the run goes through. -/
theorem StepsMeet.of_prefixes {step : σ → α → Option σ} {p : σ → Prop} {s : σ} {as : List α}
    (h : ∀ pre post u, as = pre ++ post → run step s pre = some u → p u) :
    StepsMeet step (fun s _ => p s) s as := by
  induction as generalizing s with
  | nil => trivial
  | cons a as ih =>
    refine ⟨h [] (a :: as) s rfl rfl, fun s' hs' => ih fun pre post u heq hu => ?_⟩
    exact h (a :: pre) post u (congrArg (a :: ·) heq) (run_cons_eq_some.mpr ⟨s', hs', hu⟩)

/-- The invariant rule for runs whose steps all meet a condition. -/
theorem run_invariant_of {step : σ → α → Option σ} {ok : σ → α → Prop} {Inv : σ → Prop}
    (hstep : ∀ s a s', Inv s → ok s a → step s a = some s' → Inv s') {s t : σ} {as : List α}
    (hok : StepsMeet step ok s as) (hrun : run step s as = some t) (hs : Inv s) : Inv t := by
  induction as generalizing s with
  | nil =>
    rw [run_nil, Option.some.injEq] at hrun
    exact hrun ▸ hs
  | cons a as ih =>
    obtain ⟨s', hs', hrest⟩ := run_cons_eq_some.mp hrun
    exact ih (hok.2 s' hs') hrest (hstep s a s' hs hok.1 hs')

/-- **When a property holds all along a run.**  The invariant gives the property and is kept by the
steps that meet the condition, and a step that does not breaks the property at once: then the
property holds in every state of a run exactly if all its steps meet the condition. -/
theorem run_all_iff {step : σ → α → Option σ} {guard ok : σ → α → Prop} {Inv P : σ → Prop}
    (hgood : ∀ s, Inv s → P s)
    (hstep : ∀ s a s', Inv s → guard s a → ok s a → step s a = some s' → Inv s')
    (hbad : ∀ s a s', Inv s → guard s a → ¬ok s a → step s a = some s' → ¬P s') {s t : σ}
    {as : List α} (hguard : StepsMeet step guard s as) (hrun : run step s as = some t) (hs : Inv s) :
    (∀ pre post u, as = pre ++ post → run step s pre = some u → P u) ↔ StepsMeet step ok s as := by
  induction as generalizing s with
  | nil =>
    refine ⟨fun _ => trivial, fun _ pre post u heq hu => ?_⟩
    obtain ⟨rfl, -⟩ := List.append_eq_nil_iff.mp heq.symm
    rw [run_nil, Option.some.injEq] at hu
    exact hu ▸ hgood s hs
  | cons a as ih =>
    obtain ⟨s', hs', hrest⟩ := run_cons_eq_some.mp hrun
    have hrun1 : run step s [a] = some s' := run_cons_eq_some.mpr ⟨s', hs', rfl⟩
    constructor
    · intro hall
      have hok : ok s a := by
        by_contra hnot
        exact hbad s a s' hs hguard.1 hnot hs' (hall [a] as s' rfl hrun1)
      refine ⟨hok, fun s'' hs'' => ?_⟩
      obtain rfl : s' = s'' := Option.some.inj (hs'.symm.trans hs'')
      have hinv := hstep s a s' hs hguard.1 hok hs'
      refine (ih (hguard.2 s' hs') hrest hinv).mp fun pre post u heq hu => ?_
      exact hall (a :: pre) post u (by rw [heq, List.cons_append])
        (run_cons_eq_some.mpr ⟨s', hs', hu⟩)
    · intro hmeet pre post u heq hu
      cases pre with
      | nil =>
        rw [run_nil, Option.some.injEq] at hu
        exact hu ▸ hgood s hs
      | cons b pre =>
        rw [List.cons_append, List.cons.injEq] at heq
        obtain ⟨rfl, rfl⟩ := heq
        obtain ⟨s'', hs'', hpre⟩ := run_cons_eq_some.mp hu
        obtain rfl : s' = s'' := Option.some.inj (hs'.symm.trans hs'')
        have hinv := hstep s a s' hs hguard.1 hmeet.1 hs'
        exact (ih (hguard.2 s' hs') hrest hinv).mpr (hmeet.2 s' hs') pre post u rfl hpre

end WaterNet.Lib.Machine
