import WaterNet.Lib.Machine

/-!
# Machines that answer, and the unbounded FIFO

An answering machine takes an input and gives an answer and its next state.  A specification is a
total one, `answers` runs it over a list of inputs; an implementation may get stuck, `exec` runs it.

* `exec_eq_of_simulation` — an implementation whose steps agree with the specification along a
  relation gives the same answers, as long as the inputs stay allowed;
* `Fifo.answer` — what an unbounded FIFO answers to a call, and what it keeps.
-/

namespace WaterNet.Lib

section Exec

variable {σ τ ι ο : Type*}

/-- The answers to a list of inputs and the state after them; `none` if a step is stuck. -/
def exec (step : σ → ι → Option (ο × σ)) : σ → List ι → Option (List ο × σ)
  | s, [] => some ([], s)
  | s, i :: is => do
    let (o, s) ← step s i
    let (os, s) ← exec step s is
    some (o :: os, s)

@[simp] theorem exec_nil (step : σ → ι → Option (ο × σ)) (s : σ) :
    exec step s [] = some ([], s) := rfl

/-- The first answer and the others. -/
theorem exec_cons_eq_some {step : σ → ι → Option (ο × σ)} {s s₁ s₂ : σ} {i : ι} {is : List ι} {o : ο}
    {os : List ο} (h : step s i = some (o, s₁)) (hrest : exec step s₁ is = some (os, s₂)) :
    exec step s (i :: is) = some (o :: os, s₂) := by
  simp [exec, h, hrest]

/-- The machine that keeps its answers to itself goes through the same states. -/
theorem run_of_exec {step : σ → ι → Option (ο × σ)} {s s' : σ} {is : List ι} {os : List ο}
    (h : exec step s is = some (os, s')) :
    Machine.run (fun s i => (step s i).map Prod.snd) s is = some s' := by
  induction is generalizing s os with
  | nil =>
    cases h
    rfl
  | cons i is ih =>
    obtain ⟨⟨o, s₁⟩, hstep, hrest⟩ := Option.bind_eq_some_iff.mp h
    obtain ⟨⟨os₁, s₂⟩, hexec, hlast⟩ := Option.bind_eq_some_iff.mp hrest
    cases hlast
    exact Machine.run_cons_eq_some.mpr ⟨s₁, Option.map_eq_some_iff.mpr ⟨_, hstep, rfl⟩, ih hexec⟩

/-- The answers a specification gives to a list of inputs, and its state after them. -/
def answers (spec : τ → ι → ο × τ) : τ → List ι → List ο × τ
  | t, [] => ([], t)
  | t, i :: is => ((spec t i).1 :: (answers spec (spec t i).2 is).1,
      (answers spec (spec t i).2 is).2)

/-- Every input of the list is allowed in the state in which its turn comes. -/
def InputsMeet (spec : τ → ι → ο × τ) (ok : τ → ι → Prop) : τ → List ι → Prop
  | _, [] => True
  | t, i :: is => ok t i ∧ InputsMeet spec ok (spec t i).2 is

instance InputsMeet.decide {spec : τ → ι → ο × τ} {ok : τ → ι → Prop}
    [∀ t i, Decidable (ok t i)] : ∀ t is, Decidable (InputsMeet spec ok t is)
  | _, [] => isTrue trivial
  | t, i :: is =>
    have : Decidable (InputsMeet spec ok (spec t i).2 is) := InputsMeet.decide _ is
    inferInstanceAs (Decidable (_ ∧ _))

theorem InputsMeet.of_forall {spec : τ → ι → ο × τ} {ok : τ → ι → Prop} (h : ∀ t i, ok t i) (t : τ)
    (is : List ι) : InputsMeet spec ok t is := by
  induction is generalizing t with
  | nil => trivial
  | cons i is ih => exact ⟨h t i, ih (spec t i).2⟩

/-- A condition on the inputs alone. -/
theorem InputsMeet.of_mem {spec : τ → ι → ο × τ} {p : ι → Prop} {is : List ι}
    (h : ∀ i ∈ is, p i) (t : τ) : InputsMeet spec (fun _ i => p i) t is := by
  induction is generalizing t with
  | nil => trivial
  | cons i is ih =>
    exact ⟨h i List.mem_cons_self, ih (fun j hj => h j (List.mem_cons_of_mem i hj)) (spec t i).2⟩

/-- **Simulation of answers.**  If each allowed step of the specification is matched with the same
answer, then so is every allowed list of inputs. -/
theorem exec_eq_of_simulation {step : σ → ι → Option (ο × σ)} {spec : τ → ι → ο × τ}
    {R : σ → τ → Prop} {ok : τ → ι → Prop}
    (hstep : ∀ s t i, R s t → ok t i →
      ∃ s', step s i = some ((spec t i).1, s') ∧ R s' (spec t i).2)
    {s : σ} {t : τ} {is : List ι} (hR : R s t) (hok : InputsMeet spec ok t is) :
    ∃ s', exec step s is = some ((answers spec t is).1, s') ∧ R s' (answers spec t is).2 := by
  induction is generalizing s t with
  | nil => exact ⟨s, rfl, hR⟩
  | cons i is ih =>
    obtain ⟨s₁, hs₁, hR₁⟩ := hstep s t i hR hok.1
    obtain ⟨s₂, hs₂, hR₂⟩ := ih hR₁ hok.2
    exact ⟨s₂, exec_cons_eq_some hs₁ hs₂, hR₂⟩

end Exec

/-! ### The FIFO -/

namespace Fifo

variable {α : Type*}

/-- The calls of a queue. -/
inductive Call (α : Type*) where
  | put (t : α)
  | get
  deriving DecidableEq, Repr

/-- What an unbounded FIFO that holds `pending`, the oldest first, answers to a call and keeps
after it; a put answers nothing. -/
def answer : List α → Call α → Option α × List α
  | pending, .put t => (none, pending ++ [t])
  | [], .get => (none, [])
  | t :: pending, .get => (some t, pending)

end Fifo

end WaterNet.Lib
