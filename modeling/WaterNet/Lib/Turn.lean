import WaterNet.Lib.Pool

/-!
# One thread at a time in a section

`Turn inside holds rest pool` says of a pool of threads that at most one is inside a section, that
`holds` is so of the thread inside, and that `rest` is so while there is none.  A resource that only
the thread inside touches is described by `holds` and `rest` together, and a step of one thread is one
of four:

* `Turn.enter`, `Turn.move`, `Turn.leave` — it comes into the section, goes on there, or leaves it, and
  may change what `holds` and `rest` say in every way;
* `Turn.other` — it is not inside before or after.
-/

namespace WaterNet.Lib.Pool

variable {τ : Type*}

structure Turn (inside : τ → Bool) (holds : τ → Prop) (rest : Prop) (pool : List τ) : Prop where
  one : ∀ (t t' : ℕ) (x y : τ), pool[t]? = some x → pool[t']? = some y → inside x = true →
    inside y = true → t = t'
  busy : ∀ x ∈ pool, inside x = true → holds x
  free : (∀ x ∈ pool, inside x = false) → rest

namespace Turn

variable {inside : τ → Bool} {holds holds' : τ → Prop} {rest rest' : Prop} {pool : List τ} {t : ℕ}
  {x y : τ}

/-- After a step of the thread `t` no other is inside. -/
theorem set_one (hothers : ∀ (t' : ℕ) (z : τ), pool[t']? = some z → inside z = true → t' = t) :
    ∀ (t₁ t₂ : ℕ) (x₁ x₂ : τ), (pool.set t y)[t₁]? = some x₁ → (pool.set t y)[t₂]? = some x₂ →
      inside x₁ = true → inside x₂ = true → t₁ = t₂ := by
  have heq : ∀ (t' : ℕ) (z : τ), (pool.set t y)[t']? = some z → inside z = true → t' = t := by
    intro t' z hz hin
    rcases getElem?_set_eq_some hz with ⟨rfl, -⟩ | ⟨-, hold⟩
    · rfl
    · exact hothers t' z hold hin
  intro t₁ t₂ x₁ x₂ h₁ h₂ hin₁ hin₂
  rw [heq t₁ x₁ h₁ hin₁, heq t₂ x₂ h₂ hin₂]

/-- The thread `t` is the one that is inside now. -/
theorem set_busy (hothers : ∀ (t' : ℕ) (z : τ), pool[t']? = some z → inside z = true → t' = t)
    (hlt : t < pool.length) (hin : inside y = true) (hy : holds' y) :
    Turn inside holds' rest' (pool.set t y) where
  one := set_one hothers
  busy z hz hzin := by
    obtain ⟨t', ht'⟩ := List.mem_iff_getElem?.mp hz
    rcases getElem?_set_eq_some ht' with ⟨-, rfl⟩ | ⟨hne, hold⟩
    · exact hy
    · exact absurd (hothers t' z hold hzin) hne
  free hfree := by
    have hmem : y ∈ pool.set t y := List.mem_of_getElem? (List.getElem?_set_self hlt)
    rw [hfree y hmem] at hin
    cases hin

/-- The first thread comes in. -/
theorem enter (hnone : ∀ z ∈ pool, inside z = false) (ht : pool[t]? = some x) (hin : inside y = true)
    (hy : holds' y) : Turn inside holds' rest' (pool.set t y) := by
  refine set_busy (fun t' z hz hzin => ?_) (List.getElem?_eq_some_iff.mp ht).1 hin hy
  rw [hnone z (List.mem_of_getElem? hz)] at hzin
  cases hzin

theorem move (h : Turn inside holds rest pool) (ht : pool[t]? = some x) (hx : inside x = true)
    (hin : inside y = true) (hy : holds' y) : Turn inside holds' rest' (pool.set t y) :=
  set_busy (fun t' z hz hzin => h.one t' t z x hz ht hzin hx) (List.getElem?_eq_some_iff.mp ht).1 hin hy

theorem leave (h : Turn inside holds rest pool) (ht : pool[t]? = some x) (hx : inside x = true)
    (hout : inside y = false) (hrest : rest') : Turn inside holds' rest' (pool.set t y) where
  one := set_one fun t' z hz hzin => h.one t' t z x hz ht hzin hx
  busy z hz hzin := by
    obtain ⟨t', ht'⟩ := List.mem_iff_getElem?.mp hz
    rcases getElem?_set_eq_some ht' with ⟨-, rfl⟩ | ⟨hne, hold⟩
    · rw [hout] at hzin
      cases hzin
    · exact absurd (h.one t' t z x hold ht hzin hx) hne
  free _ := hrest

theorem other (h : Turn inside holds rest pool) (ht : pool[t]? = some x) (hx : inside x = false)
    (hout : inside y = false) : Turn inside holds rest (pool.set t y) where
  one t₁ t₂ x₁ x₂ h₁ h₂ hin₁ hin₂ := by
    have hback : ∀ (t' : ℕ) (z : τ), (pool.set t y)[t']? = some z → inside z = true → pool[t']? = some z := by
      intro t' z hz hzin
      rcases getElem?_set_eq_some hz with ⟨-, rfl⟩ | ⟨-, hold⟩
      · rw [hout] at hzin
        cases hzin
      · exact hold
    exact h.one t₁ t₂ x₁ x₂ (hback t₁ x₁ h₁ hin₁) (hback t₂ x₂ h₂ hin₂) hin₁ hin₂
  busy z hz hzin := by
    rcases mem_set_or (P := fun z => inside z = false) hz hout with hold | hnot
    · exact h.busy z hold hzin
    · rw [hnot] at hzin
      cases hzin
  free hfree := by
    refine h.free fun z hz => ?_
    obtain ⟨t', ht'⟩ := List.mem_iff_getElem?.mp hz
    by_cases hne : t' = t
    · rw [hne, ht] at ht'
      rw [← Option.some.inj ht', hx]
    · exact hfree z (List.mem_of_getElem? (by rw [List.getElem?_set_ne (Ne.symm hne), ht']))

end Turn

end WaterNet.Lib.Pool
