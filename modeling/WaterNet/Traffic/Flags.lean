import WaterNet.Traffic.Ownership

/-!
# The `valid` flags of sync messages

All copies of a sync message share one flag, which the first `recv` to reach `takeasvalid` clears.
So the flags and the trace determine each other: a flag that was made and is no longer set has
been taken by exactly one `recv`, and any other flag by none.

* `Flags` — that correspondence, and that whatever was thrown away had been taken before;
* `flags_trans` — every step keeps it.
-/

namespace WaterNet.Traffic

/-- The flag of the queue entry that a `recv` returned a message for. -/
@[simp] def Event.returnedFlag : Event → Option ℕ
  | .returned _ _ copy _ _ => copy.flag
  | _ => none

/-- The flags of the sync messages returned so far, one entry for each such return. -/
def taken (tr : List Event) : List ℕ := tr.filterMap Event.returnedFlag

@[simp] theorem taken_snoc (tr : List Event) (ev : Event) :
    taken (tr ++ [ev]) = taken tr ++ ev.returnedFlag.toList :=
  filterMap_snoc _ _ _

namespace World

/-- A flag was taken once if it is cleared and never otherwise, and every copy thrown away carries
a flag that was taken earlier. -/
structure Flags (w : World) : Prop where
  once : ∀ f, (taken w.trace).count f =
    if f < w.net.store.nvalid ∧ w.net.store.valid f = false then 1 else 0
  late : ∀ pre e id copy post, w.trace = pre ++ .discarded e id copy :: post →
    ∃ f, copy.flag = some f ∧ f ∈ taken pre

/-- The clause about discarded copies, after one more event. -/
theorem late_snoc {tr : List Event} {ev : Event}
    (hlate : ∀ pre e id copy post, tr = pre ++ .discarded e id copy :: post →
      ∃ f, copy.flag = some f ∧ f ∈ taken pre)
    (hev : ∀ e id copy, ev = .discarded e id copy → ∃ f, copy.flag = some f ∧ f ∈ taken tr) :
    ∀ pre e id copy post, tr ++ [ev] = pre ++ .discarded e id copy :: post →
      ∃ f, copy.flag = some f ∧ f ∈ taken pre := by
  intro pre e id copy post h
  rcases List.eq_nil_or_concat post with rfl | ⟨post', x, rfl⟩
  · obtain ⟨rfl, hx⟩ := List.append_inj' h rfl
    exact hev e id copy (List.singleton_inj.mp hx)
  · rw [List.concat_eq_append, ← List.cons_append, ← List.append_assoc] at h
    exact hlate pre e id copy post' (List.append_inj' h rfl).1

/-- User code makes new flags, and neither sets nor clears an old one. -/
theorem valid_user {w w' : World} {op : UserOp} (h : w.userStep op = some w') (f : ℕ) :
    (f < w'.net.store.nvalid ∧ w'.net.store.valid f = false) ↔
      (f < w.net.store.nvalid ∧ w.net.store.valid f = false) := by
  cases op with
  | newRaw | newClone | drop | setAddress | setLimits =>
    cases h
    rfl
  | newSync junk ty t =>
    cases h
    show f < w.net.store.nvalid + 1 ∧
      Function.update w.net.store.valid w.net.store.nvalid true f = false ↔ _
    by_cases hf : f = w.net.store.nvalid
    · simp [hf]
    · rw [Function.update_of_ne hf]
      exact and_congr_left' (by omega)
  | setHeader | fromPayload =>
    simp only [userStep, Option.map_eq_some_iff] at h
    obtain ⟨m, -, rfl⟩ := h
    rfl
  | clone | write =>
    simp only [userStep, Option.bind_eq_bind, Option.bind_eq_some_iff] at h
    obtain ⟨m, -, b, -, h⟩ := h
    cases h
    rfl
  | dup =>
    simp only [userStep, Option.bind_eq_bind, Option.bind_eq_some_iff] at h
    obtain ⟨m, -, ⟨m', st⟩, hdup, h⟩ := h
    cases h
    obtain ⟨-, -, rfl⟩ := Message.dup_eq_some hdup
    rfl

/-- A step that leaves the flags alone and neither returns nor discards. -/
theorem Flags.same {w w' : World} (hi : w.Flags) (hn : w'.net.store.nvalid = w.net.store.nvalid)
    (hv : w'.net.store.valid = w.net.store.valid)
    (htr : w'.trace = w.trace ∨ ∃ ev, w'.trace = w.trace ++ [ev] ∧ ev.returnedFlag = none ∧
      ∀ e id copy, ev ≠ .discarded e id copy) : w'.Flags := by
  constructor
  · intro f
    rw [hn, hv, ← hi.once f]
    rcases htr with h | ⟨ev, h, hret, -⟩
    · rw [h]
    · rw [h, taken_snoc, hret, Option.toList_none, List.append_nil]
  · rcases htr with h | ⟨ev, h, -, hdis⟩
    · rw [h]
      exact hi.late
    · rw [h]
      exact late_snoc hi.late fun e id copy heq => absurd heq (hdis e id copy)

/-- A message that is not a sync message is returned. -/
theorem Flags.giveBack {w : World} {st : Store} {t : ℕ} {th : Thread} {e : EpId}
    {copy msg : Message} (hi : w.Flags) (hn : st.nvalid = w.net.store.nvalid)
    (hv : st.valid = w.net.store.valid) (hflag : copy.flag = none) :
    ((w.setStore st).giveBack t th e copy msg).Flags :=
  hi.same hn hv (Or.inr ⟨_, rfl, hflag, fun _ _ _ h => by cases h⟩)

theorem MadeOf.flag {copy msg : Message} (h : MadeOf copy msg) (hmsg : msg.flag = none) :
    copy.flag = none := by
  by_cases hraw : copy.isRaw = true
  · obtain ⟨r, hr⟩ := Message.isRaw_iff.mp hraw
    simp [Message.flag, hr]
  · rw [← h.same (Bool.eq_false_iff.mpr hraw)]
    exact hmsg

theorem flags_trans {own : ℕ → Bool} {w w' : World} (h : Trans w w') (ho : Owned own w)
    (hi : w.Flags) : w'.Flags := by
  cases h with
  | user h =>
    refine ⟨fun f => ?_, by rw [(userStep_sameTraffic h).trace]; exact hi.late⟩
    rw [(userStep_sameTraffic h).trace, hi.once f]
    exact if_congr (valid_user h f).symm rfl rfl
  | startSend | startRecv | sendSnap | sendDone | accept | refuse | add | recvNone | recvSub =>
    exact hi.same rfl rfl (Or.inl rfl)
  | @recvDup t th e copy =>
    unfold Message.dupIfok
    split <;> exact hi.same rfl rfl (Or.inl rfl)
  | @sendDup t th m =>
    refine hi.same ?_ ?_ (Or.inr ⟨_, rfl, rfl, fun _ _ _ h => by cases h⟩)
    · show (w.net.copied m).2.store.nvalid = _
      unfold Net.copied
      split <;> rfl
    · show (w.net.copied m).2.store.valid = _
      unfold Net.copied
      split <;> rfl
  | put | recvGet => exact hi.same rfl rfl (Or.inr ⟨_, rfl, rfl, fun _ _ _ h => by cases h⟩)
  | @retRaw t th e copy msg ht hpc hraw =>
    have hmade := (ho.threads _ (List.mem_of_getElem? ht)).working copy msg (by simp [hpc, Pc.working])
    obtain ⟨r, hr⟩ := Message.isRaw_iff.mp hraw
    exact hi.giveBack rfl rfl (MadeOf.flag hmade (by simp [Message.flag, hr]))
  | @retClone t th e copy msg c ht hpc hc =>
    have hmade := (ho.threads _ (List.mem_of_getElem? ht)).working copy msg (by simp [hpc, Pc.working])
    show ((w.setStore w.net.store).giveBack t th e copy msg).Flags
    exact hi.giveBack rfl rfl (MadeOf.flag hmade (by simp [Message.flag, hc]))
  | @retSync t th e copy msg s ht hpc hs hv =>
    have hth := ho.threads _ (List.mem_of_getElem? ht)
    have hmade := hth.working copy msg (by simp [hpc, Pc.working])
    have hlt := (hth.carried msg (by simp [hpc, Pc.carried])).flag _ (Message.flag_of_sync hs)
    have hcopy : copy.flag = some s.valid := by
      rw [← hmade.same (hmade.raw ▸ Message.isRaw_false_of_sync hs)]
      exact Message.flag_of_sync hs
    constructor
    · -- the flag is cleared as the return that takes it is logged
      intro f
      show (taken (w.trace ++ [.returned e ⟨t, th.recvs⟩ copy msg _])).count f =
        if f < w.net.store.nvalid ∧ Function.update w.net.store.valid s.valid false f = false
          then 1 else 0
      rw [taken_snoc, List.count_append, hi.once f, Event.returnedFlag, hcopy]
      by_cases hf : f = s.valid
      · simp [hf, hv, hlt]
      · simp [Function.update_of_ne hf, Ne.symm hf]
    · exact late_snoc hi.late fun _ _ _ h => by cases h
  | @discard t th e copy msg s ht hpc hs hv =>
    have hth := ho.threads _ (List.mem_of_getElem? ht)
    have hmade := hth.working copy msg (by simp [hpc, Pc.working])
    have hlt := (hth.carried msg (by simp [hpc, Pc.carried])).flag _ (Message.flag_of_sync hs)
    have hcopy : copy.flag = some s.valid := by
      rw [← hmade.same (hmade.raw ▸ Message.isRaw_false_of_sync hs)]
      exact Message.flag_of_sync hs
    constructor
    · intro f
      show (taken (w.trace ++ [.discarded e ⟨t, th.recvs⟩ copy])).count f = _
      rw [taken_snoc]
      show (taken w.trace ++ []).count f = _
      rw [List.append_nil]
      exact hi.once f
    · -- the flag it found cleared has been taken by then
      refine late_snoc hi.late fun e' id copy' heq => ?_
      cases heq
      have hcount : (taken w.trace).count s.valid = 1 := by rw [hi.once, if_pos ⟨hlt, hv⟩]
      exact ⟨s.valid, hcopy, List.count_pos_iff.mp (hcount ▸ Nat.one_pos)⟩

end World

end WaterNet.Traffic
