import WaterNet.Traffic.Delivery

/-!
# Sending on a sync message that was received

The `valid` flag goes with the message through `recv` and through later sends, and the `recv` that
returned the message has cleared it.

* `trace_trans`, `trace_run` — a run only adds to the log;
* `Good.not_returned` — **nothing comes of a forwarded sync message**: no `recv` returns a copy of it;
* `forwarded_never_returned` — so once all endpoints that accepted it have dequeued it, all of them
  have thrown it away.
-/

namespace WaterNet.Traffic

open WaterNet.Lib.Machine (run run_append_eq_some)
open WaterNet.Lib.Pool (total)

namespace World

/-! ### The log of a run -/

theorem trace_trans {w w' : World} (h : Trans w w') : ∃ evs, w'.trace = w.trace ++ evs := by
  cases h with
  | user h => exact ⟨[], by rw [(userStep_sameTraffic h).trace, List.append_nil]⟩
  | startSend | startRecv | sendSnap | sendDone | accept | refuse | add | recvNone | recvDup | recvSub =>
    exact ⟨[], (List.append_nil _).symm⟩
  | sendDup | put | recvGet | retRaw | retSync | discard | retClone => exact ⟨[_], rfl⟩

theorem trace_run {w w' : World} {acts : List Act} (h : run step w acts = some w') :
    ∃ evs, w'.trace = w.trace ++ evs := by
  induction acts generalizing w with
  | nil =>
    cases h
    exact ⟨[], (List.append_nil _).symm⟩
  | cons a acts ih =>
    obtain ⟨w₁, hstep, hrest⟩ := WaterNet.Lib.Machine.run_cons_eq_some.mp h
    obtain ⟨evs₁, h₁⟩ := trace_trans (step_trans hstep)
    obtain ⟨evs₂, h₂⟩ := ih hrest
    exact ⟨evs₁ ++ evs₂, by rw [h₂, h₁, List.append_assoc]⟩

/-! ### What was returned -/

/-- What was returned at an endpoint had been put there, by a send that is in the log. -/
theorem Good.sent_of_returned {w : World} (h : w.Good) {e : EpId} {m : Message}
    (hm : m ∈ returned e w.trace) : m.origin ∈ sends m.origin.thread w.trace := by
  have hcount := List.count_pos_iff.mpr hm
  have hfate := h.fate e m
  have hdeq : m ∈ dequeued e w.trace := List.count_pos_iff.mp (by omega)
  have henq : m ∈ enqueued e w.trace := by
    rw [h.fifo e]
    exact List.mem_append_left _ hdeq
  have hmine : m.origin ∈ mine m.origin.thread e w.trace := by
    rw [mine, List.mem_filter]
    exact ⟨List.mem_map_of_mem henq, by simp⟩
  exact (h.order.kept m.origin.thread e).subset hmine

theorem mem_sends {t : ℕ} {id : SendId} {tr : List Event} (h : id ∈ sends t tr) :
    ∃ m content, Event.sent id m content ∈ tr := by
  obtain ⟨ev, hev, hid⟩ := List.mem_filterMap.mp h
  cases ev with
  | sent id' m content =>
    simp only [Event.sentBy, Option.ite_none_right_eq_some, Option.some.injEq] at hid
    exact ⟨m, content, hid.2 ▸ hev⟩
  | _ => simp at hid

/-- A copy with the flag `f` that was returned is in the list of the flag. -/
theorem mem_taken_of_returned {e : EpId} {m : Message} {f : ℕ} {tr : List Event}
    (hf : m.flag = some f) (hm : m ∈ returned e tr) : f ∈ taken tr := by
  obtain ⟨ev, hev, hat⟩ := List.mem_filterMap.mp hm
  cases ev with
  | returned e' id copy msg content =>
    simp only [Event.returnedAt, Option.ite_none_right_eq_some, Option.some.injEq] at hat
    exact List.mem_filterMap.mpr ⟨_, hev, by rw [Event.returnedFlag, hat.2, hf]⟩
  | _ => simp at hat

/-- **Nothing comes of a forwarded sync message.**  Let its flag be taken in the log of `w₁`.  A send
of a message with that flag after `w₁` puts copies into queues, and no `recv` ever returns one. -/
theorem Good.not_returned {w₁ w : World} {evs : List Event} (h₁ : w₁.Good) (h : w.Good)
    (htrace : w.trace = w₁.trace ++ evs) {f : ℕ} (htaken : f ∈ taken w₁.trace) {m : Message}
    {content : RawMessage.Internal} (hf : m.flag = some f)
    (hsent : .sent m.origin m content ∈ w.trace) (hnew : .sent m.origin m content ∉ w₁.trace)
    (e : EpId) : m ∉ returned e w.trace := by
  intro hm
  rw [returned, htrace, List.filterMap_append, List.mem_append] at hm
  rcases hm with hold | hlate
  · -- it would have been sent before `w₁`
    obtain ⟨m', content', hs⟩ := mem_sends (h₁.sent_of_returned hold)
    have hs' : .sent m.origin m' content' ∈ w.trace := by
      rw [htrace]
      exact List.mem_append_left _ hs
    obtain ⟨rfl, rfl⟩ := h.order.sent_unique hs' hsent
    exact hnew hs
  · -- the flag would be taken twice
    have htwice : 2 ≤ (taken w.trace).count f := by
      have hone := List.count_pos_iff.mpr htaken
      have hmore := List.count_pos_iff.mpr (mem_taken_of_returned hf hlate)
      rw [taken, htrace, List.filterMap_append, List.count_append]
      exact Nat.add_le_add hone hmore
    rw [h.flags.once f] at htwice
    split at htwice <;> omega

/-- Exactly one `recv` has returned a copy of the message. -/
def ReturnedOnce (w : World) (m : Message) : Prop :=
  ∃ e, (returned e w.trace).count m = 1 ∧ ∀ e', e' ≠ e → m ∉ returned e' w.trace

/-- **A received sync message cannot be forwarded.**  Let a `recv` have returned a sync message by the
time of `w₁`, and let the message be sent on later, in any way and however often it was sent on
before.  Whatever has happened by the time of `w`, no `recv` has returned a copy of it, so never has
exactly one; and when no queue holds it and no `recv` is at work on it, every endpoint that accepted
it has thrown it away. -/
theorem forwarded_never_returned {w₀ w₁ w : World} {acts₁ acts₂ : List Act} (hinit : Init w₀)
    (hrun₁ : run step w₀ acts₁ = some w₁) (hrun₂ : run step w₁ acts₂ = some w) {e₀ : EpId}
    {rid : RecvId} {copy msg : Message} {c : RawMessage.Internal} {f : ℕ}
    (hret : .returned e₀ rid copy msg c ∈ w₁.trace) (hcopy : copy.flag = some f) {m : Message}
    {content : RawMessage.Internal} (hf : m.flag = some f)
    (hsent : .sent m.origin m content ∈ w.trace) (hnew : .sent m.origin m content ∉ w₁.trace) :
    ¬w.ReturnedOnce m ∧
    ((∀ e, m ∉ (w.net.eps e).messages ∧ total (processing e m) w.threads = 0) →
      ∀ e, m ∈ enqueued e w.trace → m ∈ discarded e w.trace) := by
  have hgood₁ := good_run hinit hrun₁
  have hgood := good_run hinit (run_append_eq_some.mpr ⟨w₁, hrun₁, hrun₂⟩)
  obtain ⟨evs, htrace⟩ := trace_run hrun₂
  have htaken : f ∈ taken w₁.trace := List.mem_filterMap.mpr ⟨_, hret, hcopy⟩
  have hnone := hgood₁.not_returned hgood htrace htaken hf hsent hnew
  refine ⟨fun ⟨e, hone, _⟩ => ?_, fun hdone e he => ?_⟩
  · rw [List.count_eq_zero.mpr (hnone e)] at hone
    cases hone
  · rw [hgood.fifo e] at he
    have hdeq := (List.mem_append.mp he).resolve_right (hdone e).1
    have hout := hgood.returned_or_discarded hdeq (hdone e).2
    rw [List.count_eq_zero.mpr (hnone e), Nat.zero_add] at hout
    exact List.count_pos_iff.mp (hout ▸ Nat.one_pos)

/-! ### One hop -/

/-- The thread 0 sends a sync message from the endpoint 0, and the thread 1 receives it at the
endpoint 1. -/
def firstHop : List Act :=
  [.user (.newSync (fun _ => 0) 5 [1]), .send 0 0 (.send 0)] ++ List.replicate 7 (Act.step 0) ++
    [.recv 1 1] ++ List.replicate 4 (Act.step 1)

/-- The thread 1 sends it on from the endpoint 1, and the thread 0 receives at the endpoint 0. -/
def secondHop : List Act :=
  [.send 1 0 (.send 1)] ++ List.replicate 7 (Act.step 1) ++ [.recv 0 0] ++ List.replicate 5 (Act.step 0)

/-- The message as the endpoint with the ID `eid` sends it. -/
def hopMsg (eid : ID) (id : SendId) : Message :=
  { syncMsg with srcsid := 100, srceid := eid, origin := id }

/-- What the first hop leaves in the log. -/
def firstLog : List Event :=
  [.sent ⟨0, 0⟩ (hopMsg 0x10000 ⟨0, 0⟩) ⟨1, 1, [1]⟩, .put 1 (hopMsg 0x10000 ⟨0, 0⟩),
    .got 1 ⟨1, 0⟩ (hopMsg 0x10000 ⟨0, 0⟩),
    .returned 1 ⟨1, 0⟩ (hopMsg 0x10000 ⟨0, 0⟩) (hopMsg 0x10000 ⟨0, 0⟩) ⟨1, 1, [1]⟩]

/-- What the second hop adds. -/
def secondLog : List Event :=
  [.sent ⟨1, 0⟩ (hopMsg 0x10001 ⟨1, 0⟩) ⟨1, 1, [1]⟩, .put 0 (hopMsg 0x10001 ⟨1, 0⟩),
    .got 0 ⟨0, 0⟩ (hopMsg 0x10001 ⟨1, 0⟩), .discarded 0 ⟨0, 0⟩ (hopMsg 0x10001 ⟨1, 0⟩)]

theorem hops : ∃ w₁ w, run step pair firstHop = some w₁ ∧ w₁.trace = firstLog ∧
    run step w₁ secondHop = some w ∧ w.trace = firstLog ++ secondLog ∧
    w.threads.map Thread.pc = [.idle, .idle] := by
  obtain ⟨w, hw, hres⟩ := Option.map_eq_some_iff.mp
    (show (run step pair (firstHop ++ secondHop)).map (fun w => (w.trace, w.threads.map Thread.pc)) =
      some (firstLog ++ secondLog, [.idle, .idle]) by decide +kernel)
  obtain ⟨w₁, hw₁, hrest⟩ := run_append_eq_some.mp hw
  have htrace₁ : (run step pair firstHop).map trace = some firstLog := by decide +kernel
  rw [hw₁, Option.map_some, Option.some.injEq] at htrace₁
  obtain ⟨htrace, hpcs⟩ := Prod.mk.inj hres
  exact ⟨w₁, w, hw₁, htrace₁, hrest, htrace, hpcs⟩

theorem forwarded_never_returned_hops : ∃ w₁ w, run step pair firstHop = some w₁ ∧
    run step w₁ secondHop = some w ∧ ¬w.ReturnedOnce (hopMsg 0x10001 ⟨1, 0⟩) ∧
    ((∀ e, hopMsg 0x10001 ⟨1, 0⟩ ∉ (w.net.eps e).messages ∧
        total (processing e (hopMsg 0x10001 ⟨1, 0⟩)) w.threads = 0) →
      ∀ e, hopMsg 0x10001 ⟨1, 0⟩ ∈ enqueued e w.trace →
        hopMsg 0x10001 ⟨1, 0⟩ ∈ discarded e w.trace) := by
  obtain ⟨w₁, w, hw₁, htrace₁, hw, htrace, -⟩ := hops
  have hret : .returned 1 ⟨1, 0⟩ (hopMsg 0x10000 ⟨0, 0⟩) (hopMsg 0x10000 ⟨0, 0⟩) ⟨1, 1, [1]⟩ ∈
      w₁.trace := by
    rw [htrace₁]
    decide
  have hsent : .sent (hopMsg 0x10001 ⟨1, 0⟩).origin (hopMsg 0x10001 ⟨1, 0⟩) ⟨1, 1, [1]⟩ ∈ w.trace := by
    rw [htrace]
    decide
  have hnew : .sent (hopMsg 0x10001 ⟨1, 0⟩).origin (hopMsg 0x10001 ⟨1, 0⟩) ⟨1, 1, [1]⟩ ∉
      w₁.trace := by
    rw [htrace₁]
    decide
  exact ⟨w₁, w, hw₁, hw, forwarded_never_returned pair_init hw₁ hw hret rfl rfl hsent hnew⟩

/-- **The forwarded message is lost**: the endpoint 0 accepted and dequeued it, and nobody was given
it. -/
theorem not_forwarded_once : ¬∀ (w₀ w₁ w : World) (acts₁ acts₂ : List Act) (e₀ : EpId)
    (rid : RecvId) (copy msg : Message) (c : RawMessage.Internal) (f : ℕ) (m : Message)
    (content : RawMessage.Internal), Init w₀ → run step w₀ acts₁ = some w₁ →
    run step w₁ acts₂ = some w → .returned e₀ rid copy msg c ∈ w₁.trace → copy.flag = some f →
    m.flag = some f → .sent m.origin m content ∈ w.trace → .sent m.origin m content ∉ w₁.trace →
    (∃ e, m ∈ enqueued e w.trace) →
    (∀ e, m ∉ (w.net.eps e).messages ∧ total (processing e m) w.threads = 0) →
    w.ReturnedOnce m := by
  intro h
  obtain ⟨w₁, w, hw₁, htrace₁, hw, htrace, hpcs⟩ := hops
  have hgood := good_run pair_init (run_append_eq_some.mpr ⟨w₁, hw₁, hw⟩)
  have hdrained : ∀ e, (w.net.eps e).messages = [] := by
    intro e
    have hfifo := hgood.fifo e
    have hsame : enqueued e (firstLog ++ secondLog) = dequeued e (firstLog ++ secondLog) := by
      by_cases h0 : e = 0
      · subst h0
        decide
      · by_cases h1 : e = 1
        · subst h1
          decide
        · simp [firstLog, secondLog, enqueued, dequeued, List.filterMap_cons, Ne.symm h0, Ne.symm h1]
    rw [htrace, hsame] at hfifo
    exact List.append_right_eq_self.mp hfifo.symm
  have hidle : ∀ e m, total (processing e m) w.threads = 0 := by
    intro e m
    refine WaterNet.Lib.Pool.total_eq_zero fun th hth => ?_
    have hpc : th.pc ∈ [Pc.idle, Pc.idle] := hpcs ▸ List.mem_map_of_mem hth
    have hpc' : th.pc = .idle := by simpa using hpc
    simp [processing, hpc']
  obtain ⟨e, hone, -⟩ := h pair w₁ w firstHop secondHop 1 ⟨1, 0⟩ (hopMsg 0x10000 ⟨0, 0⟩)
    (hopMsg 0x10000 ⟨0, 0⟩) ⟨1, 1, [1]⟩ 0 (hopMsg 0x10001 ⟨1, 0⟩) ⟨1, 1, [1]⟩ pair_init hw₁ hw
    (by rw [htrace₁]; decide) rfl rfl (by rw [htrace]; decide) (by rw [htrace₁]; decide)
    ⟨0, by rw [htrace]; decide⟩ (fun e => ⟨by rw [hdrained e]; exact List.not_mem_nil, hidle e _⟩)
  have hnone : ∀ e, (returned e (firstLog ++ secondLog)).count (hopMsg 0x10001 ⟨1, 0⟩) = 0 := by
    intro e
    by_cases h1 : e = 1
    · subst h1
      decide
    · simp [firstLog, secondLog, returned, List.filterMap_cons, Ne.symm h1]
  rw [htrace, hnone e] at hone
  cases hone

end World

end WaterNet.Traffic
