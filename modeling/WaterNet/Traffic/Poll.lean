import Mathlib.Order.Defs.LinearOrder
import WaterNet.Traffic.Provenance
import WaterNet.Traffic.Queues

/-!
# Waiting on a list of endpoints (`endpoint.rs`)

The functions `recv`, `recvorblock` and `recvorblockforever` over a list do not block: they call
`ep.i.recv()` of one endpoint after the other, and the last two begin again until a message came or the
clock is past their limit.  The other threads of the net go on between any two steps of this.

* `Poll`, `step` — a thread in one of these calls, on the machine of the net;
* `Finds`, `finds_step` — the invariant of a pass that began with a message waiting;
* `poll_finds` — **such a pass ends with a message**, however late it is.
-/

namespace WaterNet.Traffic

open WaterNet.Lib.Machine (run StepsMeet run_invariant_of)

/-- The call; `when` is what `get_time() + duration` gave. -/
inductive Poll.Call (τ : Type) where
  | recv
  | recvorblock (when : τ)
  | recvorblockforever

/-- Where the thread is in the call. -/
inductive Poll.Pc where
  /-- at the head of the loop over the list, with `rest` still to come -/
  | pass (rest : List EpId)
  /-- in `ep.i.recv()` -/
  | inside (e : EpId) (rest : List EpId)
  | returned (result : IoResult Message)

/-- The thread `t` in a call over `list`, and the clock. -/
structure Poll (τ : Type) where
  world : World
  t : ℕ
  list : List EpId
  call : Poll.Call τ
  now : τ
  pc : Poll.Pc

namespace Poll

variable {τ : Type} [LinearOrder τ]

inductive Act (τ : Type) where
  /-- a step of the thread -/
  | poll
  /-- a step of another thread, or of user code -/
  | others (a : Traffic.Act)
  | tick (now : τ)

/-- The thread that moves. -/
def mover : Traffic.Act → Option ℕ
  | .user _ => none
  | .send t _ _ | .recv t _ | .step t => some t

/-- The end of a pass that found nothing. -/
def again (p : Poll τ) : Poll.Pc :=
  match p.call with
  | .recv => .returned (.error .noMessages)
  | .recvorblock when => if when < p.now then .returned (.error .timedOut) else .pass p.list
  | .recvorblockforever => .pass p.list

def pollStep (p : Poll τ) : Option (Poll τ) :=
  match p.pc with
  | .pass [] => some { p with pc := p.again }
  | .pass (e :: rest) => do
    let w ← p.world.step (.recv p.t e)
    some { p with world := w, pc := .inside e rest }
  | .inside _ rest => do
    let w ← p.world.step (.step p.t)
    let th ← w.threads[p.t]?
    if th.pc = .idle then
      match w.held.drop p.world.held.length with
      | [] => some { p with world := w, pc := .pass rest }
      | msg :: _ => some { p with world := w, pc := .returned (.ok msg) }
    else some { p with world := w }
  | .returned _ => none

def step (p : Poll τ) : Act τ → Option (Poll τ)
  | .poll => p.pollStep
  | .others a =>
    if mover a = some p.t then none else (p.world.step a).map fun w => { p with world := w }
  | .tick now => if p.now ≤ now then some { p with now := now } else none

/-! ### A message that waits -/

/-- A raw or a clone message is in the queue of one of the endpoints. -/
def Waits (w : World) (es : List EpId) : Prop :=
  ∃ e ∈ es, ∃ m ∈ (w.net.eps e).messages, m.isSync = false

/-- No other thread is in a `recv` at one of the endpoints. -/
def Alone (w : World) (t : ℕ) (es : List EpId) : Prop :=
  ∀ u th, u ≠ t → w.threads[u]? = some th → ∀ e ∈ es, th.pc.recvsAt ≠ some e

/-- The `recv` that the thread is in has taken a raw or a clone message. -/
def Bears : Traffic.Pc → Prop
  | .recvDup _ copy => copy.isSync = false
  | .recvSub _ _ msg | .recvEnd _ _ msg => msg.isSync = false
  | _ => False

/-- The other threads do not begin a `recv` at one of the endpoints of the list. -/
def KeepsOff (list : List EpId) : Act τ → Prop
  | .others (.recv _ e) => e ∉ list
  | _ => True

/-- Where the thread is in a pass that will find a message. -/
inductive Ahead (p : Poll τ) : Prop where
  | pass {rest : List EpId} {th : Thread} (hpc : p.pc = .pass rest) (hrest : rest ⊆ p.list)
      (ht : p.world.threads[p.t]? = some th) (hidle : th.pc = .idle) (hwaits : Waits p.world rest)
  | inside {e : EpId} {rest : List EpId} {th : Thread} (hpc : p.pc = .inside e rest)
      (hrest : e :: rest ⊆ p.list) (ht : p.world.threads[p.t]? = some th)
      (hin : th.pc.recvsAt = some e) (hfinds : Waits p.world (e :: rest) ∨ Bears th.pc)
  | returned {msg : Message} (hpc : p.pc = .returned (.ok msg))

/-- The pass is not over, or it has found a message. -/
structure Finds (p : Poll τ) : Prop where
  alone : Alone p.world p.t p.list
  ahead : Ahead p

/-! ### The other threads -/

section

variable {w w' : World} {t : ℕ} {es : List EpId}

theorem Waits.mono {es' : List EpId} (h : Waits w es) (hsub : es ⊆ es') : Waits w es' := by
  obtain ⟨e, he, hm⟩ := h
  exact ⟨e, hsub he, hm⟩

theorem Waits.of_grown (h : Waits w es)
    (hq : ∀ e ∈ es, (w.net.eps e).messages ⊆ (w'.net.eps e).messages) : Waits w' es := by
  obtain ⟨e, he, m, hm, hsync⟩ := h
  exact ⟨e, he, m, hq e he hm, hsync⟩

/-- A step of another thread leaves in the queues what is there. -/
theorem grown_others {a : Traffic.Act} (halone : Alone w t es) (hmover : mover a ≠ some t)
    (h : w.step a = some w') : ∀ e ∈ es, (w.net.eps e).messages ⊆ (w'.net.eps e).messages := by
  intro e he m hm
  rcases World.step_moved h with ⟨-, hcalm⟩ | ⟨pc, hpc, hmoved⟩
  · rw [hcalm.queues]
    exact hm
  · rw [hmoved.queues]
    cases a with
    | step u =>
      obtain ⟨th, hth, rfl⟩ := Option.map_eq_some_iff.mp hpc
      have hout := halone u th (fun hu => hmover (congrArg some hu)) hth e he
      cases hth' : th.pc with
      | putting m' e' todo ocnt =>
        simp only [Pc.queueAfter]
        split
        · exact List.mem_append_left _ hm
        · exact hm
      | recvGet e' =>
        have hne : e' ≠ e := by
          rintro rfl
          rw [hth'] at hout
          exact hout rfl
        simp only [Pc.queueAfter, if_neg hne]
        exact hm
      | _ => exact hm
    | _ => cases hpc

/-- It does not come to a `recv` at one of the endpoints. -/
theorem alone_others {a : Traffic.Act} (halone : Alone w t es)
    (hoff : ∀ u, ∀ e ∈ es, a ≠ .recv u e) (h : w.step a = some w') : Alone w' t es := by
  intro u th hu hth e he
  rcases World.threads_step h with hsame | ⟨v, thv, thv', hv, hset, hact⟩
  · exact halone u th hu (hsame ▸ hth) e he
  · rw [hset] at hth
    by_cases huv : v = u
    · subst huv
      rw [List.getElem?_set_self (List.getElem?_eq_some_iff.mp hv).1] at hth
      obtain rfl := Option.some.inj hth
      rcases hact with ⟨rfl, hadv⟩ | ⟨e', rfl, hpc⟩ | ⟨i, how, m, rfl, hpc⟩
      · obtain ⟨th', hset', hrecvs⟩ := World.recvsAt_advance hadv
        have heq : thv' = th' := by
          have hget := congrArg (·[v]?) (hset.symm.trans hset')
          simpa [(List.getElem?_eq_some_iff.mp hv).1] using hget
        exact fun hin => halone v thv hu hv e he (hrecvs e (heq ▸ hin))
      · rw [hpc]
        rintro ⟨⟩
        exact hoff v e he rfl
      · rw [hpc]
        nofun
    · rw [List.getElem?_set_ne huv] at hth
      exact halone u th hu hth e he

/-- A step of another thread leaves the thread where it is. -/
theorem thread_others {a : Traffic.Act} (hmover : mover a ≠ some t) (h : w.step a = some w') :
    w'.threads[t]? = w.threads[t]? := by
  rcases World.threads_step h with hsame | ⟨u, thu, thu', hu, hset, hact⟩
  · rw [hsame]
  · have hne : u ≠ t := by
      rintro rfl
      rcases hact with ⟨rfl, -⟩ | ⟨e, rfl, -⟩ | ⟨i, how, m, rfl, -⟩ <;> exact hmover rfl
    rw [hset, List.getElem?_set_ne hne]

/-- A step of the thread itself leaves the others where they are. -/
theorem Alone.set (halone : Alone w t es) {th' : Thread} (hset : w'.threads = w.threads.set t th') :
    Alone w' t es := by
  intro u th hu hth e he
  rw [hset, List.getElem?_set_ne (Ne.symm hu)] at hth
  exact halone u th hu hth e he

/-! ### The thread itself -/

theorem dupIfok_isSync (m : Message) (st : Store) : (m.dupIfok st).1.isSync = m.isSync := by
  by_cases hraw : m.isRaw = true
  · obtain ⟨r, hr⟩ := Message.isRaw_iff.mp hraw
    rw [Message.dupIfok_raw hraw]
    simp [Message.isSync, Message.onFresh, hr]
  · rw [Message.dupIfok_of_not_raw (Bool.eq_false_iff.mpr hraw)]

/-- What a step inside a `recv` comes to. -/
inductive Own (w w' : World) (e : EpId) (rest : List EpId) (th' : Thread) : Prop where
  /-- the queue was empty -/
  | nothing (hidle : th'.pc = .idle) (hheld : w'.held = w.held) (hwaits : Waits w' rest)
  | found {msg : Message} (hidle : th'.pc = .idle) (hheld : w'.held = w.held ++ [msg])
  | inside (hin : th'.pc.recvsAt = some e) (hfinds : Waits w' (e :: rest) ∨ Bears th'.pc)

/-- **A `recv` at an endpoint where a raw or clone message waits returns one**, or leaves it to the
endpoints that follow. -/
theorem own_advance {th : Thread} {e : EpId} {rest : List EpId} (hin : th.pc.recvsAt = some e)
    (hfinds : Waits w (e :: rest) ∨ Bears th.pc) (h : w.advance t th = some w') :
    ∃ th', w'.threads = w.threads.set t th' ∧ Own w w' e rest th' := by
  cases World.advance_cases h with
  | sendDup hp | sendSnap hp | sendDone hp | accept hp _ | refuse hp _ | put hp _ | add hp =>
    rw [hp] at hin
    cases hin
  | @recvNone e' hp hq =>
    rw [hp] at hin hfinds
    cases hin
    obtain ⟨e₀, he₀, m, hm, hsync⟩ := hfinds.resolve_right id
    have hrest : e₀ ∈ rest := (List.mem_cons.mp he₀).resolve_left fun heq => by
      rw [heq, hq] at hm
      cases hm
    exact ⟨_, rfl, .nothing rfl rfl ⟨e₀, hrest, m, hm, hsync⟩⟩
  | @recvGet e' copy queue hp hq =>
    rw [hp] at hin hfinds
    cases hin
    refine ⟨_, rfl, .inside rfl ?_⟩
    obtain ⟨e₀, he₀, m, hm, hsync⟩ := hfinds.resolve_right id
    by_cases heq : e₀ = e
    · subst heq
      rw [hq] at hm
      rcases List.mem_cons.mp hm with rfl | hm
      · exact Or.inr hsync
      · refine Or.inl ⟨e₀, he₀, m, ?_, hsync⟩
        show m ∈ (Function.update w.net.eps e₀ _ e₀).messages
        rw [Function.update_self]
        exact hm
    · refine Or.inl ⟨e₀, he₀, m, ?_, hsync⟩
      show m ∈ (Function.update w.net.eps e _ e₀).messages
      rw [Function.update_of_ne heq]
      exact hm
  | @recvDup e' copy hp =>
    rw [hp] at hin hfinds
    cases hin
    exact ⟨_, rfl, .inside rfl (hfinds.imp id fun hbears => (dupIfok_isSync copy _).trans hbears)⟩
  | @recvSub e' copy msg hp =>
    rw [hp] at hin hfinds
    cases hin
    refine ⟨_, rfl, .inside rfl (hfinds.imp (fun hwaits => hwaits.of_grown fun e₀ _ => ?_) id)⟩
    show _ ⊆ (Function.update w.net.eps e _ e₀).messages
    by_cases heq : e₀ = e
    · subst heq
      rw [Function.update_self]
      exact List.Subset.refl _
    · rw [Function.update_of_ne heq]
      exact List.Subset.refl _
  | retRaw | retSync | retClone => exact ⟨_, rfl, .found rfl rfl⟩
  | @discard e' copy msg s hp hs hv =>
    rw [hp] at hin hfinds
    cases hin
    -- what is thrown away is a sync message
    have hsync : msg.isSync = true := by simp [Message.isSync, hs]
    exact ⟨_, rfl, .inside rfl (Or.inl (hfinds.resolve_right fun hbears => by
      rw [show msg.isSync = false from hbears] at hsync
      cases hsync))⟩

end

/-! ### The pass -/

variable {p p' : Poll τ}

theorem finds_poll (h : Finds p) (hstep : p.pollStep = some p') : Finds p' := by
  unfold pollStep at hstep
  cases h.ahead with
  | @pass rest th hpc hrest ht hidle hwaits =>
    rw [hpc] at hstep
    cases rest with
    | nil =>
      obtain ⟨e, he, -⟩ := hwaits
      cases he
    | cons e rest =>
      simp only [World.step, ht, hidle, Option.bind_eq_bind, Option.bind_some, if_true] at hstep
      cases hstep
      have hlt := (List.getElem?_eq_some_iff.mp ht).1
      exact ⟨h.alone.set rfl, .inside rfl hrest (List.getElem?_set_self hlt) rfl (Or.inl hwaits)⟩
  | @inside e rest th hpc hrest ht hin hfinds =>
    rw [hpc] at hstep
    simp only [World.step, ht, Option.bind_eq_bind, Option.bind_some, Option.bind_eq_some_iff] at hstep
    obtain ⟨w, hadv, th₁, hth₁, hstep⟩ := hstep
    obtain ⟨th', hset, hown⟩ := own_advance hin hfinds hadv
    have ht' : w.threads[p.t]? = some th' := by
      rw [hset]
      exact List.getElem?_set_self (List.getElem?_eq_some_iff.mp ht).1
    obtain rfl := Option.some.inj (hth₁.symm.trans ht')
    have halone := h.alone.set hset
    cases hown with
    | nothing hidle hheld hwaits =>
      rw [if_pos hidle, hheld, List.drop_length] at hstep
      cases hstep
      exact ⟨halone, .pass rfl (fun x hx => hrest (List.mem_cons_of_mem e hx)) ht' hidle hwaits⟩
    | found hidle hheld =>
      rw [if_pos hidle, hheld, List.drop_left] at hstep
      cases hstep
      exact ⟨halone, .returned rfl⟩
    | inside hin' hfinds' =>
      have hbusy : th₁.pc ≠ .idle := by
        intro hidle
        rw [hidle] at hin'
        cases hin'
      rw [if_neg hbusy] at hstep
      cases hstep
      exact ⟨halone, .inside rfl hrest ht' hin' hfinds'⟩
  | returned hpc =>
    rw [hpc] at hstep
    cases hstep

/-- **Every step keeps it** while the others keep off. -/
theorem finds_step {a : Act τ} (h : Finds p) (hoff : KeepsOff p.list a) (hstep : p.step a = some p') :
    Finds p' := by
  cases a with
  | poll => exact finds_poll h hstep
  | others a =>
    simp only [step] at hstep
    split at hstep
    · cases hstep
    · rename_i hmover
      obtain ⟨w, hw, rfl⟩ := Option.map_eq_some_iff.mp hstep
      have halone : Alone w p.t p.list := alone_others h.alone (fun u e he ha => by
        subst ha
        exact hoff he) hw
      have hgrown := grown_others h.alone hmover hw
      have hthread := thread_others hmover hw
      cases h.ahead with
      | pass hpc hrest ht hidle hwaits =>
        exact ⟨halone, .pass hpc hrest (hthread.trans ht) hidle
          (hwaits.of_grown fun e he => hgrown e (hrest he))⟩
      | inside hpc hrest ht hin hfinds =>
        exact ⟨halone, .inside hpc hrest (hthread.trans ht) hin
          (hfinds.imp_left fun hwaits => hwaits.of_grown fun e he => hgrown e (hrest he))⟩
      | returned hpc => exact ⟨halone, .returned hpc⟩
  | tick now =>
    simp only [step] at hstep
    split at hstep
    · cases hstep
      refine ⟨h.alone, ?_⟩
      cases h.ahead with
      | pass hpc hrest ht hidle hwaits => exact .pass hpc hrest ht hidle hwaits
      | inside hpc hrest ht hin hfinds => exact .inside hpc hrest ht hin hfinds
      | returned hpc => exact .returned hpc
    · cases hstep

/-- A call stays one of the same list. -/
theorem step_list {a : Act τ} (hstep : p.step a = some p') : p'.list = p.list := by
  cases a with
  | poll =>
    simp only [step, pollStep] at hstep
    split at hstep
    · cases hstep
      rfl
    · simp only [Option.bind_eq_bind, Option.bind_eq_some_iff] at hstep
      obtain ⟨w, -, hstep⟩ := hstep
      cases hstep
      rfl
    · simp only [Option.bind_eq_bind, Option.bind_eq_some_iff] at hstep
      obtain ⟨w, -, th, -, hstep⟩ := hstep
      split at hstep
      · split at hstep <;> cases hstep <;> rfl
      · cases hstep
        rfl
    · cases hstep
  | others a =>
    simp only [step] at hstep
    split at hstep
    · cases hstep
    · obtain ⟨w, -, rfl⟩ := Option.map_eq_some_iff.mp hstep
      rfl
  | tick now =>
    simp only [step] at hstep
    split at hstep
    · cases hstep
      rfl
    · cases hstep

/-- **A pass that begins while a raw or a clone message waits ends with a message.**  A thread is at the
beginning of a pass of `recv`, `recvorblock` or `recvorblockforever` over a list, and nobody else
receives at the endpoints of the list: whatever the other threads do in between, and however late it is
by the clock, the call comes neither to the end of the pass without a message nor to an error. -/
theorem poll_finds {acts : List (Act τ)} {th : Thread} (hpc : p.pc = .pass p.list)
    (ht : p.world.threads[p.t]? = some th) (hidle : th.pc = .idle)
    (halone : Alone p.world p.t p.list) (hwaits : Waits p.world p.list)
    (hoff : ∀ a ∈ acts, KeepsOff p.list a) (hrun : run step p acts = some p') :
    p'.pc ≠ .pass [] ∧ ∀ err, p'.pc ≠ .returned (.error err) := by
  have hkeep : ∀ (q : Poll τ) (a : Act τ) (q' : Poll τ), Finds q ∧ q.list = p.list →
      KeepsOff p.list a → q.step a = some q' → Finds q' ∧ q'.list = p.list := by
    rintro q a q' ⟨hfinds, hlist⟩ hkeeps hstep
    exact ⟨finds_step hfinds (hlist ▸ hkeeps) hstep, (step_list hstep).trans hlist⟩
  have hstart : Finds p := ⟨halone, .pass hpc (List.Subset.refl _) ht hidle hwaits⟩
  obtain ⟨hfinds, -⟩ := run_invariant_of hkeep (.of_forall hoff p) hrun ⟨hstart, rfl⟩
  cases hfinds.ahead with
  | pass hpc' _ _ _ hwaits' =>
    refine ⟨fun hnil => ?_, fun err herr => ?_⟩
    · obtain ⟨e, he, -⟩ := hwaits'
      rw [hpc'] at hnil
      cases hnil
      cases he
    · rw [hpc'] at herr
      cases herr
  | inside hpc' | returned hpc' =>
    rw [hpc']
    exact ⟨nofun, nofun⟩

def twoEndpoints : World where
  net := ((Net.new 100).newEndpoint 0).newEndpoint 1
  waitmutex _ := false
  threads := List.replicate 2 ⟨.idle, 0, 0⟩
  held := []
  trace := []

/-- A clone message goes from the first endpoint to the second. -/
def cloneSent : List Traffic.Act :=
  [.user (.newClone (fun _ => 0) 8 [1]), .send 1 0 (.send 0)] ++ List.replicate 7 (.step 1)

/-- A call whose limit is past when it begins. -/
def late (w : World) : Poll ℕ := ⟨w, 0, [0, 1], .recvorblock 5, 7, .pass [0, 1]⟩

def lateScript : List (Act ℕ) :=
  [.poll, .poll, .others (.user (.newRaw (fun _ => 0) 1)), .tick 9] ++ List.replicate 5 .poll

/-- The end of a call, if it has returned a message. -/
def Pc.found : Poll.Pc → Bool
  | .returned (.ok _) => true
  | _ => false

theorem poll_finds_late : ∃ w p', run World.step twoEndpoints cloneSent = some w ∧
    run step (late w) lateScript = some p' ∧ p'.pc.found = true ∧
      p'.pc ≠ .pass [] ∧ ∀ err, p'.pc ≠ .returned (.error err) := by
  obtain ⟨w, hw, hobs⟩ := Option.map_eq_some_iff.mp
    (show (run World.step twoEndpoints cloneSent).map
        (fun w => (w.threads.map Thread.pc, (w.net.eps 1).messages.any fun m => !m.isSync)) =
      some ([.idle, .idle], true) by decide +kernel)
  rw [Prod.mk.injEq] at hobs
  obtain ⟨hpcs, hany⟩ := hobs
  obtain ⟨p', hboth, hfound⟩ := Option.map_eq_some_iff.mp
    (show ((run World.step twoEndpoints cloneSent).bind fun w => run step (late w) lateScript).map
        (fun p => p.pc.found) = some true by decide +kernel)
  rw [hw, Option.bind_some] at hboth
  have hidle : ∀ {u : ℕ} {th : Thread}, w.threads[u]? = some th → th.pc = .idle := by
    intro u th hu
    have hmem := List.mem_map_of_mem (f := Thread.pc) (List.mem_of_getElem? hu)
    rw [hpcs] at hmem
    simpa using hmem
  obtain ⟨th, ht⟩ : ∃ th, w.threads[0]? = some th := by
    have hlen := congrArg List.length hpcs
    rw [List.length_map] at hlen
    exact ⟨_, List.getElem?_eq_getElem (hlen ▸ Nat.zero_lt_two)⟩
  have halone : Alone w 0 [0, 1] := by
    intro u th' _ hu e _
    rw [hidle hu]
    nofun
  have hwaits : Waits w [0, 1] := by
    obtain ⟨m, hm, hsync⟩ := List.any_eq_true.mp hany
    exact ⟨1, by decide, m, hm, by simpa using hsync⟩
  have hoff : ∀ a ∈ lateScript, KeepsOff [0, 1] a := by
    simp [lateScript, KeepsOff]
  exact ⟨w, p', hw, hboth, hfound, poll_finds rfl ht (hidle ht) halone hwaits hoff hboth⟩

end Poll

end WaterNet.Traffic
