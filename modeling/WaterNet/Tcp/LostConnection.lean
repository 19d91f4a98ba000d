import WaterNet.Tcp.Reconnect

/-!
# A connection that is lost (`tcp/mod.rs`, `tcp/connector.rs`)

When the peer closes a connection `thread_rx` returns, and the source hopes that `thread_tx` follows
suit.  But `thread_tx` returns only when it receives a `TerminateMessage`, and the connector thread
joins both before it connects again.

* `First` — the connector works on its first connection;
* `Untold` — no `TerminateMessage` is in a queue of the connector;
* `no_reconnect` — **without such a message the connector never makes a second endpoint**.
-/

namespace WaterNet.Tcp.Connector

open Endpoint (Internal)
open WaterNet.Lib.Machine (run StepsMeet run_append_eq_some run_invariant_of)

/-! ### The first connection -/

/-- The connector works on its first connection, which has not ended, or has exited. -/
structure First (c : Control) : Prop where
  lasts : c.tx ≠ .done
  reads : ∀ e, c.tx = .running e → c.made = [e]
  made : ∀ e, c.pc.made = some e → c.made = [e]
  before : c.pc.made = none → c.pc = .exited ∧ c.made.length ≤ 1 ∨
    c.made = [] ∧ c.pc ≠ .setDisconnected ∧ c.pc ≠ .finalTest

namespace First

variable {c c' : Control} {told : EpId → Prop}

theorem length_le (h : First c) : c.made.length ≤ 1 := by
  cases hpc : c.pc.made with
  | none =>
    rcases h.before hpc with ⟨-, hle⟩ | ⟨hnil, -⟩
    · exact hle
    · rw [hnil]
      exact Nat.zero_le 1
  | some e =>
    rw [h.made e hpc]
    exact le_refl 1

theorem not_back (h : First c) : c.pc ≠ .setDisconnected ∧ c.pc ≠ .finalTest := by
  have hback : c.pc = .setDisconnected ∨ c.pc = .finalTest → False := by
    intro hpc
    have hmade : c.pc.made = none := by rcases hpc with hpc | hpc <;> rw [hpc] <;> rfl
    rcases h.before hmade with ⟨hexit, -⟩ | ⟨-, hd, hf⟩
    · rcases hpc with hpc | hpc <;> rw [hpc] at hexit <;> cases hexit
    · exact hpc.elim hd hf
  exact ⟨fun hpc => hback (Or.inl hpc), fun hpc => hback (Or.inr hpc)⟩

/-- The thread goes on with the endpoint it has made. -/
theorem go (h : First c) {e : EpId} (hpc : c.pc.made = some e) {pc : Pc} (hpc' : pc.made = some e)
    {rx : Rx} {tx : Tx} {ep : Option EpId} (htx : tx = c.tx ∨ tx = .running e) :
    First { c with pc := pc, rx := rx, tx := tx, ep := ep } := by
  have hmade := h.made e hpc
  refine ⟨?_, fun e' he => ?_, fun e' he => ?_, fun hnone => ?_⟩
  · rcases htx with rfl | rfl
    · exact h.lasts
    · nofun
  · rcases htx with rfl | rfl
    · exact h.reads e' he
    · exact Tx.running.inj he ▸ hmade
  · exact Option.some.inj (hpc'.symm.trans he) ▸ hmade
  · exact absurd (hpc'.symm.trans hnone) nofun

/-- The thread goes on before it has made an endpoint, or exits. -/
theorem pass (h : First c) {pc : Pc} (hmade : pc.made = none)
    (hpc : pc = .exited ∨ c.pc.made = none ∧ c.pc ≠ .exited ∧ pc ≠ .setDisconnected ∧
      pc ≠ .finalTest) : First { c with pc := pc } := by
  refine ⟨h.lasts, h.reads, fun e he => ?_, fun _ => ?_⟩
  · rw [show pc.made = some e from he] at hmade
    cases hmade
  · rcases hpc with rfl | ⟨hnone, hexited, hback⟩
    · exact Or.inl ⟨rfl, h.length_le⟩
    · exact Or.inr ⟨((h.before hnone).resolve_left fun hexit => hexited hexit.1).1, hback⟩

theorem move (h : First c) {pc : Pc} (honward : c.pc.Onward pc) : First { c with pc := pc } := by
  cases hpc : c.pc with
  | connect =>
    rw [hpc] at honward
    cases honward
    exact h.pass rfl (Or.inr (by simp [hpc, Pc.made]))
  | connecting =>
    rw [hpc] at honward
    generalize hfrom : Pc.connecting = from' at honward
    cases honward with
    | connecting ok => cases ok <;> exact h.pass rfl (Or.inr (by simp [hpc, Pc.made]))
    | _ => cases hfrom
  | setgid e | addEndpoint e | getserveraddr e =>
    rw [hpc] at honward
    cases honward
    exact h.go (by rw [hpc]; rfl) rfl (Or.inl rfl)
  | _ =>
    rw [hpc] at honward
    cases honward

theorem test (h : First c) {pc : Pc} (htest : c.pc.Test pc) (flag : Bool) :
    First { c with pc := if flag then .exited else pc } := by
  cases flag with
  | true => exact h.pass rfl (Or.inl rfl)
  | false =>
    rw [if_neg Bool.false_ne_true]
    cases hpc : c.pc with
    | failed | connected =>
      rw [hpc] at htest
      cases htest
      exact h.pass rfl (Or.inr (by simp [hpc, Pc.made]))
    | lastTest e =>
      rw [hpc] at htest
      cases htest
      exact h.go (by rw [hpc]; rfl) rfl (Or.inl rfl)
    | finalTest => exact absurd hpc h.not_back.2
    | _ =>
      rw [hpc] at htest
      cases htest

/-- `thread_rx` moves on, or the bridge tells its callers something else. -/
theorem aside (h : First c) (rx : Rx) (connected terminate : Bool) :
    First { c with rx := rx, connected := connected, terminate := terminate } :=
  ⟨h.lasts, h.reads, h.made, h.before⟩

/-- **Every step keeps it while `thread_tx` is not told to end**, and the bridge stays connected. -/
theorem step (h : First c) (hstep : c.Step told c') (huntold : ∀ e, c.tx = .running e → ¬told e) :
    First c' ∧ (c.connected = true → c'.connected = true) := by
  cases hstep with
  | stay => exact ⟨h, id⟩
  | move honward => exact ⟨h.move honward, id⟩
  | test htest => exact ⟨h.test htest c.terminate, id⟩
  | newEndpoint hpc hid =>
    have hnil : c.made = [] := ((h.before (by rw [hpc]; rfl)).resolve_left (by simp [hpc])).1
    refine ⟨⟨h.lasts, fun e he => ?_, fun e he => ?_, nofun⟩, id⟩
    · rw [h.reads e he] at hnil
      cases hnil
    · rw [hnil]
      exact Option.some.inj he ▸ rfl
  | @spawnRx e hpc => exact ⟨h.go (by rw [hpc]; rfl) rfl (Or.inl rfl), id⟩
  | @spawnTx e sid hpc => exact ⟨h.go (by rw [hpc]; rfl) rfl (Or.inr rfl), id⟩
  | @publish e hpc => exact ⟨h.go (by rw [hpc]; rfl) rfl (Or.inl rfl), id⟩
  | @joinRx e hpc hrx => exact ⟨h.go (by rw [hpc]; rfl) rfl (Or.inl rfl), id⟩
  | joinTx hpc hdone => exact absurd hdone h.lasts
  | setDisconnected hpc => exact absurd hpc h.not_back.1
  | rxGreet hrx => exact ⟨h.aside _ _ _, fun _ => rfl⟩
  | rxSetsid hrx | rxEnd hrx => exact ⟨h.aside _ _ _, id⟩
  | txEnd hrun htold => exact absurd htold (huntold _ hrun)
  | terminate => exact ⟨h.aside _ _ _, id⟩

end First

/-! ### The messages on the way -/

theorem isType_of_isRaw {m : Message} (hraw : m.isRaw = true) (ty : TypeId) :
    m.isType ty = false := by
  unfold Message.isRaw at hraw
  unfold Message.isType
  split at hraw
  · rename_i r hp
    rw [hp]
  · cases hraw

/-- The copy that a send puts on the net is of the type of the message. -/
theorem copied_isType (net : Net) (m : Message) (ty : TypeId) :
    (net.copied m).1.isType ty = m.isType ty := by
  rcases net.copied_payload m with ⟨hraw, hcopy, -⟩ | ⟨-, heq⟩
  · rw [isType_of_isRaw hraw, isType_of_isRaw hcopy]
  · rw [heq]

/-- What `recv` returns is of a type that a message in the queue is of. -/
theorem recv_isType {ep : Internal} {st : Store} {ty : TypeId} {msg : Message}
    (hq : ∀ m ∈ ep.messages, m.isType ty = false) (h : (ep.recv st).1 = .ok msg) :
    msg.isType ty = false := by
  have hrecv := Internal.recv_receives ep st
  generalize ep.recv st = r at hrecv h
  cases hrecv with
  | empty hall => cases h
  | @took pre rest m msg' st' hsplit hpre hm hret =>
    cases h
    cases hraw : m.isRaw with
    | true => exact isType_of_isRaw (hret.raw hraw).1 ty
    | false =>
      rw [hret.same hraw]
      exact hq m (hsplit ▸ List.mem_append_right _ List.mem_cons_self)

namespace Bridge

variable {terminateId : TypeId} {s s' : Bridge}

/-- A step that brings no `TerminateMessage`.  A `terminate` call that finds no endpoint is one: it only
sets the flag. -/
def Calm (terminateId : TypeId) (s : Bridge) : Act → Prop
  | .send m | .rxSendx m => m.isType terminateId = false
  | .terminateEnd _ => s.ep = none
  | _ => True

instance (terminateId : TypeId) (s : Bridge) : DecidablePred (s.Calm terminateId)
  | .send m | .rxSendx m => inferInstanceAs (Decidable (m.isType terminateId = false))
  | .terminateEnd _ => inferInstanceAs (Decidable (s.ep = none))
  | .thread _ _ | .rxGreet _ | .rxSetsid | .rxEnd | .tx | .terminateBegin => isTrue trivial
  | .user _ _ | .newEndpoint _ | .dropEndpoint _ | .getNeweid => isTrue trivial

/-- No `TerminateMessage` is in a queue of the connector. -/
def Untold (terminateId : TypeId) (s : Bridge) : Prop :=
  ∀ e ∈ s.made, ∀ m ∈ (s.net.eps e).messages, m.isType terminateId = false

theorem Untold.of_update (h : s.Untold terminateId) {e₀ : EpId} {ep : Internal}
    (hep : e₀ ∈ s.made → ∀ m ∈ ep.messages, m ∈ (s.net.eps e₀).messages) {e : EpId} (he : e ∈ s.made) :
    ∀ m ∈ (Function.update s.net.eps e₀ ep e).messages, m.isType terminateId = false := by
  by_cases heq : e = e₀
  · subst heq
    rw [Function.update_self]
    exact fun m hm => h e he m (hep he m hm)
  · rw [Function.update_of_ne heq]
    exact h e he

theorem Untold.thread (h : s.Untold terminateId) {ok : Bool} {id : EpId}
    (hstep : s.threadStep ok id = some s') : s'.Untold terminateId := by
  unfold threadStep at hstep
  cases hpc : s.pc with
  | newEndpoint =>
    simp only [hpc] at hstep
    split at hstep
    · cases hstep
    · obtain ⟨-, rfl⟩ := whenFree_eq_some hstep
      intro e he
      show ∀ m ∈ (Function.update s.net.eps id (Endpoint.new UNUSED_ID _) e).messages, _
      by_cases hnew : e = id
      · rw [hnew, Function.update_self]
        exact List.forall_mem_nil _
      · rw [Function.update_of_ne hnew]
        exact h e ((List.mem_append.mp he).resolve_right fun hid => hnew (List.mem_singleton.mp hid))
  | setgid e | addEndpoint e =>
    simp only [hpc] at hstep
    obtain ⟨-, rfl⟩ := whenFree_eq_some hstep
    intro e' he'
    refine h.of_update ?_ he'
    exact fun _ _ hm => hm
  | connecting | spawnRx e | spawnTx e sid =>
    simp only [hpc] at hstep
    cases hstep
    exact h
  | joinRx e | joinTx e =>
    simp only [hpc] at hstep
    split at hstep
    · cases hstep
      exact h
    · cases hstep
  | connect | failed | connected | setDisconnected | finalTest =>
    simp only [hpc] at hstep
    obtain ⟨-, rfl⟩ := whenFree_eq_some hstep
    exact h
  | lastTest e | getserveraddr e | publish e =>
    simp only [hpc] at hstep
    obtain ⟨-, rfl⟩ := whenFree_eq_some hstep
    exact h
  | exited =>
    simp only [hpc] at hstep
    cases hstep

/-- **A calm step puts no `TerminateMessage` into a queue of the connector.** -/
theorem Untold.step (h : s.Untold terminateId) {a : Act} (ha : s.Calm terminateId a)
    (hstep : s.step terminateId a = some s') : s'.Untold terminateId := by
  cases a with
  | thread ok id => exact h.thread hstep
  | rxGreet rsid =>
    simp only [Bridge.step] at hstep
    split at hstep
    · obtain ⟨-, rfl⟩ := whenFree_eq_some hstep
      exact h
    · cases hstep
  | rxSetsid =>
    simp only [Bridge.step] at hstep
    split at hstep
    · cases hstep
      intro e' he'
      refine h.of_update ?_ he'
      exact fun _ _ hm => hm
    · cases hstep
  | rxSendx m =>
    simp only [Bridge.step] at hstep
    split at hstep
    · obtain ⟨r, hr, rfl⟩ := Option.map_eq_some_iff.mp hstep
      exact fun e he => Net.send_forall hr ((copied_isType s.net m _).trans ha) (h e he)
    · cases hstep
  | rxEnd =>
    simp only [Bridge.step] at hstep
    split at hstep
    · cases hstep
      exact h
    · cases hstep
      exact h
    · cases hstep
  | tx =>
    obtain ⟨e, htx, hpass⟩ := txStep_cases hstep
    have hrest : ∀ e' ∈ s.made, ∀ m ∈ ((s.net.recvAt e).2.eps e').messages,
        m.isType terminateId = false :=
      fun e' he' => h.of_update (fun _ => (Internal.recv_recvs _ _).subset) he'
    rcases hpass with ⟨msg, -, -, rfl⟩ | ⟨-, out, rfl⟩ <;> exact hrest
  | terminateBegin =>
    obtain ⟨-, rfl⟩ := whenFree_eq_some hstep
    exact h
  | terminateEnd junk =>
    have hnone : s.ep = none := ha
    simp only [Bridge.step, Bridge.terminateEnd, hnone] at hstep
    split at hstep
    · cases hstep
      exact h
    · cases hstep
  | send m =>
    obtain ⟨r, hr, rfl⟩ := Option.map_eq_some_iff.mp hstep
    exact fun e he => Net.send_forall hr ((copied_isType s.net m _).trans ha) (h e he)
  | user e ep =>
    simp only [Bridge.step] at hstep
    split at hstep
    · cases hstep
    · rename_i hnot
      cases hstep
      exact fun e' he' => h.of_update (fun hmade => absurd hmade hnot) he'
  | newEndpoint e =>
    simp only [Bridge.step] at hstep
    split at hstep
    · cases hstep
    · rename_i hnot
      cases hstep
      exact fun e' he' => h.of_update (fun hmade => absurd hmade hnot) he'
  | dropEndpoint e | getNeweid =>
    cases hstep
    exact h

/-- `thread_tx` is not told to end while there is no `TerminateMessage`. -/
theorem Untold.not_told (h : s.Untold terminateId) {e : EpId} (he : e ∈ s.made) :
    ¬s.Told terminateId e := by
  rintro ⟨msg, hmsg, htype⟩
  have hnot := recv_isType (h e he) hmsg
  rw [htype] at hnot
  cases hnot

/-- **Every calm step keeps both**, and the bridge stays connected. -/
theorem calm_step {a : Act} (h : First s.control ∧ s.Untold terminateId) (ha : s.Calm terminateId a)
    (hstep : s.step terminateId a = some s') :
    (First s'.control ∧ s'.Untold terminateId) ∧ (s.connected = true → s'.connected = true) := by
  obtain ⟨hfirst, huntold⟩ := h
  obtain ⟨hfirst', hconnected⟩ := hfirst.step (step_control hstep) fun e he =>
    huntold.not_told (show e ∈ s.control.made by rw [hfirst.reads e he]; exact List.mem_cons_self)
  exact ⟨⟨hfirst', huntold.step ha hstep⟩, hconnected⟩

theorem calm_run {acts : List Act} (h : First s.control ∧ s.Untold terminateId)
    (hcalm : StepsMeet (step terminateId) (Calm terminateId) s acts)
    (hrun : run (step terminateId) s acts = some s') :
    (First s'.control ∧ s'.Untold terminateId) ∧ (s.connected = true → s'.connected = true) := by
  have hkeep : ∀ (u : Bridge) (a : Act) (u' : Bridge),
      (First u.control ∧ u.Untold terminateId) ∧ (s.connected = true → u.connected = true) →
      u.Calm terminateId a → u.step terminateId a = some u' →
      (First u'.control ∧ u'.Untold terminateId) ∧ (s.connected = true → u'.connected = true) := by
    intro u a u' hu ha hstep
    obtain ⟨hkept, hconnected⟩ := calm_step hu.1 ha hstep
    exact ⟨hkept, fun hc => hconnected (hu.2 hc)⟩
  exact run_invariant_of hkeep hcalm hrun ⟨h, id⟩

theorem init_first (h : Init s) : First s.control ∧ s.Untold terminateId := by
  have hpc : s.control.pc = .connect := h.pc
  have htx : s.control.tx = .absent := h.tx
  refine ⟨⟨by simp [htx], by simp [htx], by simp [hpc, Pc.made], fun _ => Or.inr ⟨h.made, ?_⟩⟩, ?_⟩
  · simp [hpc]
  · intro e he
    rw [h.made] at he
    cases he

/-- **A lost connection is not replaced unless somebody sends a `TerminateMessage`.**  In every run
without one, whatever the peer does, whatever is sent on the net and whoever calls `terminate` while no
endpoint is published, the connector makes no second endpoint; and once the bridge has said that it is
connected it goes on saying so. -/
theorem no_reconnect {acts acts' : List Act} {u : Bridge} (hinit : s.Init)
    (hcalm : StepsMeet (step terminateId) (Calm terminateId) s (acts ++ acts'))
    (hrun : run (step terminateId) s acts = some u)
    (hrun' : run (step terminateId) u acts' = some s') :
    s'.made.length ≤ 1 ∧ (u.connected = true → s'.connected = true) := by
  obtain ⟨hearly, hlate⟩ := hcalm.of_append hrun
  obtain ⟨hfirst, -⟩ := calm_run (init_first hinit) hearly hrun
  obtain ⟨hfirst', hconnected⟩ := calm_run hfirst hlate hrun'
  exact ⟨hfirst'.1.length_le, hconnected⟩

/-- A `terminate` call comes just before the endpoint is published, and the connector comes up. -/
def upScript : List Act :=
  connects ++ [.terminateBegin, .terminateEnd fun _ => 0, .thread true 0, .rxGreet 5, .rxSetsid]

/-- The peer closes the connection, and `thread_tx` waits until its `recvorblock` returns. -/
def lostScript : List Act := [.rxEnd, .thread true 0, .tx, .getNeweid]

theorem no_reconnect_lost : ∃ u s', run (step 9) fresh upScript = some u ∧
    run (step 9) u lostScript = some s' ∧ s'.rx = .done ∧ s'.made.length ≤ 1 ∧
      s'.connected = true := by
  have hcalm : StepsMeet (step 9) (Calm 9) fresh (upScript ++ lostScript) := by decide +kernel
  obtain ⟨u, hu, hup⟩ : ∃ u, run (step 9) fresh upScript = some u ∧ u.connected = true :=
    Option.map_eq_some_iff.mp (show (run (step 9) fresh upScript).map connected = some true by
      decide +kernel)
  obtain ⟨s', hboth, hrx⟩ := Option.map_eq_some_iff.mp
    (show (run (step 9) fresh (upScript ++ lostScript)).map rx = some .done by decide +kernel)
  obtain ⟨_, hfirst, hs'⟩ := run_append_eq_some.mp hboth
  obtain rfl := Option.some.inj (hu.symm.trans hfirst)
  obtain ⟨hmade, hconnected⟩ := no_reconnect fresh_init hcalm hu hs'
  exact ⟨u, s', hu, hs', hrx, hmade, hconnected hup⟩

end Bridge

end WaterNet.Tcp.Connector
