import WaterNet.Tcp.Connector

/-!
# One connection at a time (`tcp/connector.rs`)

`TcpBridgeConnector::thread` makes an endpoint for each connection, spawns `thread_rx` and `thread_tx`
for it, publishes it, joins the two and connects again.  `terminate` and `connected` may be called at
any moment of this.

* `Control`, `Control.Step`, `step_control` — what one step does to the three threads and to what the
  bridge tells its callers;
* `Serves`, `one_connection` — **the two threads serve the newest endpoint, and there are none between
  two connections**;
* `Bound`, `no_new_connection` — **once `terminate` has set the flag no further connection is set up**.
-/

namespace WaterNet.Tcp.Connector

open WaterNet.Lib.Machine (run run_append_eq_some run_invariant)

/-! ### What one step does -/

/-- The bridge without its net, its mutex and the bytes on the wire. -/
structure Control where
  pc : Pc
  rx : Rx
  tx : Tx
  ep : Option EpId
  connected : Bool
  terminate : Bool
  made : List EpId

def Bridge.control (s : Bridge) : Control :=
  ⟨s.pc, s.rx, s.tx, s.ep, s.connected, s.terminate, s.made⟩

namespace Pc

/-- Where the thread goes on after a statement that only moves it. -/
inductive Onward : Pc → Pc → Prop where
  | connect : Onward .connect .connecting
  | connecting (ok : Bool) : Onward .connecting (if ok then .connected else .failed)
  | setgid (e : EpId) : Onward (.setgid e) (.addEndpoint e)
  | addEndpoint (e : EpId) : Onward (.addEndpoint e) (.lastTest e)
  | getserveraddr (e : EpId) (sid : ID) : Onward (.getserveraddr e) (.spawnTx e sid)

/-- Where the thread goes on after a test of the flag that it passes. -/
inductive Test : Pc → Pc → Prop where
  | failed : Test .failed .connect
  | connected : Test .connected .newEndpoint
  | lastTest (e : EpId) : Test (.lastTest e) (.spawnRx e)
  | finalTest : Test .finalTest .connect

end Pc

/-- `told` are the endpoints whose `thread_tx` would receive a `TerminateMessage` now. -/
inductive Control.Step (told : EpId → Prop) (c : Control) : Control → Prop where
  | stay : Step told c c
  | move {pc : Pc} (h : c.pc.Onward pc) : Step told c { c with pc := pc }
  | test {pc : Pc} (h : c.pc.Test pc) : Step told c { c with pc := if c.terminate then .exited else pc }
  | newEndpoint {id : EpId} (hpc : c.pc = .newEndpoint) (hid : id ∉ c.made) :
      Step told c { c with made := c.made ++ [id], pc := .setgid id }
  | spawnRx {e : EpId} (hpc : c.pc = .spawnRx e) :
      Step told c { c with rx := .start e, pc := .getserveraddr e }
  | spawnTx {e : EpId} {sid : ID} (hpc : c.pc = .spawnTx e sid) :
      Step told c { c with tx := .running e, pc := .publish e }
  | publish {e : EpId} (hpc : c.pc = .publish e) : Step told c { c with ep := some e, pc := .joinRx e }
  | joinRx {e : EpId} (hpc : c.pc = .joinRx e) (hrx : c.rx = .done) :
      Step told c { c with pc := .joinTx e }
  | joinTx {e : EpId} (hpc : c.pc = .joinTx e) (htx : c.tx = .done) :
      Step told c { c with rx := .absent, tx := .absent, pc := .setDisconnected }
  | setDisconnected (hpc : c.pc = .setDisconnected) :
      Step told c { c with connected := false, pc := .finalTest }
  | rxGreet {e : EpId} {rsid : ID} (hrx : c.rx = .start e) :
      Step told c { c with connected := true, rx := .greeted e rsid }
  | rxSetsid {e : EpId} {rsid : ID} (hrx : c.rx = .greeted e rsid) : Step told c { c with rx := .looping e }
  | rxEnd {e : EpId} (hrx : c.rx = .start e ∨ c.rx = .looping e) : Step told c { c with rx := .done }
  | txEnd {e : EpId} (htx : c.tx = .running e) (htold : told e) : Step told c { c with tx := .done }
  | terminate : Step told c { c with terminate := true }

namespace Bridge

/-- A `recv` at the endpoint would return a `TerminateMessage`. -/
def Told (terminateId : TypeId) (s : Bridge) (e : EpId) : Prop :=
  ∃ msg, (s.net.recvAt e).1 = .ok msg ∧ msg.isType terminateId = true

variable {terminateId : TypeId} {s s' : Bridge} {told : EpId → Prop}

theorem threadStep_control {ok : Bool} {id : EpId} (h : s.threadStep ok id = some s') :
    s.control.Step told s'.control := by
  unfold threadStep at h
  cases hpc : s.pc with
  | connect =>
    simp only [hpc] at h
    obtain ⟨-, rfl⟩ := whenFree_eq_some h
    exact .move (show s.pc.Onward _ by rw [hpc]; exact .connect)
  | connecting =>
    simp only [hpc] at h
    cases h
    exact .move (show s.pc.Onward _ by rw [hpc]; exact .connecting ok)
  | failed =>
    simp only [hpc] at h
    obtain ⟨-, rfl⟩ := whenFree_eq_some h
    exact .test (show s.pc.Test _ by rw [hpc]; exact .failed)
  | connected =>
    simp only [hpc] at h
    obtain ⟨-, rfl⟩ := whenFree_eq_some h
    exact .test (show s.pc.Test _ by rw [hpc]; exact .connected)
  | newEndpoint =>
    simp only [hpc] at h
    split at h
    · cases h
    · rename_i hid
      obtain ⟨-, rfl⟩ := whenFree_eq_some h
      exact .newEndpoint hpc fun hmem => hid (Or.inl hmem)
  | setgid e =>
    simp only [hpc] at h
    obtain ⟨-, rfl⟩ := whenFree_eq_some h
    exact .move (show s.pc.Onward _ by rw [hpc]; exact .setgid e)
  | addEndpoint e =>
    simp only [hpc] at h
    obtain ⟨-, rfl⟩ := whenFree_eq_some h
    exact .move (show s.pc.Onward _ by rw [hpc]; exact .addEndpoint e)
  | lastTest e =>
    simp only [hpc] at h
    obtain ⟨-, rfl⟩ := whenFree_eq_some h
    exact .test (show s.pc.Test _ by rw [hpc]; exact .lastTest e)
  | spawnRx e =>
    simp only [hpc] at h
    cases h
    exact .spawnRx hpc
  | getserveraddr e =>
    simp only [hpc] at h
    obtain ⟨-, rfl⟩ := whenFree_eq_some h
    exact .move (show s.pc.Onward _ by rw [hpc]; exact .getserveraddr e s.net.sid)
  | spawnTx e sid =>
    simp only [hpc] at h
    cases h
    exact .spawnTx hpc
  | publish e =>
    simp only [hpc] at h
    obtain ⟨-, rfl⟩ := whenFree_eq_some h
    exact .publish hpc
  | joinRx e =>
    simp only [hpc] at h
    split at h
    · rename_i hrx
      cases h
      exact .joinRx hpc hrx
    · cases h
  | joinTx e =>
    simp only [hpc] at h
    split at h
    · rename_i htx
      cases h
      exact .joinTx hpc htx
    · cases h
  | setDisconnected =>
    simp only [hpc] at h
    obtain ⟨-, rfl⟩ := whenFree_eq_some h
    exact .setDisconnected hpc
  | finalTest =>
    simp only [hpc] at h
    obtain ⟨-, rfl⟩ := whenFree_eq_some h
    exact .test (show s.pc.Test _ by rw [hpc]; exact .finalTest)
  | exited =>
    simp only [hpc] at h
    cases h

/-- **What a step does**: to the net it does what it likes. -/
theorem step_control {a : Act} (h : s.step terminateId a = some s') :
    s.control.Step (s.Told terminateId) s'.control := by
  cases a with
  | thread ok id => exact threadStep_control h
  | rxGreet rsid =>
    simp only [Bridge.step] at h
    split at h
    · rename_i hrx
      obtain ⟨-, rfl⟩ := whenFree_eq_some h
      exact .rxGreet hrx
    · cases h
  | rxSetsid =>
    simp only [Bridge.step] at h
    split at h
    · rename_i hrx
      cases h
      exact .rxSetsid hrx
    · cases h
  | rxSendx m =>
    simp only [Bridge.step] at h
    split at h
    · obtain ⟨r, hr, rfl⟩ := Option.map_eq_some_iff.mp h
      exact .stay
    · cases h
  | rxEnd =>
    simp only [Bridge.step] at h
    split at h
    · rename_i hrx
      cases h
      exact .rxEnd (Or.inl hrx)
    · rename_i hrx
      cases h
      exact .rxEnd (Or.inr hrx)
    · cases h
  | tx =>
    obtain ⟨e, htx, ⟨msg, hmsg, htype, rfl⟩ | ⟨-, out, rfl⟩⟩ := txStep_cases h
    · exact .txEnd htx ⟨msg, hmsg, htype⟩
    · exact .stay
  | terminateBegin =>
    obtain ⟨-, rfl⟩ := whenFree_eq_some h
    exact .terminate
  | terminateEnd junk =>
    obtain ⟨-, net, -, rfl⟩ := terminateEnd_gives h
    exact .stay
  | send m =>
    obtain ⟨r, hr, rfl⟩ := Option.map_eq_some_iff.mp h
    exact .stay
  | user e ep =>
    simp only [Bridge.step] at h
    split at h
    · cases h
    · cases h
      exact .stay
  | newEndpoint e =>
    simp only [Bridge.step] at h
    split at h
    · cases h
    · cases h
      exact .stay
  | dropEndpoint e | getNeweid =>
    cases h
    exact .stay

end Bridge

/-! ### One connection -/

namespace Pc

/-- The connection whose `thread_rx` was spawned and is not joined. -/
def receives : Pc → Option EpId
  | .getserveraddr e | .spawnTx e _ | .publish e | .joinRx e | .joinTx e => some e
  | _ => none

/-- The connection whose `thread_tx` was spawned and is not joined. -/
def sends : Pc → Option EpId
  | .publish e | .joinRx e | .joinTx e => some e
  | _ => none

/-- The connection whose end the thread waits for. -/
def waits : Pc → Option EpId
  | .joinRx e | .joinTx e => some e
  | _ => none

end Pc

/-- The endpoint of a running `thread_rx`. -/
def Rx.serves : Rx → Option EpId
  | .start e | .greeted e _ | .looping e => some e
  | .absent | .done => none

/-- The threads of the connection are there while the connector thread has spawned and not joined them,
and serve the endpoint that it works on. -/
structure Serves (c : Control) : Prop where
  rx : ∀ e, c.rx.serves = some e → c.pc.receives = some e
  absentRx : c.rx = .absent ↔ c.pc.receives = none
  tx : ∀ e, c.tx = .running e → c.pc.sends = some e
  absentTx : c.tx = .absent ↔ c.pc.sends = none
  joined : ∀ e, c.pc = .joinTx e → c.rx = .done
  connected : c.connected = true → c.rx ≠ .absent ∨ c.pc = .setDisconnected
  newest : ∀ e, c.pc.made = some e → c.made.getLast? = some e
  published : ∀ e, c.pc.waits = some e → c.ep = some e

/-- The thread moves, and its connection stays as it is. -/
structure Pc.Alike (pc pc' : Pc) : Prop where
  receives : pc'.receives = pc.receives
  sends : pc'.sends = pc.sends
  made : ∀ e, pc'.made = some e → pc.made = some e
  waits : pc'.waits = none
  disconnected : pc ≠ .setDisconnected

theorem Pc.Onward.alike {pc pc' : Pc} (h : pc.Onward pc') : pc.Alike pc' := by
  cases h with
  | connecting ok => cases ok <;> exact ⟨rfl, rfl, fun _ he => he, rfl, nofun⟩
  | _ => exact ⟨rfl, rfl, fun _ he => he, rfl, nofun⟩

theorem Pc.Test.alike {pc pc' : Pc} (h : pc.Test pc') (flag : Bool) :
    pc.Alike (if flag then .exited else pc') := by
  cases h <;> cases flag <;> exact ⟨rfl, rfl, by simp [Pc.made], rfl, nofun⟩

theorem Pc.waits_joinTx {pc : Pc} {e : EpId} (h : pc = .joinTx e) : pc.waits = some e := by
  rw [h]
  rfl

namespace Serves

variable {c c' : Control} {told : EpId → Prop}

theorem move (h : Serves c) {pc : Pc} (halike : c.pc.Alike pc) : Serves { c with pc := pc } where
  rx e he := halike.receives.trans (h.rx e he)
  absentRx := by
    show c.rx = .absent ↔ pc.receives = none
    rw [halike.receives]
    exact h.absentRx
  tx e he := halike.sends.trans (h.tx e he)
  absentTx := by
    show c.tx = .absent ↔ pc.sends = none
    rw [halike.sends]
    exact h.absentTx
  joined e he := by
    have hwaits := Pc.waits_joinTx he
    rw [show pc.waits = none from halike.waits] at hwaits
    cases hwaits
  connected hc := Or.inl ((h.connected hc).resolve_right halike.disconnected)
  newest e he := h.newest e (halike.made e he)
  published e he := by
    rw [show pc.waits = none from halike.waits] at he
    cases he

/-- `thread_rx` moves on. -/
theorem setRx (h : Serves c) {rx : Rx} {connected : Bool} (hpresent : c.rx ≠ .absent)
    (hdone : c.rx ≠ .done) (hrx : rx ≠ .absent) (hserves : rx.serves = c.rx.serves ∨ rx.serves = none) :
    Serves { c with rx := rx, connected := connected } where
  rx e he := by
    rcases hserves with heq | hnone
    · exact h.rx e (heq ▸ he)
    · rw [show rx.serves = some e from he] at hnone
      cases hnone
  absentRx := iff_of_false hrx fun hnone => hpresent (h.absentRx.mpr hnone)
  tx := h.tx
  absentTx := h.absentTx
  joined e he := absurd (h.joined e he) hdone
  connected _ := Or.inl hrx
  newest := h.newest
  published := h.published

/-- **Every step keeps it.** -/
theorem step (h : Serves c) (hstep : c.Step told c') : Serves c' := by
  cases hstep with
  | stay => exact h
  | move honward => exact h.move honward.alike
  | test htest => exact h.move (htest.alike c.terminate)
  | newEndpoint hpc hid =>
    have hrx : c.rx = .absent := h.absentRx.mpr (by rw [hpc]; rfl)
    have htx : c.tx = .absent := h.absentTx.mpr (by rw [hpc]; rfl)
    exact ⟨by simp [hrx, Rx.serves], iff_of_true hrx rfl, by simp [htx], iff_of_true htx rfl, nofun,
      fun hc => Or.inl ((h.connected hc).resolve_right (by simp [hpc])),
      fun e he => Option.some.inj he ▸ List.getLast?_concat, nofun⟩
  | @spawnRx e hpc =>
    have htx : c.tx = .absent := h.absentTx.mpr (by rw [hpc]; rfl)
    exact ⟨fun e he => he, iff_of_false nofun nofun, by simp [htx], iff_of_true htx rfl, nofun,
      fun _ => Or.inl nofun, fun e' he => h.newest e' (hpc ▸ he), nofun⟩
  | @spawnTx e sid hpc =>
    have hserves : ∀ e', c.rx.serves = some e' → some e = some e' := fun e' he => by
      have hrec := h.rx e' he
      rw [hpc] at hrec
      exact hrec
    have hrx : c.rx ≠ .absent := fun hrx => by
      have hrec := h.absentRx.mp hrx
      rw [hpc] at hrec
      cases hrec
    exact ⟨hserves, iff_of_false hrx nofun, by simp [Pc.sends], iff_of_false nofun nofun, nofun,
      fun _ => Or.inl hrx, fun e' he => h.newest e' (hpc ▸ he), nofun⟩
  | @publish e hpc =>
    obtain ⟨rx, absentRx, tx, absentTx, -, connected, newest, -⟩ := h
    rw [hpc] at rx absentRx tx absentTx connected newest
    exact ⟨rx, absentRx, tx, absentTx, nofun, fun hc => Or.inl ((connected hc).resolve_right nofun),
      newest, fun e' he => he⟩
  | @joinRx e hpc hrx =>
    obtain ⟨rx, absentRx, tx, absentTx, -, connected, newest, published⟩ := h
    rw [hpc] at rx absentRx tx absentTx connected newest published
    exact ⟨rx, absentRx, tx, absentTx, fun _ _ => hrx,
      fun hc => Or.inl ((connected hc).resolve_right nofun), newest, published⟩
  | joinTx hpc htx =>
    exact ⟨nofun, iff_of_true rfl rfl, nofun, iff_of_true rfl rfl, nofun, fun _ => Or.inr rfl, nofun,
      nofun⟩
  | setDisconnected hpc =>
    obtain ⟨rx, absentRx, tx, absentTx, -, -, -, -⟩ := h
    rw [hpc] at rx absentRx tx absentTx
    exact ⟨rx, absentRx, tx, absentTx, nofun, nofun, nofun, nofun⟩
  | rxGreet hrx => exact h.setRx (by simp [hrx]) (by simp [hrx]) nofun (Or.inl (by rw [hrx]; rfl))
  | rxSetsid hrx => exact h.setRx (by simp [hrx]) (by simp [hrx]) nofun (Or.inl (by rw [hrx]; rfl))
  | rxEnd hrx =>
    rcases hrx with hrx | hrx <;>
      exact h.setRx (by simp [hrx]) (by simp [hrx]) nofun (Or.inr rfl)
  | txEnd htx htold =>
    have hpresent : c.tx ≠ .absent := by simp [htx]
    exact ⟨h.rx, h.absentRx, nofun, iff_of_false nofun fun hnone => hpresent (h.absentTx.mpr hnone),
      h.joined, h.connected, h.newest, h.published⟩
  | terminate =>
    exact ⟨h.rx, h.absentRx, h.tx, h.absentTx, h.joined, h.connected, h.newest, h.published⟩

end Serves

namespace Bridge

variable {terminateId : TypeId} {s s' : Bridge}

/-- What `thread_rx`, `thread_tx` and the callers of the bridge find. -/
structure OneConnection (s : Bridge) : Prop where
  /-- the threads that run serve the endpoint made last -/
  rx : ∀ e, s.rx.serves = some e → s.made.getLast? = some e
  tx : ∀ e, s.tx = .running e → s.made.getLast? = some e
  /-- while the connector thread waits for them, `terminate` reaches that endpoint -/
  published : ∀ e, s.pc.waits = some e → s.ep = some e ∧ s.made.getLast? = some e
  /-- `connected` is true only if a `thread_rx` is there, or was joined just before -/
  connected : s.connected = true → s.rx ≠ .absent ∨ s.pc = .setDisconnected
  /-- the thread exits alone -/
  exited : s.pc = .exited → s.rx = .absent ∧ s.tx = .absent ∧ s.connected = false

theorem init_serves (h : Init s) (hrx : s.rx = .absent) (hconnected : s.connected = false) :
    Serves s.control := by
  have hpc : s.control.pc = .connect := h.pc
  have hfalse : s.control.connected = false := hconnected
  refine ⟨fun e he => ?_, iff_of_true hrx (by rw [hpc]; rfl), fun e he => ?_,
    iff_of_true h.tx (by rw [hpc]; rfl), by simp [hpc], by simp [hfalse], by simp [hpc, Pc.made],
    by simp [hpc, Pc.waits]⟩
  · rw [show s.control.rx = .absent from hrx] at he
    cases he
  · rw [show s.control.tx = .absent from h.tx] at he
    cases he

theorem made_of_receives {pc : Pc} {e : EpId} (h : pc.receives = some e) : pc.made = some e := by
  cases pc <;> first | exact h | cases h

theorem receives_of_sends {pc : Pc} {e : EpId} (h : pc.sends = some e) : pc.receives = some e := by
  cases pc <;> first | exact h | cases h

theorem sends_of_waits {pc : Pc} {e : EpId} (h : pc.waits = some e) : pc.sends = some e := by
  cases pc <;> first | exact h | cases h

theorem oneConnection_of_serves (h : Serves s.control) : s.OneConnection where
  rx e he := h.newest e (made_of_receives (h.rx e he))
  tx e he := h.newest e (made_of_receives (receives_of_sends (h.tx e he)))
  published e he :=
    ⟨h.published e he, h.newest e (made_of_receives (receives_of_sends (sends_of_waits he)))⟩
  connected := h.connected
  exited hpc := by
    have hrx : s.rx = .absent := h.absentRx.mpr (by
      show s.pc.receives = none
      rw [hpc]
      rfl)
    have htx : s.tx = .absent := h.absentTx.mpr (by
      show s.pc.sends = none
      rw [hpc]
      rfl)
    refine ⟨hrx, htx, Bool.eq_false_iff.mpr fun hc => ?_⟩
    rcases h.connected hc with hpresent | hback
    · exact hpresent hrx
    · exact absurd (hpc.symm.trans hback) nofun

/-- **One connection at a time.**  In every interleaving of the connector thread, of the threads it
spawns, of calls of `terminate` and of everybody else on the net, for as many connections as there are:
the threads that run serve the endpoint that was made last, the endpoint that `terminate` would reach
is theirs while the connector waits for them, `connected` tells of no connection that is gone, and when
the connector thread exits nothing of it is left. -/
theorem one_connection {acts : List Act} (hinit : s.Init) (hrx : s.rx = .absent)
    (hconnected : s.connected = false) (hrun : run (step terminateId) s acts = some s') :
    s'.OneConnection := by
  have hkeep : ∀ (u : Bridge) (a : Act) (u' : Bridge), Serves u.control →
      u.step terminateId a = some u' → Serves u'.control :=
    fun _ _ _ hu hstep => hu.step (step_control hstep)
  exact oneConnection_of_serves (run_invariant hkeep hrun (init_serves hinit hrx hconnected))

/-- The bridge is told to terminate during its first connection; before that the peer has closed it. -/
def closedScript : List Act :=
  connects ++ [.thread true 0, .rxGreet 5, .rxSetsid, .rxEnd, .thread true 0, .terminateBegin,
    .terminateEnd fun _ => 0, .tx, .thread true 0, .thread true 0]

theorem one_connection_closed : ∃ s', run (step 9) fresh closedScript = some s' ∧
    s'.pc = .finalTest ∧ s'.OneConnection := by
  obtain ⟨s', hs', hpc⟩ : ∃ s', run (step 9) fresh closedScript = some s' ∧ s'.pc = .finalTest :=
    Option.map_eq_some_iff.mp (show (run (step 9) fresh closedScript).map pc = some .finalTest by
      decide +kernel)
  exact ⟨s', hs', hpc, one_connection fresh_init rfl rfl hs'⟩

/-! ### After `terminate` -/

end Bridge

/-- The connection that the thread is past the last test for, and whose `thread_tx` is not spawned. -/
def Pc.upcoming : Pc → Option EpId
  | .spawnRx e | .getserveraddr e | .spawnTx e _ => some e
  | _ => none

/-- How many endpoints the thread will still make with the flag set. -/
def Pc.room (pc : Pc) : ℕ := if pc = .newEndpoint then 1 else 0

theorem Pc.Onward.room {pc pc' : Pc} (h : pc.Onward pc') : pc'.room = 0 := by
  cases h with
  | connecting ok => cases ok <;> rfl
  | _ => rfl

theorem Pc.Onward.upcoming {pc pc' : Pc} (h : pc.Onward pc') (e : EpId)
    (he : pc'.upcoming = some e) : pc.upcoming = some e := by
  cases h with
  | connecting ok => cases ok <;> cases he
  | getserveraddr e' sid => exact he
  | _ => cases he

/-- What a bridge whose flag is set can still come to. -/
structure Bound (c c' : Control) : Prop where
  flag : c'.terminate = true
  made : c'.made.length + c'.pc.room ≤ c.made.length + c.pc.room
  kept : c.made <+: c'.made
  tx : ∀ e, c'.tx = .running e ∨ c'.pc.upcoming = some e →
    c.tx = .running e ∨ c.pc.upcoming = some e

namespace Bound

variable {c c' c'' : Control} {told : EpId → Prop}

theorem refl (h : c.terminate = true) : Bound c c := ⟨h, le_refl _, List.prefix_rfl, fun _ he => he⟩

theorem trans (h : Bound c c') (h' : Bound c' c'') : Bound c c'' :=
  ⟨h'.flag, h'.made.trans h.made, h.kept.trans h'.kept, fun e he => h.tx e (h'.tx e he)⟩

/-- **Every step of a bridge whose flag is set.** -/
theorem step (h : c.terminate = true) (hstep : c.Step told c') : Bound c c' := by
  have hsame : c.made.length ≤ c.made.length + c.pc.room := Nat.le_add_right _ _
  cases hstep with
  | stay => exact .refl h
  | @move pc honward =>
    have hroom : pc.room ≤ c.pc.room := honward.room ▸ Nat.zero_le _
    exact ⟨h, Nat.add_le_add_left hroom _, List.prefix_rfl, fun e he =>
      he.imp_right (honward.upcoming e)⟩
  | test htest =>
    -- the test ends the thread
    rw [h, if_pos rfl]
    exact ⟨rfl, hsame, List.prefix_rfl, fun e he => he.imp_right nofun⟩
  | newEndpoint hpc hid =>
    refine ⟨h, ?_, List.prefix_append _ _, fun e he => he.imp_right nofun⟩
    rw [hpc, List.length_append]
    exact le_refl _
  | spawnRx hpc =>
    exact ⟨h, hsame, List.prefix_rfl, fun e he => he.imp_right fun he => hpc ▸ he⟩
  | spawnTx hpc =>
    refine ⟨h, hsame, List.prefix_rfl, fun e he => Or.inr ?_⟩
    rcases he with he | he
    · obtain rfl := Tx.running.inj he
      rw [hpc]
      rfl
    · cases he
  | publish hpc | joinRx hpc | setDisconnected hpc =>
    exact ⟨h, hsame, List.prefix_rfl, fun e he => he.imp_right nofun⟩
  | joinTx hpc htx => exact ⟨h, hsame, List.prefix_rfl, fun e he => Or.inl (he.elim nofun nofun)⟩
  | rxGreet hrx | rxSetsid hrx | rxEnd hrx =>
    exact ⟨h, le_refl _, List.prefix_rfl, fun _ he => he⟩
  | txEnd htx htold => exact ⟨h, le_refl _, List.prefix_rfl, fun e he => he.imp_left nofun⟩
  | terminate => exact ⟨rfl, le_refl _, List.prefix_rfl, fun _ he => he⟩

end Bound

namespace Bridge

variable {terminateId : TypeId} {s s' : Bridge}

/-- **After `terminate` has set the flag no further connection is set up.**  From any state in which the
flag is set, however long the bridge runs on: at most one more endpoint is made, and none unless the
thread was just making it; and `thread_tx` runs only for the connection it ran for, or for one that was
past the last test. -/
theorem no_new_connection {acts : List Act} (hflag : s.terminate = true)
    (hrun : run (step terminateId) s acts = some s') :
    s'.terminate = true ∧ s'.made.length ≤ s.made.length + 1 ∧
      (s.pc ≠ .newEndpoint → s'.made = s.made) ∧
      ∀ e, s'.tx = .running e → s.tx = .running e ∨ s.pc.upcoming = some e := by
  have hkeep : ∀ (u : Bridge) (a : Act) (u' : Bridge), Bound s.control u.control →
      u.step terminateId a = some u' → Bound s.control u'.control :=
    fun _ _ _ hu hstep => hu.trans (.step hu.flag (step_control hstep))
  have hbound := run_invariant hkeep hrun (.refl hflag)
  have hmade : s'.made.length + s'.pc.room ≤ s.made.length + s.pc.room := hbound.made
  have hroom : s.pc.room ≤ 1 := by
    unfold Pc.room
    split <;> omega
  refine ⟨hbound.flag, by omega, fun hpc => ?_, fun e he => hbound.tx e (Or.inl he)⟩
  rw [show s.pc.room = 0 from if_neg hpc] at hmade
  exact (hbound.kept.eq_of_length_le (by show s'.made.length ≤ s.made.length; omega)).symm

/-- The flag is set when the thread is past its first test. -/
def lateScript : List Act :=
  List.replicate 3 (Act.thread true 0) ++ [.terminateBegin, .terminateEnd fun _ => 0]

theorem no_new_connection_late : ∃ s s', run (step 9) fresh lateScript = some s ∧
    run (step 9) s (List.replicate 4 (Act.thread true 0)) = some s' ∧ s'.pc = .exited ∧
      s'.made.length ≤ s.made.length + 1 ∧ s'.made = [0] := by
  obtain ⟨s, hs, hflag⟩ : ∃ s, run (step 9) fresh lateScript = some s ∧ s.terminate = true :=
    Option.map_eq_some_iff.mp (show (run (step 9) fresh lateScript).map terminate = some true by
      decide +kernel)
  obtain ⟨s', hboth, hend⟩ := Option.map_eq_some_iff.mp
    (show (run (step 9) fresh (lateScript ++ List.replicate 4 (Act.thread true 0))).map
      (fun s => (s.pc, s.made)) = some (.exited, [0]) by decide +kernel)
  obtain ⟨_, hfirst, hs'⟩ := run_append_eq_some.mp hboth
  obtain rfl := Option.some.inj (hs.symm.trans hfirst)
  rw [Prod.mk.injEq] at hend
  exact ⟨s, s', hs, hs', hend.1, (no_new_connection hflag hs').2.1, hend.2⟩

end Bridge

end WaterNet.Tcp.Connector
