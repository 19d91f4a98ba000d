import Mathlib.Data.List.Nodup
import WaterNet.Lib.Pool
import WaterNet.Tcp.Connector

/-!
# The listener and its counts (`tcp/listener.rs`)

`thread_accept` binds, publishes its acceptor, tests the flag once and then accepts for ever; for each
stream it makes an endpoint and spawns `thread_rx` and `thread_tx` while it holds the mutex of the
bridge, and counts the client afterwards.  `terminate` sets the flag, looks for the acceptor and closes
it, each with a lock of its own.  One action is one such statement of one thread, a `thread_rx` that
reads the sid of its peer, or anything that somebody else does to the net.

* `step` — the machine; `Trans`, `step_trans` — **inversion**: what one step can do;
* `Heeded` — where a `terminate` call that has returned leaves the accepting thread;
* `Counts` — what the two counts count;
* `terminated_accepts_none` — **nothing is accepted after `terminate` has returned**;
* `negcount_le` — **`negcount` exceeds `clientcount` by one at most**, and only before a client is
  counted.

A closed acceptor answers every `accept` with an error.  `accepted` and `made` are history variables:
how many streams were accepted, and the endpoints that were made for them.
-/

namespace WaterNet.Tcp.Listener

open WaterNet.Lib.Machine (run run_invariant run_append_eq_some)
open WaterNet.Lib.Pool (total total_set total_append)

/-- Where `thread_accept` is; `ep` is the endpoint of the client it is at work on. -/
inductive Pc where
  | bind
  | setacceptor
  | test
  | accept
  /-- a stream was accepted, the mutex is to be taken -/
  | lock
  | newEndpoint
  | setgid (ep : EpId)
  | addEndpoint (ep : EpId)
  | spawnRx (ep : EpId)
  /-- `getserveraddr`, and the end of the block that has the mutex -/
  | spawnTx (ep : EpId)
  | clientcountinc
  | returned
  /-- `listen().unwrap()` -/
  | panicked
  deriving DecidableEq, Repr

/-- A `terminate` call. -/
inductive Call where
  | setFlag
  /-- at `acceptor.is_some()` -/
  | look
  | close
  | returned
  deriving DecidableEq, Repr

/-- A `thread_rx` of this listener. -/
inductive Rx where
  | start (ep : EpId)
  /-- past `negcountinc`, with the sid it read -/
  | negotiated (ep : EpId) (rsid : ID)
  | looping (ep : EpId)
  /-- the stream ended before it had the sid -/
  | panicked (ep : EpId)
  deriving DecidableEq, Repr

/-- The bridge, the acceptor and the threads. -/
structure Bridge where
  net : Net
  terminate : Bool
  clientcount : UInt64
  negcount : UInt64
  /-- `acceptor.is_some()` -/
  acceptor : Bool
  closed : Bool
  /-- `thread_accept` holds the mutex between two statements -/
  locked : Bool
  pc : Pc
  rxs : List Rx
  /-- the endpoints that a `thread_tx` runs on -/
  txs : List EpId
  calls : List Call
  accepted : ℕ
  made : List EpId

inductive Act where
  /-- a statement of `thread_accept`: a bind or an accept succeeds if `ok`, and `id` is the identity of
  an endpoint that is allocated -/
  | thread (ok : Bool) (id : EpId)
  /-- a `terminate` call begins -/
  | terminate
  /-- a statement of the `terminate` call number `n` -/
  | call (n : ℕ)
  /-- `thread_rx` number `n` reads the sid of its peer and calls `negcountinc` -/
  | rxGreet (n : ℕ) (rsid : ID)
  | rxSetsid (n : ℕ)
  | rxPanic (n : ℕ)
  /-- anything else on the net, by anybody -/
  | others (net : Net)

namespace Bridge

/-- A statement that needs the mutex for its own time only. -/
def whenFree (s s' : Bridge) : Option Bridge := if s.locked then none else some s'

/-- One statement of `TcpBridgeListener::thread_accept`. -/
def threadStep (s : Bridge) (ok : Bool) (id : EpId) : Option Bridge :=
  match s.pc with
  | .bind => s.whenFree { s with pc := if ok then .setacceptor else .panicked }
  | .setacceptor => s.whenFree { s with acceptor := true, pc := .test }
  | .test => s.whenFree { s with pc := if s.terminate then .returned else .accept }
  | .accept =>
    if ok then
      if s.closed then none else some { s with accepted := s.accepted + 1, pc := .lock }
    else some s
  | .lock => s.whenFree { s with locked := true, pc := .newEndpoint }
  | .newEndpoint =>
    if id ∈ s.made ∨ id ∈ s.net.endpoints then none
    else
      let (eid, net) := s.net.getNeweid
      some { s with
        net := { net with eps := Function.update net.eps id (Endpoint.new UNUSED_ID eid) }
        made := s.made ++ [id]
        pc := .setgid id }
  | .setgid e =>
    let (gid, net) := s.net.getNeweid
    some { s with net := Connector.setgid net e gid, pc := .addEndpoint e }
  | .addEndpoint e => some { s with net := s.net.addEndpoint e (s.net.eps e), pc := .spawnRx e }
  | .spawnRx e => some { s with rxs := s.rxs ++ [.start e], pc := .spawnTx e }
  | .spawnTx e => some { s with txs := s.txs ++ [e], locked := false, pc := .clientcountinc }
  | .clientcountinc => s.whenFree { s with clientcount := s.clientcount + 1, pc := .accept }
  | .returned | .panicked => none

/-- One statement of `TcpBridgeListener::terminate`. -/
def callStep (s : Bridge) (n : ℕ) : Option Bridge :=
  match s.calls[n]? with
  | some .setFlag => s.whenFree { s with terminate := true, calls := s.calls.set n .look }
  | some .look =>
    s.whenFree { s with calls := s.calls.set n (if s.acceptor then .close else .returned) }
  | some .close => s.whenFree { s with closed := true, calls := s.calls.set n .returned }
  | _ => none

def step (s : Bridge) : Act → Option Bridge
  | .thread ok id => s.threadStep ok id
  | .terminate => some { s with calls := s.calls ++ [.setFlag] }
  | .call n => s.callStep n
  | .rxGreet n rsid =>
    match s.rxs[n]? with
    | some (.start e) =>
      s.whenFree { s with negcount := s.negcount + 1, rxs := s.rxs.set n (.negotiated e rsid) }
    | _ => none
  | .rxSetsid n =>
    match s.rxs[n]? with
    | some (.negotiated e rsid) => some { s with net := s.net.setsid e rsid, rxs := s.rxs.set n (.looping e) }
    | _ => none
  | .rxPanic n =>
    match s.rxs[n]? with
    | some (.start e) => some { s with rxs := s.rxs.set n (.panicked e) }
    | _ => none
  | .others net => some { s with net := net }

/-- A listener as `TcpBridgeListener::new` makes it, on any net. -/
def init (net : Net) : Bridge where
  net := net
  terminate := false
  clientcount := 0
  negcount := 0
  acceptor := false
  closed := false
  locked := false
  pc := .bind
  rxs := []
  txs := []
  calls := []
  accepted := 0
  made := []

/-! ### Inversion -/

/-- **What one step can do.** -/
inductive Trans (s : Bridge) : Bridge → Prop where
  | bind {ok : Bool} (hpc : s.pc = .bind) :
      Trans s { s with pc := if ok then .setacceptor else .panicked }
  | setacceptor (hpc : s.pc = .setacceptor) : Trans s { s with acceptor := true, pc := .test }
  | test (hpc : s.pc = .test) : Trans s { s with pc := if s.terminate then .returned else .accept }
  | accept (hpc : s.pc = .accept) (hopen : s.closed = false) :
      Trans s { s with accepted := s.accepted + 1, pc := .lock }
  | refused (hpc : s.pc = .accept) : Trans s s
  | lock (hpc : s.pc = .lock) : Trans s { s with locked := true, pc := .newEndpoint }
  | newEndpoint {id : EpId} {net : Net} (hpc : s.pc = .newEndpoint) (hid : id ∉ s.made) :
      Trans s { s with net := net, made := s.made ++ [id], pc := .setgid id }
  | setgid {e : EpId} {net : Net} (hpc : s.pc = .setgid e) :
      Trans s { s with net := net, pc := .addEndpoint e }
  | addEndpoint {e : EpId} {net : Net} (hpc : s.pc = .addEndpoint e) :
      Trans s { s with net := net, pc := .spawnRx e }
  | spawnRx {e : EpId} (hpc : s.pc = .spawnRx e) :
      Trans s { s with rxs := s.rxs ++ [.start e], pc := .spawnTx e }
  | spawnTx {e : EpId} (hpc : s.pc = .spawnTx e) :
      Trans s { s with txs := s.txs ++ [e], locked := false, pc := .clientcountinc }
  | clientcountinc (hpc : s.pc = .clientcountinc) :
      Trans s { s with clientcount := s.clientcount + 1, pc := .accept }
  | terminate : Trans s { s with calls := s.calls ++ [.setFlag] }
  | setFlag {n : ℕ} (hn : s.calls[n]? = some .setFlag) :
      Trans s { s with terminate := true, calls := s.calls.set n .look }
  | look {n : ℕ} (hn : s.calls[n]? = some .look) :
      Trans s { s with calls := s.calls.set n (if s.acceptor then .close else .returned) }
  | close {n : ℕ} (hn : s.calls[n]? = some .close) :
      Trans s { s with closed := true, calls := s.calls.set n .returned }
  | greet {n : ℕ} {e : EpId} {rsid : ID} (hn : s.rxs[n]? = some (.start e)) :
      Trans s { s with negcount := s.negcount + 1, rxs := s.rxs.set n (.negotiated e rsid) }
  | setsid {n : ℕ} {e : EpId} {rsid : ID} {net : Net} (hn : s.rxs[n]? = some (.negotiated e rsid)) :
      Trans s { s with net := net, rxs := s.rxs.set n (.looping e) }
  | panic {n : ℕ} {e : EpId} (hn : s.rxs[n]? = some (.start e)) :
      Trans s { s with rxs := s.rxs.set n (.panicked e) }
  | others {net : Net} : Trans s { s with net := net }

variable {s s' : Bridge}

theorem eq_of_whenFree {s₁ : Bridge} (h : s.whenFree s₁ = some s') : s' = s₁ := by
  unfold whenFree at h
  split at h
  · cases h
  · exact (Option.some.inj h).symm

theorem threadStep_trans {ok : Bool} {id : EpId} (h : s.threadStep ok id = some s') : Trans s s' := by
  unfold threadStep at h
  cases hpc : s.pc with
  | bind =>
    simp only [hpc] at h
    obtain rfl := eq_of_whenFree h
    exact .bind hpc
  | setacceptor =>
    simp only [hpc] at h
    obtain rfl := eq_of_whenFree h
    exact .setacceptor hpc
  | test =>
    simp only [hpc] at h
    obtain rfl := eq_of_whenFree h
    exact .test hpc
  | accept =>
    simp only [hpc] at h
    split at h
    · split at h
      · cases h
      · rename_i hopen
        cases h
        exact .accept hpc (Bool.eq_false_iff.mpr hopen)
    · cases h
      exact .refused hpc
  | lock =>
    simp only [hpc] at h
    obtain rfl := eq_of_whenFree h
    exact .lock hpc
  | newEndpoint =>
    simp only [hpc] at h
    split at h
    · cases h
    · rename_i hid
      cases h
      exact .newEndpoint hpc fun hmem => hid (Or.inl hmem)
  | setgid e =>
    simp only [hpc] at h
    cases h
    exact .setgid hpc
  | addEndpoint e =>
    simp only [hpc] at h
    cases h
    exact .addEndpoint hpc
  | spawnRx e =>
    simp only [hpc] at h
    cases h
    exact .spawnRx hpc
  | spawnTx e =>
    simp only [hpc] at h
    cases h
    exact .spawnTx hpc
  | clientcountinc =>
    simp only [hpc] at h
    obtain rfl := eq_of_whenFree h
    exact .clientcountinc hpc
  | returned | panicked =>
    simp only [hpc] at h
    cases h

/-- **Inversion of a step.** -/
theorem step_trans {a : Act} (h : s.step a = some s') : Trans s s' := by
  cases a with
  | thread ok id => exact threadStep_trans h
  | terminate =>
    cases h
    exact .terminate
  | call n =>
    simp only [step, callStep] at h
    split at h
    · rename_i hn
      obtain rfl := eq_of_whenFree h
      exact .setFlag hn
    · rename_i hn
      obtain rfl := eq_of_whenFree h
      exact .look hn
    · rename_i hn
      obtain rfl := eq_of_whenFree h
      exact .close hn
    · cases h
  | rxGreet n rsid =>
    simp only [step] at h
    split at h
    · rename_i e hn
      obtain rfl := eq_of_whenFree h
      exact .greet hn
    · cases h
  | rxSetsid n =>
    simp only [step] at h
    split at h
    · rename_i e rsid hn
      cases h
      exact .setsid hn
    · cases h
  | rxPanic n =>
    simp only [step] at h
    split at h
    · rename_i e hn
      cases h
      exact .panic hn
    · cases h
  | others net =>
    cases h
    exact .others

end Bridge

/-! ### Program points -/

namespace Pc

/-- Past its test of the flag. -/
def serving : Pc → Bool
  | .bind | .setacceptor | .test | .returned | .panicked => false
  | _ => true

/-- A stream was accepted and is not yet in `clientcount`. -/
def uncounted : Pc → ℕ
  | .lock | .newEndpoint | .setgid _ | .addEndpoint _ | .spawnRx _ | .spawnTx _ | .clientcountinc => 1
  | _ => 0

/-- A stream was accepted and has no `thread_rx` yet. -/
def unspawned : Pc → ℕ
  | .lock | .newEndpoint | .setgid _ | .addEndpoint _ | .spawnRx _ => 1
  | _ => 0

/-- The endpoint that has no `thread_rx` yet. -/
def unread : Pc → List EpId
  | .setgid e | .addEndpoint e | .spawnRx e => [e]
  | _ => []

/-- The endpoint that has a `thread_rx` and no `thread_tx` yet. -/
def unpaired : Pc → List EpId
  | .spawnTx e => [e]
  | _ => []

theorem unspawned_le (pc : Pc) : pc.unspawned ≤ pc.uncounted := by
  cases pc <;> simp [unspawned, uncounted]

end Pc

namespace Rx

def ep : Rx → EpId
  | .start e | .negotiated e _ | .looping e | .panicked e => e

/-- It is in `negcount`. -/
def counted : Rx → ℕ
  | .negotiated .. | .looping _ => 1
  | .start _ | .panicked _ => 0

theorem counted_le (rx : Rx) : rx.counted ≤ 1 := by cases rx <;> simp [counted]

end Rx

namespace Bridge

variable {s s' : Bridge}

/-! ### Termination -/

/-- A call that is past its first statement has set the flag; without an acceptor the thread is before
its test; and a call that has returned has closed the acceptor, or the thread is not past its test. -/
structure Heeded (s : Bridge) : Prop where
  flag : ∀ c ∈ s.calls, c ≠ .setFlag → s.terminate = true
  published : s.acceptor = false → s.pc = .bind ∨ s.pc = .setacceptor ∨ s.pc = .panicked
  heard : .returned ∈ s.calls → s.closed = true ∨ s.pc.serving = false

theorem heeded_init (net : Net) : (init net).Heeded where
  flag c hc := by cases hc
  published _ := Or.inl rfl
  heard hr := by cases hr

/-- A statement of `thread_accept`. -/
theorem Heeded.thread (h : s.Heeded) (hcalls : s'.calls = s.calls) (hterm : s'.terminate = s.terminate)
    (hclosed : s'.closed = s.closed)
    (hpublished : s'.acceptor = true ∨ s'.pc = .bind ∨ s'.pc = .setacceptor ∨ s'.pc = .panicked)
    (hserving : s.terminate = true → s.pc.serving = false → s'.pc.serving = false) : s'.Heeded where
  flag c hc hne := by
    rw [hterm]
    exact h.flag c (hcalls ▸ hc) hne
  published hacc := hpublished.resolve_left fun htrue => by
    rw [hacc] at htrue
    cases htrue
  heard hr := by
    rw [hcalls] at hr
    rw [hclosed]
    exact (h.heard hr).imp_right (hserving (h.flag _ hr nofun))

theorem Heeded.acceptor_of_serving (h : s.Heeded) (hpc : s.pc.serving = true) : s.acceptor = true := by
  by_contra hacc
  rcases h.published (Bool.eq_false_iff.mpr hacc) with hp | hp | hp <;> rw [hp] at hpc <;> cases hpc

/-- A statement of a `terminate` call; `c` is where it comes to. -/
theorem Heeded.call (h : s.Heeded) {n : ℕ} {c : Call} (hcalls : s'.calls = s.calls.set n c)
    (hterm : s'.terminate = true) (hacc : s'.acceptor = s.acceptor) (hpc : s'.pc = s.pc)
    (hclosed : s.closed = true → s'.closed = true)
    (hheard : c = .returned → s'.closed = true ∨ s.pc.serving = false) : s'.Heeded where
  flag _ _ _ := hterm
  published := by
    rw [hacc, hpc]
    exact h.published
  heard hr := by
    rw [hcalls] at hr
    rw [hpc]
    rcases List.mem_or_eq_of_mem_set hr with hold | hnew
    · exact (h.heard hold).imp_left hclosed
    · exact hheard hnew.symm

theorem heeded_trans (h : s.Heeded) (htrans : Trans s s') : s'.Heeded := by
  cases htrans with
  | @bind ok hpc =>
    refine h.thread rfl rfl rfl (Or.inr ?_) fun _ _ => by cases ok <;> rfl
    cases ok
    · exact Or.inr (Or.inr rfl)
    · exact Or.inr (Or.inl rfl)
  | setacceptor hpc => exact h.thread rfl rfl rfl (Or.inl rfl) fun _ _ => rfl
  | test hpc =>
    have hacc : s.acceptor = true := by
      by_contra hacc
      rcases h.published (Bool.eq_false_iff.mpr hacc) with hp | hp | hp <;> rw [hpc] at hp <;> cases hp
    refine h.thread rfl rfl rfl (Or.inl hacc) fun hterm _ => ?_
    show (if s.terminate then Pc.returned else .accept).serving = false
    rw [if_pos hterm]
    rfl
  | accept hpc hopen =>
    exact h.thread rfl rfl rfl (Or.inl (h.acceptor_of_serving (by rw [hpc]; rfl)))
      fun _ hs => by rw [hpc] at hs; cases hs
  | refused => exact h
  | lock hpc | newEndpoint hpc | setgid hpc | addEndpoint hpc | spawnRx hpc | spawnTx hpc
  | clientcountinc hpc =>
    exact h.thread rfl rfl rfl (Or.inl (h.acceptor_of_serving (by rw [hpc]; rfl)))
      fun _ hs => by rw [hpc] at hs; cases hs
  | terminate =>
    refine ⟨fun c hc hne => ?_, h.published, fun hr => ?_⟩
    · rcases List.mem_append.mp hc with hc | hc
      · exact h.flag c hc hne
      · exact absurd (List.mem_singleton.mp hc) hne
    · rcases List.mem_append.mp hr with hr | hr
      · exact h.heard hr
      · cases List.mem_singleton.mp hr
  | setFlag hn => exact h.call rfl rfl rfl rfl id nofun
  | @look n hn =>
    have hterm := h.flag _ (List.mem_of_getElem? hn) nofun
    refine h.call rfl hterm rfl rfl id fun hret => Or.inr ?_
    have hacc : s.acceptor = false := by
      by_contra hacc
      rw [if_pos (by simpa using hacc)] at hret
      cases hret
    rcases h.published hacc with hp | hp | hp <;> rw [hp] <;> rfl
  | close hn =>
    exact h.call rfl (h.flag _ (List.mem_of_getElem? hn) nofun) rfl rfl (fun _ => rfl) fun _ => Or.inl rfl
  | greet | setsid | panic | others => exact ⟨h.flag, h.published, h.heard⟩

theorem mem_set_returned {calls : List Call} (hr : .returned ∈ calls) {n : ℕ} {c : Call}
    (hn : calls[n]? = some c) (hc : c ≠ .returned) (c' : Call) : .returned ∈ calls.set n c' := by
  obtain ⟨m, hm⟩ := List.mem_iff_getElem?.mp hr
  have hne : n ≠ m := by
    rintro rfl
    exact hc (Option.some.inj (hn.symm.trans hm))
  exact List.mem_iff_getElem?.mpr ⟨m, by rw [List.getElem?_set_ne hne, hm]⟩

/-- A call that has returned, a closed acceptor and a thread past its test stay so. -/
theorem returned_trans (htrans : Trans s s') (hr : .returned ∈ s.calls) : .returned ∈ s'.calls := by
  cases htrans with
  | terminate => exact List.mem_append_left _ hr
  | setFlag hn | look hn | close hn => exact mem_set_returned hr hn nofun _
  | bind | setacceptor | test | accept | refused | lock | newEndpoint | setgid | addEndpoint | spawnRx
  | spawnTx | clientcountinc | greet | setsid | panic | others => exact hr

theorem closed_trans (htrans : Trans s s') (hc : s.closed = true) : s'.closed = true := by
  cases htrans with
  | close => rfl
  | bind | setacceptor | test | accept | refused | lock | newEndpoint | setgid | addEndpoint | spawnRx
  | spawnTx | clientcountinc | terminate | setFlag | look | greet | setsid | panic | others => exact hc

theorem serving_trans (htrans : Trans s s') (hs : s.pc.serving = true) : s'.pc.serving = true := by
  cases htrans with
  | bind hpc | setacceptor hpc | test hpc =>
    rw [hpc] at hs
    cases hs
  | accept | lock | newEndpoint | setgid | addEndpoint | spawnRx | spawnTx | clientcountinc => rfl
  | refused | terminate | setFlag | look | close | greet | setsid | panic | others => exact hs

/-- An open acceptor is needed for a stream. -/
theorem accepted_trans (h : s.Heeded) (htrans : Trans s s') (hr : .returned ∈ s.calls) :
    s'.accepted = s.accepted := by
  cases htrans with
  | accept hpc hopen =>
    rcases h.heard hr with hc | hs
    · rw [hopen] at hc
      cases hc
    · rw [hpc] at hs
      cases hs
  | bind | setacceptor | test | refused | lock | newEndpoint | setgid | addEndpoint | spawnRx | spawnTx
  | clientcountinc | terminate | setFlag | look | close | greet | setsid | panic | others => rfl

theorem heeded_run (net : Net) {acts : List Act} (hrun : run step (init net) acts = some s) :
    s.Heeded :=
  run_invariant (fun _ _ _ h hstep => heeded_trans h (step_trans hstep)) hrun (heeded_init net)

/-- **Nothing is accepted after `terminate` has returned.**  In every interleaving, from the moment a
`terminate` call has returned the number of streams accepted stays what it is; and if the thread had
passed its test by then, it never ends: it asks a closed acceptor again and again. -/
theorem terminated_accepts_none (net : Net) {acts₁ acts₂ : List Act} {s₁ s₂ : Bridge}
    (hrun₁ : run step (init net) acts₁ = some s₁) (hret : .returned ∈ s₁.calls)
    (hrun₂ : run step s₁ acts₂ = some s₂) :
    s₂.accepted = s₁.accepted ∧
      (s₁.pc.serving = true → s₂.pc.serving = true ∧ s₂.closed = true) := by
  have h₁ := heeded_run net hrun₁
  have hstep : ∀ (s : Bridge) (a : Act) (s' : Bridge),
      (s.Heeded ∧ .returned ∈ s.calls) ∧ s.accepted = s₁.accepted ∧
        (s₁.pc.serving = true → s.pc.serving = true ∧ s.closed = true) → s.step a = some s' →
      (s'.Heeded ∧ .returned ∈ s'.calls) ∧ s'.accepted = s₁.accepted ∧
        (s₁.pc.serving = true → s'.pc.serving = true ∧ s'.closed = true) := by
    rintro s a s' ⟨⟨h, hr⟩, hacc, hserving⟩ hs
    have htrans := step_trans hs
    refine ⟨⟨heeded_trans h htrans, returned_trans htrans hr⟩, ?_, fun hs₁ => ?_⟩
    · exact (accepted_trans h htrans hr).trans hacc
    · obtain ⟨hserves, hclosed⟩ := hserving hs₁
      exact ⟨serving_trans htrans hserves, closed_trans htrans hclosed⟩
  refine (run_invariant hstep hrun₂ ⟨⟨h₁, hret⟩, rfl, fun hs₁ => ⟨hs₁, ?_⟩⟩).2
  refine (h₁.heard hret).resolve_right fun hnot => ?_
  rw [hs₁] at hnot
  cases hnot

/-- A client is at work on when the acceptor is closed. -/
def closingRun : List Act :=
  [Act.terminate] ++ List.replicate 3 (Act.thread true 0) ++ [Act.thread true 0, .call 0, .call 0, .call 0]

theorem terminated_accepts_none_closingRun : ∃ s₁ s₂, run step (init (Net.new 100)) closingRun = some s₁ ∧
    run step s₁ [.thread true 0, .thread true 1, .thread true 0] = some s₂ ∧ s₁.accepted = 1 ∧
    s₂.accepted = s₁.accepted := by
  obtain ⟨s₁, hrun₁, hobs₁⟩ : ∃ s₁, run step (init (Net.new 100)) closingRun = some s₁ ∧
      (s₁.accepted = 1 ∧ s₁.calls = [.returned] ∧ (run step s₁ [.thread true 0, .thread true 1,
        .thread true 0]).isSome = true) := ⟨_, rfl, rfl, rfl, rfl⟩
  obtain ⟨haccepted, hcalls, hsome⟩ := hobs₁
  obtain ⟨s₂, hrun₂⟩ := Option.isSome_iff_exists.mp hsome
  refine ⟨s₁, s₂, hrun₁, hrun₂, haccepted, ?_⟩
  exact (terminated_accepts_none _ hrun₁ (by rw [hcalls]; exact List.mem_cons_self) hrun₂).1

/-! ### Counts -/

/-- **What the counts count**, and the threads and the endpoint of each client. -/
structure Counts (s : Bridge) : Prop where
  clients : ∃ n, s.clientcount = UInt64.ofNat n ∧ n + s.pc.uncounted = s.accepted
  negotiated : s.negcount = UInt64.ofNat (total Rx.counted s.rxs)
  spawned : s.rxs.length + s.pc.unspawned = s.accepted
  made : s.made = s.rxs.map Rx.ep ++ s.pc.unread
  nodup : s.made.Nodup
  paired : s.rxs.map Rx.ep = s.txs ++ s.pc.unpaired

theorem counts_init (net : Net) : (init net).Counts where
  clients := ⟨0, rfl, rfl⟩
  negotiated := rfl
  spawned := rfl
  made := rfl
  nodup := List.nodup_nil
  paired := rfl

/-- A step of `thread_accept` between two streams, or before the spawns. -/
theorem Counts.move (h : s.Counts) (hclientcount : s'.clientcount = s.clientcount)
    (hnegcount : s'.negcount = s.negcount) (hrxs : s'.rxs = s.rxs) (htxs : s'.txs = s.txs)
    (haccepted : s'.accepted = s.accepted) (hmade : s'.made = s.made)
    (huncounted : s'.pc.uncounted = s.pc.uncounted) (hunspawned : s'.pc.unspawned = s.pc.unspawned)
    (hunread : s'.pc.unread = s.pc.unread) (hunpaired : s'.pc.unpaired = s.pc.unpaired) : s'.Counts where
  clients := by
    rw [hclientcount, huncounted, haccepted]
    exact h.clients
  negotiated := by
    rw [hnegcount, hrxs]
    exact h.negotiated
  spawned := by
    rw [hrxs, hunspawned, haccepted]
    exact h.spawned
  made := by
    rw [hmade, hrxs, hunread]
    exact h.made
  nodup := hmade ▸ h.nodup
  paired := by
    rw [hrxs, htxs, hunpaired]
    exact h.paired

/-- A step of one `thread_rx`. -/
theorem Counts.rx (h : s.Counts) {n : ℕ} {rx : Rx} (rx' : Rx) (hn : s.rxs[n]? = some rx)
    (hep : rx'.ep = rx.ep) (hle : rx.counted ≤ rx'.counted) (hrxs : s'.rxs = s.rxs.set n rx')
    (hnegcount : s'.negcount = s.negcount + UInt64.ofNat (rx'.counted - rx.counted))
    (hclientcount : s'.clientcount = s.clientcount) (htxs : s'.txs = s.txs)
    (haccepted : s'.accepted = s.accepted) (hmade : s'.made = s.made) (hpc : s'.pc = s.pc) :
    s'.Counts := by
  have heps : s'.rxs.map Rx.ep = s.rxs.map Rx.ep := by
    obtain ⟨hlt, hget⟩ := List.getElem?_eq_some_iff.mp hn
    have hlt' : n < (s.rxs.map Rx.ep).length := by
      rw [List.length_map]
      exact hlt
    have hself : (s.rxs.map Rx.ep).set n (s.rxs.map Rx.ep)[n] = s.rxs.map Rx.ep :=
      List.set_getElem_self hlt'
    rw [List.getElem_map, hget] at hself
    rw [hrxs, List.map_set, hep, hself]
  constructor
  · rw [hclientcount, hpc, haccepted]
    exact h.clients
  · have htotal := total_set Rx.counted hn rx'
    rw [hnegcount, hrxs, h.negotiated, ← UInt64.ofNat_add]
    congr 1
    omega
  · rw [hrxs, List.length_set, hpc, haccepted]
    exact h.spawned
  · rw [hmade, heps, hpc]
    exact h.made
  · exact hmade ▸ h.nodup
  · rw [heps, htxs, hpc]
    exact h.paired

theorem counts_trans (h : s.Counts) (htrans : Trans s s') : s'.Counts := by
  cases htrans with
  | @bind ok hpc =>
    cases ok <;> exact h.move rfl rfl rfl rfl rfl rfl (by rw [hpc]; rfl) (by rw [hpc]; rfl)
      (by rw [hpc]; rfl) (by rw [hpc]; rfl)
  | setacceptor hpc | lock hpc =>
    exact h.move rfl rfl rfl rfl rfl rfl (by rw [hpc]; rfl) (by rw [hpc]; rfl) (by rw [hpc]; rfl)
      (by rw [hpc]; rfl)
  | test hpc =>
    by_cases hterm : s.terminate = true <;>
      exact h.move rfl rfl rfl rfl rfl rfl (by simp [hpc, hterm, Pc.uncounted])
        (by simp [hpc, hterm, Pc.unspawned]) (by simp [hpc, hterm, Pc.unread])
        (by simp [hpc, hterm, Pc.unpaired])
  | accept hpc hopen =>
    obtain ⟨n, hclients, haccepted⟩ := h.clients
    have hspawned := h.spawned
    have hmade := h.made
    have hpaired := h.paired
    rw [hpc] at haccepted hspawned hmade hpaired
    exact ⟨⟨n, hclients, congrArg (· + 1) haccepted⟩, h.negotiated, congrArg (· + 1) hspawned, hmade,
      h.nodup, hpaired⟩
  | newEndpoint hpc hid =>
    obtain ⟨n, hclients, haccepted⟩ := h.clients
    have hspawned := h.spawned
    have hmade := h.made
    have hpaired := h.paired
    rw [hpc] at haccepted hspawned hmade hpaired
    refine ⟨⟨n, hclients, haccepted⟩, h.negotiated, hspawned, ?_, ?_, hpaired⟩
    · show s.made ++ _ = s.rxs.map Rx.ep ++ _
      rw [hmade, List.append_assoc]
      rfl
    · refine List.nodup_append.mpr ⟨h.nodup, List.nodup_singleton _, fun x hx y hy => ?_⟩
      rw [List.mem_singleton.mp hy]
      exact fun heq => hid (heq ▸ hx)
  | setgid hpc | addEndpoint hpc =>
    exact h.move rfl rfl rfl rfl rfl rfl (by rw [hpc]; rfl) (by rw [hpc]; rfl) (by rw [hpc]; rfl)
      (by rw [hpc]; rfl)
  | @spawnRx e hpc =>
    obtain ⟨n, hclients, haccepted⟩ := h.clients
    have hspawned := h.spawned
    have hmade := h.made
    have hpaired := h.paired
    rw [hpc] at haccepted hspawned hmade hpaired
    refine ⟨⟨n, hclients, haccepted⟩, ?_, ?_, ?_, h.nodup, ?_⟩
    · show s.negcount = UInt64.ofNat (total Rx.counted (s.rxs ++ [Rx.start e]))
      rw [total_append]
      exact h.negotiated
    · show (s.rxs ++ [Rx.start e]).length + 0 = s.accepted
      rw [List.length_append]
      exact hspawned
    · show s.made = (s.rxs ++ [Rx.start e]).map Rx.ep ++ []
      rw [List.map_append, List.append_nil]
      exact hmade
    · show (s.rxs ++ [Rx.start e]).map Rx.ep = s.txs ++ [e]
      rw [List.map_append, hpaired, List.append_assoc]
      rfl
  | @spawnTx e hpc =>
    obtain ⟨n, hclients, haccepted⟩ := h.clients
    have hspawned := h.spawned
    have hmade := h.made
    have hpaired := h.paired
    rw [hpc] at haccepted hspawned hmade hpaired
    refine ⟨⟨n, hclients, haccepted⟩, h.negotiated, hspawned, hmade, h.nodup, ?_⟩
    exact hpaired.trans (List.append_nil _).symm
  | clientcountinc hpc =>
    obtain ⟨n, hclients, haccepted⟩ := h.clients
    have hspawned := h.spawned
    have hmade := h.made
    have hpaired := h.paired
    rw [hpc] at haccepted hspawned hmade hpaired
    refine ⟨⟨n + 1, ?_, haccepted⟩, h.negotiated, hspawned, hmade, h.nodup, hpaired⟩
    show s.clientcount + 1 = UInt64.ofNat (n + 1)
    rw [hclients, UInt64.ofNat_add]
    rfl
  | @greet n e rsid hn => exact h.rx (.negotiated e rsid) hn rfl (Nat.zero_le _) rfl rfl rfl rfl rfl rfl rfl
  | @setsid n e rsid net hn =>
    exact h.rx (.looping e) hn rfl le_rfl rfl (UInt64.add_zero _).symm rfl rfl rfl rfl rfl
  | @panic n e hn => exact h.rx (.panicked e) hn rfl le_rfl rfl (UInt64.add_zero _).symm rfl rfl rfl rfl rfl
  | refused => exact h
  | terminate | setFlag | look | close | others =>
    exact ⟨h.clients, h.negotiated, h.spawned, h.made, h.nodup, h.paired⟩

theorem counts_run (net : Net) {acts : List Act} (hrun : run step (init net) acts = some s) :
    s.Counts :=
  run_invariant (fun _ _ _ h hstep => counts_trans h (step_trans hstep)) hrun (counts_init net)

theorem total_counted_le (rxs : List Rx) : total Rx.counted rxs ≤ rxs.length := by
  induction rxs with
  | nil => exact le_rfl
  | cons rx rxs ih =>
    have hle := rx.counted_le
    rw [WaterNet.Lib.Pool.total_cons, List.length_cons]
    omega

/-- **The counts of a listener.**  In every interleaving with fewer than `2 ^ 64` streams,
`clientcount` is the number of streams accepted, less the one that `thread_accept` is at work on;
`negcount` is the number of those whose `thread_rx` has read the sid of its peer, and above
`clientcount` by one at most, and only from the moment the `thread_rx` of a stream is spawned until the
stream is counted; and different streams have different endpoints, each with one `thread_rx` and, by
the time it is counted, one `thread_tx`. -/
theorem negcount_le (net : Net) {acts : List Act} (hrun : run step (init net) acts = some s)
    (hfew : s.accepted < 2 ^ 64) :
    s.clientcount.toNat + s.pc.uncounted = s.accepted ∧
      s.negcount.toNat = total Rx.counted s.rxs ∧
      s.negcount.toNat ≤ s.clientcount.toNat + (s.pc.uncounted - s.pc.unspawned) ∧
      (s.rxs.map Rx.ep).Nodup ∧ s.rxs.map Rx.ep = s.txs ++ s.pc.unpaired := by
  have h := counts_run net hrun
  obtain ⟨n, hclients, haccepted⟩ := h.clients
  have hspawned := h.spawned
  have hle := total_counted_le s.rxs
  have hun := s.pc.unspawned_le
  have hclient : s.clientcount.toNat = n := by
    rw [hclients, UInt64.toNat_ofNat', Nat.mod_eq_of_lt (by omega)]
  have hneg : s.negcount.toNat = total Rx.counted s.rxs := by
    rw [h.negotiated, UInt64.toNat_ofNat', Nat.mod_eq_of_lt (by omega)]
  have hnodup := h.nodup
  rw [h.made] at hnodup
  exact ⟨by rw [hclient, haccepted], hneg, by omega, (List.nodup_append.mp hnodup).1, h.paired⟩

/-- The peer is faster than `thread_accept`. -/
def eagerRun : List Act :=
  List.replicate 5 (Act.thread true 0) ++ [Act.thread true 1] ++ List.replicate 3 (Act.thread true 0) ++
    [Act.thread true 0, .rxGreet 0 200]

theorem negcount_le_eagerRun : ∃ s, run step (init (Net.new 100)) eagerRun = some s ∧
    s.negcount = 1 ∧ s.clientcount = 0 ∧
    s.negcount.toNat ≤ s.clientcount.toNat + (s.pc.uncounted - s.pc.unspawned) := by
  obtain ⟨s, hrun, haccepted, hneg, hclient⟩ : ∃ s, run step (init (Net.new 100)) eagerRun = some s ∧
      s.accepted = 1 ∧ s.negcount = 1 ∧ s.clientcount = 0 := ⟨_, rfl, rfl, rfl, rfl⟩
  exact ⟨s, hrun, hneg, hclient, (negcount_le _ hrun (by rw [haccepted]; decide)).2.2.1⟩

end Bridge

end WaterNet.Tcp.Listener
