import WaterNet.Lib.Machine
import WaterNet.Endpoint

/-!
# Blocking receives on one endpoint (`endpoint.rs`)

Any number of threads call `give`, `recv`, `recvorblock` and `recvorblockforever` of one endpoint.
Each is at a program point `Pc`; one action moves one thread by one atomic step of its call, lets
an idle thread start a call, or is something that happens to the endpoint from outside.

* `World.step` — the machine; `World.advance` is one atomic step of a thread inside a call;
* `Trans`, `step_trans` — **inversion**: what one step can do, with the guards it passed.

The condition variable is the set of threads at `Pc.sleeping`: `wait` puts its thread there and
unlocks `waitmutex` in one step, and a signal, a time-out or a spurious wake-up takes it out.
-/

namespace WaterNet.Blocking

open Endpoint (Internal AddressData)

inductive Call where
  | recv
  | recvorblock
  | recvorblockforever
  deriving DecidableEq, Repr

/-- Why a call runs `Internal::recv`: it is the first time, or the wait before it ended so. -/
inductive Wake where
  | first
  | signalled
  | timedOut
  | spurious
  deriving DecidableEq, Repr

/-- Where a thread is. -/
inductive Pc where
  | idle
  /-- `give` entered -/
  | giveTest (m : Message)
  /-- in `give`, past the tests, `waitmutex` not yet locked -/
  | giveLock (m : Message)
  | givePut (m : Message)
  | giveAdd (m : Message)
  | giveNotify
  /-- in a blocking call, `waitmutex` not yet locked -/
  | recvLock (call : Call)
  /-- at the head of the loop of `Internal::recv` -/
  | recvGet (call : Call) (wake : Wake)
  | recvDup (call : Call) (wake : Wake) (copy : Message)
  | recvSub (call : Call) (wake : Wake) (msg : Message)
  | recvEnd (call : Call) (wake : Wake) (msg : Message)
  /-- `Internal::recv` has returned `NoMessages` -/
  | recvNone (call : Call) (wake : Wake)
  /-- a blocking call is about to return and unlock `waitmutex` -/
  | unlock
  | sleeping (call : Call)
  /-- the wait is over, `waitmutex` not yet locked again -/
  | woken (call : Call) (wake : Wake)
  deriving DecidableEq, Repr

structure World where
  /-- `getserveraddr()` of the endpoint's net -/
  netsid : ID
  ep : Internal
  store : Store
  /-- the thread that holds `waitmutex` -/
  waitmutex : Option ℕ
  threads : List Pc

inductive Act where
  | give (t : ℕ) (m : Message)
  | recv (t : ℕ) (call : Call)
  | step (t : ℕ)
  /-- the thread `t` is at its `notify_one`, which wakes the sleeper `j` -/
  | notify (t j : ℕ)
  | timeout (j : ℕ)
  | spurious (j : ℕ)
  /-- a `recv` of another endpoint takes a sync message -/
  | takeasvalid (s : SyncMessage)
  | setAddress (address : AddressData)
  | setLimits (limitpending limitmemory : UInt64)

/-- Where a call goes when `Internal::recv` has returned a message. -/
def Call.done : Call → Pc
  | .recv => .idle
  | .recvorblock | .recvorblockforever => .unlock

def Pc.isSleeping : Pc → Bool
  | .sleeping _ => true
  | _ => false

namespace World

@[simp] def setPc (w : World) (t : ℕ) (pc : Pc) : World := { w with threads := w.threads.set t pc }

@[simp] def setEp (w : World) (ep : Internal) : World := { w with ep := ep }

@[simp] def setStore (w : World) (st : Store) : World := { w with store := st }

@[simp] def setLock (w : World) (owner : Option ℕ) : World := { w with waitmutex := owner }

/-- One atomic step of the thread `t`, which is at `pc`. -/
def advance (w : World) (t : ℕ) : Pc → Option World
  | .idle => none
  | .giveTest m =>
    if w.ep.routes w.netsid m && w.ep.underLimits then some (w.setPc t (.giveLock m))
    else some (w.setPc t .idle)
  | .giveLock m =>
    if w.waitmutex = none then some ((w.setLock (some t)).setPc t (.givePut m)) else none
  | .givePut m => do
    let cloned ← m.giveClone
    some ((w.setEp (w.ep.putMsg cloned)).setPc t (.giveAdd m))
  | .giveAdd m =>
    some (((w.setEp (w.ep.fetchAdd (m.cap w.store))).setLock none).setPc t .giveNotify)
  | .giveNotify => if w.threads.any Pc.isSleeping then none else some (w.setPc t .idle)
  | .recvLock call =>
    if w.waitmutex = none then some ((w.setLock (some t)).setPc t (.recvGet call .first)) else none
  | .recvGet call wake =>
    match w.ep.messages.get with
    | none => some (w.setPc t (.recvNone call wake))
    | some (copy, rest) =>
      some ((w.setEp { w.ep with messages := rest }).setPc t (.recvDup call wake copy))
  | .recvDup call wake copy =>
    let (msg, st) := copy.dupIfok w.store
    some ((w.setStore st).setPc t (.recvSub call wake msg))
  | .recvSub call wake msg =>
    some ((w.setEp (w.ep.fetchSub (msg.cap w.store))).setPc t (.recvEnd call wake msg))
  | .recvEnd call wake msg =>
    match msg.payload with
    | .raw _ => do
      let (_, st) ← msg.dup w.store
      some ((w.setStore st).setPc t call.done)
    | .sync s =>
      match w.store.takeasvalid s with
      | (true, st) => some ((w.setStore st).setPc t call.done)
      | (false, _) => some (w.setPc t (.recvGet call wake))
    | .clone _ => some (w.setPc t call.done)
  | .recvNone .recv _ => some (w.setPc t .idle)
  | .recvNone .recvorblock .timedOut => some (w.setPc t .unlock)
  | .recvNone call _ => some ((w.setLock none).setPc t (.sleeping call))
  | .unlock => some ((w.setLock none).setPc t .idle)
  | .sleeping _ => none
  | .woken call wake =>
    if w.waitmutex = none then some ((w.setLock (some t)).setPc t (.recvGet call wake)) else none

/-- A call can be started by a thread that is in none. -/
def start (w : World) (t : ℕ) (pc : Pc) : Option World :=
  if w.threads[t]? = some .idle then some (w.setPc t pc) else none

/-- The wait of the thread `j` ends. -/
def wakeUp (w : World) (j : ℕ) (wake : Wake) : Option World :=
  match w.threads[j]? with
  | some (.sleeping call) => some (w.setPc j (.woken call wake))
  | _ => none

def step (w : World) : Act → Option World
  | .give t m => w.start t (.giveTest m)
  | .recv t .recv => w.start t (.recvGet .recv .first)
  | .recv t call => w.start t (.recvLock call)
  | .step t => (w.threads[t]?).bind (w.advance t)
  | .notify t j =>
    if w.threads[t]? = some .giveNotify then (w.setPc t .idle).wakeUp j .signalled else none
  | .timeout j =>
    -- only `recvorblock` waits with a time limit
    if w.threads[j]? = some (.sleeping .recvorblock) then w.wakeUp j .timedOut else none
  | .spurious j => w.wakeUp j .spurious
  | .takeasvalid s => some (w.setStore (w.store.takeasvalid s).2)
  | .setAddress address => some (w.setEp { w.ep with address := address })
  | .setLimits limitpending limitmemory =>
    some (w.setEp { w.ep with limitpending := limitpending, limitmemory := limitmemory })

/-- The states runs start in: any endpoint on which no call is in progress. -/
structure Init (w : World) : Prop where
  idle : ∀ pc ∈ w.threads, pc = .idle

/-! ### Inversion -/

/-- **What one step can do.**  One constructor for each atomic step, with what is known there; what
happens from outside leaves the queue alone and may take sync messages. -/
inductive Trans (w : World) : World → Prop where
  | outside {ep : Internal} {st : Store} (hep : ep.messages = w.ep.messages)
      (hst : ∀ f, st.valid f = true → w.store.valid f = true) :
      Trans w ((w.setEp ep).setStore st)
  | startGive {t m} (ht : w.threads[t]? = some .idle) : Trans w (w.setPc t (.giveTest m))
  | startRecv {t} (ht : w.threads[t]? = some .idle) : Trans w (w.setPc t (.recvGet .recv .first))
  | startBlocking {t call} (ht : w.threads[t]? = some .idle) (hcall : call ≠ .recv) :
      Trans w (w.setPc t (.recvLock call))
  | accept {t m} (ht : w.threads[t]? = some (.giveTest m)) : Trans w (w.setPc t (.giveLock m))
  | refuse {t m} (ht : w.threads[t]? = some (.giveTest m)) : Trans w (w.setPc t .idle)
  | giveLock {t m} (ht : w.threads[t]? = some (.giveLock m)) (hl : w.waitmutex = none) :
      Trans w ((w.setLock (some t)).setPc t (.givePut m))
  | put {t m} (ht : w.threads[t]? = some (.givePut m)) :
      Trans w ((w.setEp (w.ep.putMsg m)).setPc t (.giveAdd m))
  | add {t m} (ht : w.threads[t]? = some (.giveAdd m)) :
      Trans w (((w.setEp (w.ep.fetchAdd (m.cap w.store))).setLock none).setPc t .giveNotify)
  | notifyLost {t} (ht : w.threads[t]? = some .giveNotify)
      (hnone : w.threads.any Pc.isSleeping = false) : Trans w (w.setPc t .idle)
  | notify {t j call} (ht : w.threads[t]? = some .giveNotify)
      (hj : (w.threads.set t .idle)[j]? = some (.sleeping call)) :
      Trans w ((w.setPc t .idle).setPc j (.woken call .signalled))
  | recvLock {t call} (ht : w.threads[t]? = some (.recvLock call)) (hl : w.waitmutex = none) :
      Trans w ((w.setLock (some t)).setPc t (.recvGet call .first))
  | recvNone {t call wake} (ht : w.threads[t]? = some (.recvGet call wake))
      (hq : w.ep.messages = []) : Trans w (w.setPc t (.recvNone call wake))
  | recvGet {t call wake copy rest} (ht : w.threads[t]? = some (.recvGet call wake))
      (hq : w.ep.messages = copy :: rest) :
      Trans w ((w.setEp { w.ep with messages := rest }).setPc t (.recvDup call wake copy))
  | recvDup {t call wake copy} (ht : w.threads[t]? = some (.recvDup call wake copy)) :
      Trans w ((w.setStore (copy.dupIfok w.store).2).setPc t
        (.recvSub call wake (copy.dupIfok w.store).1))
  | recvSub {t call wake msg} (ht : w.threads[t]? = some (.recvSub call wake msg)) :
      Trans w ((w.setEp (w.ep.fetchSub (msg.cap w.store))).setPc t (.recvEnd call wake msg))
  | took {t call wake msg} {st : Store} (ht : w.threads[t]? = some (.recvEnd call wake msg))
      (hmsg : msg.receivable w.store = true)
      (hst : ∀ f, st.valid f = true → w.store.valid f = true) :
      Trans w ((w.setStore st).setPc t call.done)
  | discard {t call wake msg} (ht : w.threads[t]? = some (.recvEnd call wake msg))
      (hmsg : msg.receivable w.store = false) : Trans w (w.setPc t (.recvGet call wake))
  | noMessages {t wake} (ht : w.threads[t]? = some (.recvNone .recv wake)) :
      Trans w (w.setPc t .idle)
  | expired {t} (ht : w.threads[t]? = some (.recvNone .recvorblock .timedOut)) :
      Trans w (w.setPc t .unlock)
  | sleep {t call wake} (ht : w.threads[t]? = some (.recvNone call wake)) (hcall : call ≠ .recv) :
      Trans w ((w.setLock none).setPc t (.sleeping call))
  | unlock {t} (ht : w.threads[t]? = some .unlock) : Trans w ((w.setLock none).setPc t .idle)
  | relock {t call wake} (ht : w.threads[t]? = some (.woken call wake)) (hl : w.waitmutex = none) :
      Trans w ((w.setLock (some t)).setPc t (.recvGet call wake))
  | timeout {t call} (ht : w.threads[t]? = some (.sleeping call)) :
      Trans w (w.setPc t (.woken call .timedOut))
  | spurious {t call} (ht : w.threads[t]? = some (.sleeping call)) :
      Trans w (w.setPc t (.woken call .spurious))

theorem start_eq_some {w w' : World} {t : ℕ} {pc : Pc} :
    w.start t pc = some w' ↔ w.threads[t]? = some .idle ∧ w.setPc t pc = w' := by
  unfold start
  split <;> simp_all

theorem wakeUp_eq_some {w w' : World} {j : ℕ} {wake : Wake} (h : w.wakeUp j wake = some w') :
    ∃ call, w.threads[j]? = some (.sleeping call) ∧ w' = w.setPc j (.woken call wake) := by
  unfold wakeUp at h
  split at h
  · rename_i call hj
    exact ⟨call, hj, (Option.some.inj h).symm⟩
  · cases h

theorem takeasvalid_le (st : Store) (s : SyncMessage) (f : ℕ)
    (h : (st.takeasvalid s).2.valid f = true) : st.valid f = true := by
  unfold Store.takeasvalid at h
  split at h
  · simp only [Function.update_apply] at h
    split at h
    · cases h
    · exact h
  · exact h

theorem advance_trans {w w' : World} {t : ℕ} {pc : Pc} (ht : w.threads[t]? = some pc)
    (h : w.advance t pc = some w') : Trans w w' := by
  cases pc with
  | idle => cases h
  | giveTest m =>
    rw [advance] at h
    split at h
    · cases h
      exact .accept ht
    · cases h
      exact .refuse ht
  | giveLock m =>
    rw [advance] at h
    split at h
    · rename_i hl
      cases h
      exact .giveLock ht hl
    · cases h
  | givePut m =>
    rw [advance, Message.giveClone_eq] at h
    cases h
    exact .put ht
  | giveAdd m =>
    cases h
    exact .add ht
  | giveNotify =>
    rw [advance] at h
    split at h
    · cases h
    · rename_i hnone
      cases h
      exact .notifyLost ht (Bool.eq_false_iff.mpr hnone)
  | recvLock call =>
    rw [advance] at h
    split at h
    · rename_i hl
      cases h
      exact .recvLock ht hl
    · cases h
  | recvGet call wake =>
    rw [advance] at h
    cases hq : w.ep.messages with
    | nil =>
      rw [hq] at h
      cases h
      exact .recvNone ht hq
    | cons copy rest =>
      rw [hq] at h
      cases h
      exact .recvGet ht hq
  | recvDup call wake copy =>
    cases h
    exact .recvDup ht
  | recvSub call wake msg =>
    cases h
    exact .recvSub ht
  | recvEnd call wake msg =>
    rw [advance] at h
    cases hp : msg.payload with
    | raw r =>
      rw [hp] at h
      simp only [Message.dup_raw (Message.isRaw_of_payload hp)] at h
      cases h
      exact .took ht (by simp [Message.receivable, Message.flag, hp]) (fun _ hf => hf)
    | sync s =>
      have hmsg : msg.receivable w.store = w.store.valid s.valid := by
        simp [Message.receivable, Message.flag, hp]
      rw [hp] at h
      have hle := takeasvalid_le w.store s
      simp only [Store.takeasvalid] at h hle
      by_cases hv : w.store.valid s.valid = true
      · simp only [if_pos hv] at h hle
        cases h
        exact .took ht (hmsg.trans hv) hle
      · simp only [if_neg hv] at h
        cases h
        exact .discard ht (hmsg.trans (Bool.eq_false_iff.mpr hv))
    | clone c =>
      rw [hp] at h
      cases h
      exact .took ht (by simp [Message.receivable, Message.flag, hp]) (fun _ hf => hf)
  | recvNone call wake =>
    cases call with
    | recv =>
      cases h
      exact .noMessages ht
    | recvorblock =>
      cases wake with
      | timedOut =>
        cases h
        exact .expired ht
      | _ =>
        cases h
        exact .sleep ht (by decide)
    | recvorblockforever =>
      cases h
      exact .sleep ht (by decide)
  | unlock =>
    cases h
    exact .unlock ht
  | sleeping call => cases h
  | woken call wake =>
    rw [advance] at h
    split at h
    · rename_i hl
      cases h
      exact .relock ht hl
    · cases h

/-- **Inversion of a step.** -/
theorem step_trans {w w' : World} {a : Act} (h : w.step a = some w') : Trans w w' := by
  cases a with
  | give t m =>
    obtain ⟨ht, rfl⟩ := start_eq_some.mp h
    exact .startGive ht
  | recv t call =>
    cases call with
    | recv =>
      obtain ⟨ht, rfl⟩ := start_eq_some.mp h
      exact .startRecv ht
    | _ =>
      obtain ⟨ht, rfl⟩ := start_eq_some.mp h
      exact .startBlocking ht (by decide)
  | step t =>
    obtain ⟨pc, ht, h⟩ := Option.bind_eq_some_iff.mp h
    exact advance_trans ht h
  | notify t j =>
    rw [step] at h
    split at h
    · rename_i ht
      obtain ⟨call, hj, rfl⟩ := wakeUp_eq_some h
      exact .notify ht hj
    · cases h
  | timeout j =>
    rw [step] at h
    split at h
    · obtain ⟨call, hj, rfl⟩ := wakeUp_eq_some h
      exact .timeout hj
    · cases h
  | spurious j =>
    obtain ⟨call, hj, rfl⟩ := wakeUp_eq_some h
    exact .spurious hj
  | takeasvalid s =>
    cases h
    exact .outside rfl (takeasvalid_le w.store s)
  | setAddress address =>
    cases h
    exact @Trans.outside w { w.ep with address := address } w.store rfl (fun _ hf => hf)
  | setLimits limitpending limitmemory =>
    cases h
    exact @Trans.outside w
      { w.ep with limitpending := limitpending, limitmemory := limitmemory } w.store rfl
      (fun _ hf => hf)

end World

end WaterNet.Blocking
