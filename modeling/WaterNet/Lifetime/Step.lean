import WaterNet.Lib.Machine
import WaterNet.Endpoint

/-!
# Lifetimes of endpoints: handles made, cloned, dropped and snapshot by any number of threads

Each thread is at a program point `Pc` inside one call of `Net::new_endpoint`,
`Net::new_endpoint_withid`, `Endpoint::clone`, `Endpoint::drop` or `Net::send`; one action moves
one thread by one atomic step of it, or lets an idle thread start a call.

* `World.step` — the machine; `World.advance` is one atomic step of a thread inside a call;
* `dropEndpoint_eq` — the search of `drop_endpoint` in closed form, with the panic it contains;
* `Trans`, `step_trans` — **inversion**: what one step can do, with the guards it passed.

A drop borrows nothing and uses the handle up, so a handle that a clone is being made of cannot be
dropped; `mayDrop` asks for less, that some handle stays while any clone is being made.  `refcnt`
counts handles, each of which takes up memory, so it is a natural number.
-/

namespace WaterNet.Lifetime

open Endpoint (AddressData)

/-- `endpoint::Internal`, as far as handles go. -/
structure Internal where
  address : AddressData
  refcnt : ℕ
  dropped : Bool
  deriving DecidableEq, Repr

/-- `Endpoint::new`. -/
def Internal.new (sid eid : ID) : Internal :=
  { address := (Endpoint.new sid eid).address, refcnt := 1, dropped := false }

/-- An endpoint with the number of handles user code has, and, as a history variable, the number
of calls of `drop_endpoint` for it. -/
structure Slot extends Internal where
  user : ℕ
  entered : ℕ
  deriving DecidableEq, Repr

/-- Where a thread is.  A drop has a list of handles to drop after it, and is `nested` if it is the
drop of the handle that `drop_endpoint` takes out of the list. -/
inductive Pc where
  | idle
  | newLock (eid : Option ID)
  /-- the net locked, the endpoint not yet made -/
  | newMake (eid : Option ID)
  | newClone (e : EpId)
  | newPush (e : EpId)
  | newUnlock (e : EpId)
  | cloneAdd (e : EpId)
  | cloneDone (e : EpId)
  | dropSub (nested : Bool) (e : EpId) (rest : List EpId)
  /-- the count seen was 1 -/
  | dropCas (nested : Bool) (e : EpId) (rest : List EpId)
  /-- `drop_endpoint` entered, the net not yet locked -/
  | dropLock (nested : Bool) (e : EpId) (rest : List EpId)
  | dropFind (e : EpId) (rest : List EpId)
  | dropUnlock (rest : List EpId)
  | sendLock
  /-- in the clone of the endpoint list: what is still to be cloned, and the clones -/
  | sendClone (todo snap : List EpId)
  /-- the net unlocked, the message not yet given to the clones -/
  | sendGive (snap : List EpId)
  /-- `drop_endpoint` has panicked -/
  | panicked (e : EpId) (rest : List EpId)
  deriving DecidableEq, Repr

structure World where
  sid : ID
  hueid : ID
  endpoints : List EpId
  /-- the thread that holds the net's mutex -/
  lock : Option ℕ
  eps : EpId → Slot
  /-- the next unused identity -/
  next : EpId
  threads : List Pc

inductive Act where
  /-- `Net::new_endpoint`, or `Net::new_endpoint_withid` with an id -/
  | newEndpoint (t : ℕ) (eid : Option ID)
  | clone (t : ℕ) (e : EpId)
  | drop (t : ℕ) (e : EpId)
  | send (t : ℕ)
  | step (t : ℕ)
  deriving DecidableEq, Repr

/-! ### The search of `drop_endpoint` -/

/-- The loop of `Net::drop_endpoint`: the index of `thisep` and whether it was found; `none` is
the panic at a second one. -/
def findLoop (thisep : EpId) : List EpId → ℕ → ℕ → Bool → Option (ℕ × Bool)
  | [], _, ndx, fnd => some (ndx, fnd)
  | e :: rest, i, ndx, fnd =>
    if e = thisep then
      if fnd then none else findLoop thisep rest (i + 1) i true
    else findLoop thisep rest (i + 1) ndx fnd

/-- `Net::drop_endpoint` under the lock: the handle it takes out of the list, if any, and the list
that is left. -/
def dropEndpoint (thisep : EpId) (endpoints : List EpId) : Option (Option EpId × List EpId) := do
  let (ndx, fnd) ← findLoop thisep endpoints 0 0 false
  if fnd then do
    let ep ← endpoints[ndx]?
    some (some ep, endpoints.eraseIdx ndx)
  else some (none, endpoints)

theorem findLoop_found (thisep : EpId) (es : List EpId) (i ndx : ℕ) :
    findLoop thisep es i ndx true = if thisep ∈ es then none else some (ndx, true) := by
  induction es generalizing i with
  | nil => rfl
  | cons e es ih =>
    rw [findLoop]
    by_cases he : e = thisep
    · simp [he]
    · rw [if_neg he, ih]
      simp [Ne.symm he]

theorem findLoop_eq (thisep : EpId) (es : List EpId) (i ndx : ℕ) :
    findLoop thisep es i ndx false =
      if 2 ≤ es.count thisep then none
      else if thisep ∈ es then some (i + es.idxOf thisep, true) else some (ndx, false) := by
  induction es generalizing i with
  | nil => rfl
  | cons e es ih =>
    rw [findLoop]
    by_cases he : e = thisep
    · subst he
      rw [if_pos rfl, if_neg Bool.false_ne_true, findLoop_found, List.count_cons_self]
      by_cases hmem : e ∈ es
      · have := List.count_pos_iff.mpr hmem
        rw [if_pos hmem, if_pos (by omega)]
      · rw [if_neg hmem, List.count_eq_zero.mpr hmem]
        simp
    · rw [if_neg he, ih, List.count_cons_of_ne he, List.idxOf_cons_ne _ he]
      simp only [List.mem_cons, Ne.symm he, false_or]
      rw [show i + 1 + es.idxOf thisep = i + (es.idxOf thisep + 1) from by omega]

/-- **The search and removal in closed form.** -/
theorem dropEndpoint_eq (thisep : EpId) (es : List EpId) :
    dropEndpoint thisep es =
      if 2 ≤ es.count thisep then none
      else if thisep ∈ es then some (some thisep, es.erase thisep) else some (none, es) := by
  unfold dropEndpoint
  rw [findLoop_eq]
  by_cases h2 : 2 ≤ es.count thisep
  · rw [if_pos h2, if_pos h2]
    rfl
  · rw [if_neg h2, if_neg h2]
    by_cases hmem : thisep ∈ es
    · rw [if_pos hmem, if_pos hmem, Nat.zero_add, List.erase_eq_eraseIdx_of_idxOf rfl]
      simp [List.getElem?_idxOf hmem]
    · rw [if_neg hmem, if_neg hmem]
      rfl

/-! ### The machine -/

/-- Where a thread goes that has these handles left to drop. -/
def Pc.dropAll : List EpId → Pc
  | [] => .idle
  | e :: rest => .dropSub false e rest

/-- Where a drop returns to. -/
def Pc.afterDrop (nested : Bool) (rest : List EpId) : Pc :=
  if nested then .dropUnlock rest else .dropAll rest

/-- The thread is in `Endpoint::clone` of `e`. -/
def Pc.borrows (e : EpId) : Pc → Bool
  | .cloneAdd e' => e' == e
  | .cloneDone e' => e' == e
  | _ => false

namespace World

@[simp] def setPc (w : World) (t : ℕ) (pc : Pc) : World := { w with threads := w.threads.set t pc }

@[simp] def setEp (w : World) (e : EpId) (ep : Slot) : World :=
  { w with eps := Function.update w.eps e ep }

@[simp] def setLock (w : World) (lock : Option ℕ) : World := { w with lock := lock }

/-- `refcnt.fetch_add(1)`. -/
@[simp] def fetchAdd (w : World) (e : EpId) : World :=
  w.setEp e { w.eps e with refcnt := (w.eps e).refcnt + 1 }

/-- `refcnt.fetch_sub(1)`. -/
@[simp] def fetchSub (w : World) (e : EpId) : World :=
  w.setEp e { w.eps e with refcnt := (w.eps e).refcnt - 1 }

/-- User code has one handle more. -/
@[simp] def handOut (w : World) (e : EpId) : World :=
  w.setEp e { w.eps e with user := (w.eps e).user + 1 }

/-- The endpoint `new_endpoint` or `new_endpoint_withid` makes, and the `hueid` it leaves. -/
def makeEp (w : World) : Option ID → Internal × ID
  | none => (.new w.sid w.hueid, w.hueid + 1)
  | some eid => (.new w.sid eid, if eid > w.hueid then eid + 1 else w.hueid)

/-- The allocation of the new endpoint. -/
@[simp] def alloc (w : World) (eid : Option ID) : World :=
  { w.setEp w.next { (w.makeEp eid).1 with user := 0, entered := 0 } with
    hueid := (w.makeEp eid).2, next := w.next + 1 }

/-- One atomic step of the thread `t`, which is at `pc`. -/
def advance (w : World) (t : ℕ) : Pc → Option World
  | .idle => none
  | .newLock eid =>
    if w.lock = none then some ((w.setLock (some t)).setPc t (.newMake eid)) else none
  | .newMake eid => some ((w.alloc eid).setPc t (.newClone w.next))
  | .newClone e => some ((w.fetchAdd e).setPc t (.newPush e))
  | .newPush e => some ({ w with endpoints := w.endpoints ++ [e] }.setPc t (.newUnlock e))
  | .newUnlock e => some (((w.setLock none).handOut e).setPc t .idle)
  | .cloneAdd e => some ((w.fetchAdd e).setPc t (.cloneDone e))
  | .cloneDone e => some ((w.handOut e).setPc t .idle)
  | .dropSub nested e rest =>
    let refcnt := (w.eps e).refcnt - 1
    some ((w.fetchSub e).setPc t
      (if refcnt = 1 then .dropCas nested e rest else .afterDrop nested rest))
  | .dropCas nested e rest =>
    if (w.eps e).dropped then some (w.setPc t (.afterDrop nested rest))
    else some ((w.setEp e { w.eps e with
      dropped := true, entered := (w.eps e).entered + 1 }).setPc t (.dropLock nested e rest))
  | .dropLock _ e rest =>
    -- the nested call would wait for the lock its own thread holds
    if w.lock = none then some ((w.setLock (some t)).setPc t (.dropFind e rest)) else none
  | .dropFind e rest =>
    match dropEndpoint e w.endpoints with
    | none => some (w.setPc t (.panicked e rest))
    | some (none, _) => some (w.setPc t (.dropUnlock rest))
    | some (some ep, endpoints) =>
      some ({ w with endpoints := endpoints }.setPc t (.dropSub true ep rest))
  | .dropUnlock rest => some ((w.setLock none).setPc t (.dropAll rest))
  | .sendLock =>
    if w.lock = none then some ((w.setLock (some t)).setPc t (.sendClone w.endpoints [])) else none
  | .sendClone [] snap => some ((w.setLock none).setPc t (.sendGive snap))
  | .sendClone (e :: todo) snap => some ((w.fetchAdd e).setPc t (.sendClone todo (snap ++ [e])))
  | .sendGive snap => some (w.setPc t (.dropAll snap))
  | .panicked _ _ => none

/-- A handle may be dropped if one is left for the clones being made. -/
def mayDrop (w : World) (e : EpId) : Bool :=
  if w.threads.any (Pc.borrows e) then 1 < (w.eps e).user else 0 < (w.eps e).user

/-- A call can be started by a thread that is in none. -/
def start (w : World) (t : ℕ) (pc : Pc) : Option World :=
  if w.threads[t]? = some .idle then some (w.setPc t pc) else none

def step (w : World) : Act → Option World
  | .newEndpoint t eid => w.start t (.newLock eid)
  | .clone t e => if 0 < (w.eps e).user then w.start t (.cloneAdd e) else none
  | .drop t e =>
    if w.mayDrop e then
      (w.setEp e { w.eps e with user := (w.eps e).user - 1 }).start t (.dropSub false e [])
    else none
  | .send t => w.start t .sendLock
  | .step t => (w.threads[t]?).bind (w.advance t)

/-- `Net::new` and `n` idle threads. -/
def init (sid : ID) (n : ℕ) : World :=
  { sid := sid, hueid := 0x10000, endpoints := [], lock := none
    eps := fun _ => { address := ⟨0, 0, 0⟩, refcnt := 0, dropped := false, user := 0, entered := 0 }
    next := 0, threads := List.replicate n .idle }

/-! ### Inversion -/

/-- **What one step can do.**  One constructor for each atomic step, with what is known there. -/
inductive Trans (w : World) : World → Prop where
  | startNew {t eid} (ht : w.threads[t]? = some .idle) : Trans w (w.setPc t (.newLock eid))
  | startClone {t e} (ht : w.threads[t]? = some .idle) (hu : 0 < (w.eps e).user) :
      Trans w (w.setPc t (.cloneAdd e))
  | startDrop {t e} (ht : w.threads[t]? = some .idle) (hmay : w.mayDrop e = true) :
      Trans w ((w.setEp e { w.eps e with user := (w.eps e).user - 1 }).setPc t (.dropSub false e []))
  | startSend {t} (ht : w.threads[t]? = some .idle) : Trans w (w.setPc t .sendLock)
  | newLock {t eid} (ht : w.threads[t]? = some (.newLock eid)) (hl : w.lock = none) :
      Trans w ((w.setLock (some t)).setPc t (.newMake eid))
  | newMake {t eid} (ht : w.threads[t]? = some (.newMake eid)) :
      Trans w ((w.alloc eid).setPc t (.newClone w.next))
  | newClone {t e} (ht : w.threads[t]? = some (.newClone e)) :
      Trans w ((w.fetchAdd e).setPc t (.newPush e))
  | newPush {t e} (ht : w.threads[t]? = some (.newPush e)) :
      Trans w ({ w with endpoints := w.endpoints ++ [e] }.setPc t (.newUnlock e))
  | newUnlock {t e} (ht : w.threads[t]? = some (.newUnlock e)) :
      Trans w (((w.setLock none).handOut e).setPc t .idle)
  | cloneAdd {t e} (ht : w.threads[t]? = some (.cloneAdd e)) :
      Trans w ((w.fetchAdd e).setPc t (.cloneDone e))
  | cloneDone {t e} (ht : w.threads[t]? = some (.cloneDone e)) :
      Trans w ((w.handOut e).setPc t .idle)
  | sub {t nested e rest} (ht : w.threads[t]? = some (.dropSub nested e rest))
      (hne : (w.eps e).refcnt - 1 ≠ 1) :
      Trans w ((w.fetchSub e).setPc t (.afterDrop nested rest))
  | subToOne {t nested e rest} (ht : w.threads[t]? = some (.dropSub nested e rest))
      (heq : (w.eps e).refcnt - 1 = 1) :
      Trans w ((w.fetchSub e).setPc t (.dropCas nested e rest))
  | casLost {t nested e rest} (ht : w.threads[t]? = some (.dropCas nested e rest))
      (hd : (w.eps e).dropped = true) : Trans w (w.setPc t (.afterDrop nested rest))
  | casWon {t nested e rest} (ht : w.threads[t]? = some (.dropCas nested e rest))
      (hd : (w.eps e).dropped = false) :
      Trans w ((w.setEp e { w.eps e with
        dropped := true, entered := (w.eps e).entered + 1 }).setPc t (.dropLock nested e rest))
  | dropLock {t nested e rest} (ht : w.threads[t]? = some (.dropLock nested e rest))
      (hl : w.lock = none) : Trans w ((w.setLock (some t)).setPc t (.dropFind e rest))
  | panic {t e rest} (ht : w.threads[t]? = some (.dropFind e rest))
      (htwo : 2 ≤ w.endpoints.count e) : Trans w (w.setPc t (.panicked e rest))
  | absent {t e rest} (ht : w.threads[t]? = some (.dropFind e rest)) (he : e ∉ w.endpoints) :
      Trans w (w.setPc t (.dropUnlock rest))
  | remove {t e rest} (ht : w.threads[t]? = some (.dropFind e rest)) (he : e ∈ w.endpoints) :
      Trans w ({ w with endpoints := w.endpoints.erase e }.setPc t (.dropSub true e rest))
  | dropUnlock {t rest} (ht : w.threads[t]? = some (.dropUnlock rest)) :
      Trans w ((w.setLock none).setPc t (.dropAll rest))
  | sendLock {t} (ht : w.threads[t]? = some .sendLock) (hl : w.lock = none) :
      Trans w ((w.setLock (some t)).setPc t (.sendClone w.endpoints []))
  | sendCloned {t snap} (ht : w.threads[t]? = some (.sendClone [] snap)) :
      Trans w ((w.setLock none).setPc t (.sendGive snap))
  | sendClone {t e todo snap} (ht : w.threads[t]? = some (.sendClone (e :: todo) snap)) :
      Trans w ((w.fetchAdd e).setPc t (.sendClone todo (snap ++ [e])))
  | sendGive {t snap} (ht : w.threads[t]? = some (.sendGive snap)) :
      Trans w (w.setPc t (.dropAll snap))

theorem start_eq_some {w w' : World} {t : ℕ} {pc : Pc} :
    w.start t pc = some w' ↔ w.threads[t]? = some .idle ∧ w.setPc t pc = w' := by
  unfold start
  split <;> simp_all

theorem advance_trans {w w' : World} {t : ℕ} {pc : Pc} (ht : w.threads[t]? = some pc)
    (h : w.advance t pc = some w') : Trans w w' := by
  cases pc with
  | idle => cases h
  | newLock eid =>
    rw [advance] at h
    split at h
    · rename_i hl
      cases h
      exact .newLock ht hl
    · cases h
  | newMake eid =>
    cases h
    exact .newMake ht
  | newClone e =>
    cases h
    exact .newClone ht
  | newPush e =>
    cases h
    exact .newPush ht
  | newUnlock e =>
    cases h
    exact .newUnlock ht
  | cloneAdd e =>
    cases h
    exact .cloneAdd ht
  | cloneDone e =>
    cases h
    exact .cloneDone ht
  | dropSub nested e rest =>
    cases h
    split
    · rename_i heq
      exact .subToOne ht heq
    · rename_i hne
      exact .sub ht hne
  | dropCas nested e rest =>
    rw [advance] at h
    split at h
    · rename_i hd
      cases h
      exact .casLost ht hd
    · rename_i hd
      cases h
      exact .casWon ht (Bool.eq_false_iff.mpr hd)
  | dropLock nested e rest =>
    rw [advance] at h
    split at h
    · rename_i hl
      cases h
      exact .dropLock ht hl
    · cases h
  | dropFind e rest =>
    rw [advance, dropEndpoint_eq] at h
    by_cases htwo : 2 ≤ w.endpoints.count e
    · rw [if_pos htwo] at h
      cases h
      exact .panic ht htwo
    · rw [if_neg htwo] at h
      by_cases he : e ∈ w.endpoints
      · rw [if_pos he] at h
        cases h
        exact .remove ht he
      · rw [if_neg he] at h
        cases h
        exact .absent ht he
  | dropUnlock rest =>
    cases h
    exact .dropUnlock ht
  | sendLock =>
    rw [advance] at h
    split at h
    · rename_i hl
      cases h
      exact .sendLock ht hl
    · cases h
  | sendClone todo snap =>
    cases todo with
    | nil =>
      cases h
      exact .sendCloned ht
    | cons e todo =>
      cases h
      exact .sendClone ht
  | sendGive snap =>
    cases h
    exact .sendGive ht
  | panicked e rest => cases h

/-- **Inversion of a step.** -/
theorem step_trans {w w' : World} {a : Act} (h : w.step a = some w') : Trans w w' := by
  cases a with
  | newEndpoint t eid =>
    obtain ⟨ht, rfl⟩ := start_eq_some.mp h
    exact .startNew ht
  | clone t e =>
    rw [step] at h
    split at h
    · rename_i hu
      obtain ⟨ht, rfl⟩ := start_eq_some.mp h
      exact .startClone ht hu
    · cases h
  | drop t e =>
    rw [step] at h
    split at h
    · rename_i hmay
      obtain ⟨ht, rfl⟩ := start_eq_some.mp h
      exact .startDrop ht hmay
    · cases h
  | send t =>
    obtain ⟨ht, rfl⟩ := start_eq_some.mp h
    exact .startSend ht
  | step t =>
    obtain ⟨pc, ht, h⟩ := Option.bind_eq_some_iff.mp h
    exact advance_trans ht h

end World

end WaterNet.Lifetime
