import Mathlib.Data.List.Nodup
import WaterNet.Lifetime.Step

/-!
# One thread and the mutex of a net

The calls of one thread, run without interruption, with the mutex of the net: a call that locks it
while its own thread holds it never returns.  `Net::drop_endpoint` takes a handle out of the list
under the lock, and the drop of that handle is a call of `Net::drop_endpoint` in its turn if it
leaves one handle and nobody has set `dropped` before.  What does not return, or panics, is a
`Fault`.

* `dropHandle`, `dropEndpoint`, `newEndpoint`, `send` — the calls;
* `Inv` — between the calls the count of an endpoint is the number of its handles, and a listed
  endpoint has a handle besides;
* `Inv.drop`, `Inv.dropEndpoint`, `Inv.dropEndpoint_deadlock`, `Inv.send_eq` — what the calls do then;
* `no_relock_iff` — **the mutex is never locked twice exactly if nobody calls `drop_endpoint` on a
  listed endpoint with the only handle there is**;
* `not_no_relock` — that call, on a new endpoint.
-/

namespace WaterNet.Lifetime.Locking

open WaterNet.Lib.Machine (run StepsMeet run_invariant run_all_iff)

/-- Why a thread stops. -/
inductive Fault where
  /-- it locks the mutex that it holds -/
  | deadlock
  /-- `drop_endpoint` finds an endpoint twice -/
  | panic
  /-- more drops inside each other than `nesting` -/
  | nesting
  deriving DecidableEq, Repr

/-- The net and its endpoints; `user` are the handles that user code has. -/
structure State where
  sid : ID
  hueid : ID
  endpoints : List EpId
  locked : Bool
  eps : EpId → Internal
  user : EpId → ℕ
  /-- the next unused identity -/
  next : EpId

namespace State

/-! ### The calls -/

def lock (s : State) : Except Fault State :=
  if s.locked then .error .deadlock else .ok { s with locked := true }

def unlock (s : State) : State := { s with locked := false }

def setEp (s : State) (e : EpId) (ep : Internal) : State :=
  { s with eps := Function.update s.eps e ep }

/-- `refcnt.fetch_add(1)`, which is `Endpoint::clone`. -/
def fetchAdd (s : State) (e : EpId) : State :=
  s.setEp e { s.eps e with refcnt := (s.eps e).refcnt + 1 }

/-- `refcnt.fetch_sub(1)`. -/
def fetchSub (s : State) (e : EpId) : State :=
  s.setEp e { s.eps e with refcnt := (s.eps e).refcnt - 1 }

/-- `Net::drop_endpoint`, where `drop` is the drop of a handle. -/
def dropEndpointWith (drop : State → EpId → Except Fault State) (s : State) (thisep : EpId) :
    Except Fault State := do
  let s ← s.lock
  match Lifetime.dropEndpoint thisep s.endpoints with
  | none => .error .panic
  | some (none, _) => .ok s.unlock
  | some (some ep, endpoints) => do
    let s ← drop { s with endpoints := endpoints } ep
    .ok s.unlock

/-- `Endpoint::drop`, with at most so many drops inside each other. -/
def dropHandle : ℕ → State → EpId → Except Fault State
  | 0, _, _ => .error .nesting
  | n + 1, s, e =>
    let refcnt := (s.eps e).refcnt - 1
    let s := s.fetchSub e
    if refcnt = 1 ∧ (s.eps e).dropped = false then
      dropEndpointWith (dropHandle n) (s.setEp e { s.eps e with dropped := true }) e
    else .ok s

/-- More than the mutex lets happen. -/
def nesting : ℕ := 2

/-- `Net::drop_endpoint`. -/
def dropEndpoint (s : State) (thisep : EpId) : Except Fault State :=
  dropEndpointWith (dropHandle nesting) s thisep

/-- What `Net::new_endpoint` and `Net::new_endpoint_withid` do with the id they found. -/
def makeEndpoint (s : State) (eid hueid : ID) : EpId × State :=
  let ep := s.next
  let s := { s.setEp ep (.new s.sid eid) with hueid := hueid, next := ep + 1 }
  let s := s.fetchAdd ep
  (ep, { s with endpoints := s.endpoints ++ [ep] }.unlock)

/-- `Net::new_endpoint`. -/
def newEndpoint (s : State) : Except Fault (EpId × State) := do
  let s ← s.lock
  .ok (s.makeEndpoint s.hueid (s.hueid + 1))

/-- `Net::new_endpoint_withid`. -/
def newEndpointWithid (s : State) (eid : ID) : Except Fault (EpId × State) := do
  let s ← s.lock
  .ok (s.makeEndpoint eid (if eid > s.hueid then eid + 1 else s.hueid))

/-- `Net::send`: it gives the message to clones of the listed handles, which `give` leaves alone. -/
def send (s : State) : Except Fault State := do
  let s ← s.lock
  let clones := s.endpoints
  let s := (clones.foldl fetchAdd s).unlock
  clones.foldlM (dropHandle nesting) s

/-- `Net::getepcount`. -/
def getepcount (s : State) : Except Fault (ℕ × State) := do
  let s ← s.lock
  .ok (s.endpoints.length, s.unlock)

/-- `Net::get_neweid`. -/
def getNeweid (s : State) : Except Fault (ID × State) := do
  let s ← s.lock
  .ok (s.hueid, { s with hueid := s.hueid + 1 }.unlock)

/-- User code gets a handle. -/
def handOut (s : State) (e : EpId) : State :=
  { s with user := Function.update s.user e (s.user e + 1) }

/-- User code gives up a handle. -/
def handIn (s : State) (e : EpId) : State :=
  { s with user := Function.update s.user e (s.user e - 1) }

end State

/-- What the thread calls. -/
inductive Op where
  | newEndpoint
  | newEndpointWithid (eid : ID)
  | clone (e : EpId)
  | drop (e : EpId)
  | send
  | getepcount
  | getNeweid
  /-- `Net::drop_endpoint` on a handle that user code keeps -/
  | dropEndpoint (e : EpId)
  deriving DecidableEq, Repr

/-- A call; `none` is a call on an endpoint that user code has no handle of. -/
def State.call (s : State) : Op → Option (Except Fault State)
  | .newEndpoint => some (s.newEndpoint.map fun (ep, s) => s.handOut ep)
  | .newEndpointWithid eid => some ((s.newEndpointWithid eid).map fun (ep, s) => s.handOut ep)
  | .clone e => if 0 < s.user e then some (.ok ((s.fetchAdd e).handOut e)) else none
  | .drop e => if 0 < s.user e then some ((s.handIn e).dropHandle State.nesting e) else none
  | .send => some s.send
  | .getepcount => some (s.getepcount.map Prod.snd)
  | .getNeweid => some (s.getNeweid.map Prod.snd)
  | .dropEndpoint e => if 0 < s.user e then some (s.dropEndpoint e) else none

/-- The state after the calls that returned, and what the last call ran into, if it did not. -/
structure World where
  state : State
  fault : Option Fault

namespace World

/-- `Net::new`. -/
def init (sid : ID) : World where
  state :=
    { sid := sid, hueid := 0x10000, endpoints := [], locked := false
      eps := fun _ => { address := ⟨0, 0, 0⟩, refcnt := 0, dropped := false }
      user := fun _ => 0, next := 0 }
  fault := none

/-- After a fault the thread makes no call. -/
def step (w : World) (op : Op) : Option World :=
  if w.fault.isSome then none
  else (w.state.call op).map fun
    | .ok s => { state := s, fault := none }
    | .error f => { w with fault := some f }

/-- The call is no `drop_endpoint` of a listed endpoint by the only handle there is. -/
def othersHold (w : World) : Op → Bool
  | .dropEndpoint e => !(w.state.endpoints.contains e && w.state.user e == 1)
  | _ => true

end World

namespace State

/-! ### Between the calls -/

/-- **Between the calls**: the mutex is free, the count of an endpoint is the number of its handles,
a listed endpoint has a handle besides the listed one, and `dropped` is set of unlisted ones only. -/
structure Inv (s : State) : Prop where
  unlocked : s.locked = false
  nodup : s.endpoints.Nodup
  counted : ∀ e, (s.eps e).refcnt = s.user e + s.endpoints.count e
  held : ∀ e ∈ s.endpoints, 0 < s.user e
  dropped : ∀ e, (s.eps e).dropped = true → e ∉ s.endpoints
  fresh : ∀ e, s.next ≤ e → s.user e = 0

/-- The state with another endpoint `e`, another number of handles on it and another list. -/
def replace (s : State) (e : EpId) (ep : Internal) (user : ℕ) (endpoints : List EpId) : State :=
  { s with
    endpoints := endpoints, eps := Function.update s.eps e ep
    user := Function.update s.user e user }

namespace Inv

variable {s : State} {e : EpId}

theorem lt_next (h : s.Inv) (hu : 0 < s.user e) : e < s.next := by
  by_contra hge
  rw [h.fresh e (Nat.not_lt.mp hge)] at hu
  exact Nat.lt_irrefl 0 hu

/-- A change of one endpoint that keeps its count right. -/
theorem replace (h : s.Inv) (he : e < s.next) {ep : Internal} {user : ℕ} {endpoints : List EpId}
    (hnodup : endpoints.Nodup)
    (hother : ∀ e', e' ≠ e → endpoints.count e' = s.endpoints.count e')
    (hcounted : ep.refcnt = user + endpoints.count e) (hheld : e ∈ endpoints → 0 < user)
    (hdropped : ep.dropped = true → e ∉ endpoints) :
    (s.replace e ep user endpoints).Inv := by
  have hmem : ∀ e', e' ≠ e → (e' ∈ endpoints ↔ e' ∈ s.endpoints) := by
    intro e' hne
    rw [← List.count_pos_iff, hother e' hne, List.count_pos_iff]
  refine ⟨h.unlocked, hnodup, fun e' => ?_, fun e' he' => ?_, fun e' hd he' => ?_, fun e' hge => ?_⟩
  · by_cases heq : e' = e
    · simp only [State.replace, heq, Function.update_self]
      exact hcounted
    · simp only [State.replace, Function.update_of_ne heq, hother e' heq]
      exact h.counted e'
  · by_cases heq : e' = e
    · simp only [State.replace, heq, Function.update_self]
      exact hheld (heq ▸ he')
    · simp only [State.replace, Function.update_of_ne heq]
      exact h.held e' ((hmem e' heq).mp he')
  · by_cases heq : e' = e
    · simp only [State.replace, heq, Function.update_self] at hd
      exact hdropped hd (heq ▸ he')
    · simp only [State.replace, Function.update_of_ne heq] at hd
      exact h.dropped e' hd ((hmem e' heq).mp he')
  · have hge' : s.next ≤ e' := hge
    have hne : e' ≠ e := Nat.ne_of_gt (Nat.lt_of_lt_of_le he hge')
    simp only [State.replace, Function.update_of_ne hne]
    exact h.fresh e' hge'

/-- The count of a listed endpoint. -/
theorem refcnt_listed (h : s.Inv) (he : e ∈ s.endpoints) :
    (s.eps e).refcnt = s.user e + 1 ∧ (s.eps e).dropped = false := by
  refine ⟨?_, Bool.eq_false_iff.mpr fun hd => h.dropped e hd he⟩
  rw [h.counted, List.count_eq_one_of_mem h.nodup he]

/-- A listed endpoint is listed once. -/
theorem count_erase (h : s.Inv) (he : e ∈ s.endpoints) : (s.endpoints.erase e).count e = 0 := by
  rw [List.count_erase_self, List.count_eq_one_of_mem h.nodup he]

theorem refcnt_unlisted (h : s.Inv) (he : e ∉ s.endpoints) : (s.eps e).refcnt = s.user e := by
  rw [h.counted, List.count_eq_zero.mpr he, Nat.add_zero]

end Inv

/-! ### What the calls do -/

section Calls

variable {s : State} {e : EpId}

theorem lock_eq (h : s.locked = false) : s.lock = .ok { s with locked := true } := by
  rw [lock, h]
  rfl

/-- **The second lock.** -/
theorem lock_locked (h : s.locked = true) : s.lock = .error .deadlock := by
  rw [lock, h]
  rfl

theorem dropEndpointWith_locked (drop : State → EpId → Except Fault State)
    (h : s.locked = true) : dropEndpointWith drop s e = .error .deadlock := by
  rw [dropEndpointWith, lock_locked h]
  rfl

/-- `drop_endpoint` does nothing to an endpoint that is not listed. -/
theorem dropEndpointWith_unlisted (drop : State → EpId → Except Fault State)
    (h : s.locked = false) (he : e ∉ s.endpoints) : dropEndpointWith drop s e = .ok s := by
  have hfind : Lifetime.dropEndpoint e s.endpoints = some (none, s.endpoints) := by
    rw [dropEndpoint_eq, if_neg (by rw [List.count_eq_zero.mpr he]; decide), if_neg he]
  rw [dropEndpointWith, lock_eq h]
  show (match Lifetime.dropEndpoint e s.endpoints with
    | none => Except.error Fault.panic
    | some (none, _) => .ok { s with locked := false }
    | some (some ep, endpoints) => _) = _
  rw [hfind, ← h]

/-- `drop_endpoint` drops a listed handle under the lock. -/
theorem dropEndpointWith_listed (drop : State → EpId → Except Fault State) (h : s.locked = false)
    (hnodup : s.endpoints.Nodup) (he : e ∈ s.endpoints) :
    dropEndpointWith drop s e =
      (drop { s with locked := true, endpoints := s.endpoints.erase e } e).map unlock := by
  have hfind : Lifetime.dropEndpoint e s.endpoints = some (some e, s.endpoints.erase e) := by
    rw [dropEndpoint_eq, if_neg (by rw [List.count_eq_one_of_mem hnodup he]; decide), if_pos he]
  rw [dropEndpointWith, lock_eq h]
  show (match Lifetime.dropEndpoint e s.endpoints with
    | none => Except.error Fault.panic
    | some (none, _) => .ok { s with locked := false }
    | some (some ep, endpoints) => do
      let s ← drop { s with locked := true, endpoints := endpoints } ep
      .ok s.unlock) = _
  rw [hfind]
  show (drop { s with locked := true, endpoints := s.endpoints.erase e } e >>= fun s =>
    .ok s.unlock) = _
  cases drop { s with locked := true, endpoints := s.endpoints.erase e } e with
  | ok s' => rfl
  | error f => rfl

/-- A drop that does not leave one handle, or not for the first time. -/
theorem dropHandle_quiet (n : ℕ)
    (h : ¬((s.eps e).refcnt - 1 = 1 ∧ (s.eps e).dropped = false)) :
    s.dropHandle (n + 1) e = .ok (s.fetchSub e) := by
  rw [dropHandle]
  have hdropped : ((s.fetchSub e).eps e).dropped = (s.eps e).dropped := by
    simp only [fetchSub, setEp, Function.update_self]
  rw [hdropped, if_neg h]

/-- A drop that leaves one handle for the first time. -/
theorem dropHandle_last (n : ℕ) (hone : (s.eps e).refcnt - 1 = 1)
    (hdropped : (s.eps e).dropped = false) :
    s.dropHandle (n + 1) e =
      dropEndpointWith (fun s => s.dropHandle n) (s.setEp e ⟨(s.eps e).address, 1, true⟩) e := by
  have hsame : ((s.fetchSub e).eps e).dropped = (s.eps e).dropped := by
    simp only [fetchSub, setEp, Function.update_self]
  rw [dropHandle, hsame, if_pos ⟨hone, hdropped⟩]
  simp only [fetchSub, setEp, Function.update_self, Function.update_idem, hone]

end Calls

namespace Inv

variable {s : State} {e : EpId}

/-- A drop that tells nobody. -/
theorem drop_quiet (h : s.Inv) (hu : 0 < s.user e) (hlisted : e ∈ s.endpoints → 1 < s.user e)
    (hquiet : ¬((s.eps e).refcnt - 1 = 1 ∧ (s.eps e).dropped = false)) :
    ∃ s', (s.handIn e).dropHandle nesting e = .ok s' ∧ s'.Inv := by
  refine ⟨_, dropHandle_quiet 1 hquiet, ?_⟩
  have hcounted := h.counted e
  have heq : (s.handIn e).fetchSub e =
      s.replace e { s.eps e with refcnt := (s.eps e).refcnt - 1 } (s.user e - 1) s.endpoints := rfl
  rw [heq]
  refine h.replace (h.lt_next hu) h.nodup (fun e' _ => rfl) ?_ (fun he => ?_) (h.dropped e)
  · show (s.eps e).refcnt - 1 = _
    omega
  · have := hlisted he
    omega

/-- A drop that leaves one handle for the first time calls `drop_endpoint`. -/
theorem drop_last (s : State) {e : EpId} (hone : (s.eps e).refcnt - 1 = 1)
    (hdropped : (s.eps e).dropped = false) :
    (s.handIn e).dropHandle nesting e = dropEndpointWith (fun s => s.dropHandle 1)
      (s.replace e ⟨(s.eps e).address, 1, true⟩ (s.user e - 1) s.endpoints) e :=
  dropHandle_last (s := s.handIn e) 1 hone hdropped

/-- The drop of the last handle but the listed one takes that one out of the list. -/
theorem drop_listed (h : s.Inv) (he : e ∈ s.endpoints) (hone : s.user e = 1) :
    ∃ s', (s.handIn e).dropHandle nesting e = .ok s' ∧ s'.Inv := by
  obtain ⟨hrefcnt, hdropped⟩ := h.refcnt_listed he
  have hlast : (s.eps e).refcnt - 1 = 1 := by omega
  refine ⟨s.replace e ⟨(s.eps e).address, 0, true⟩ 0 (s.endpoints.erase e), ?_, ?_⟩
  · rw [drop_last s hlast hdropped]
    rw [dropEndpointWith_listed (s := s.replace e _ _ s.endpoints) _ h.unlocked h.nodup he]
    -- the listed handle is the last one of all, and its drop leaves none
    rw [dropHandle_quiet 0 (by simp only [State.replace, Function.update_self]; decide)]
    simp only [Except.map, unlock, fetchSub, setEp, State.replace, Function.update_self,
      Function.update_idem, h.unlocked, hone, Nat.sub_self]
  · have hnot : e ∉ s.endpoints.erase e := List.count_eq_zero.mp (h.count_erase he)
    refine h.replace (h.lt_next (by omega)) (h.nodup.erase e)
      (fun e' hne => List.count_erase_of_ne hne) ?_ (fun hmem => absurd hmem hnot) (fun _ => hnot)
    show 0 = 0 + _
    rw [h.count_erase he]

/-- The drop of the last handle but one of an endpoint that is not listed finds nothing. -/
theorem drop_unlisted (h : s.Inv) (he : e ∉ s.endpoints) (htwo : s.user e = 2)
    (hdropped : (s.eps e).dropped = false) :
    ∃ s', (s.handIn e).dropHandle nesting e = .ok s' ∧ s'.Inv := by
  have hlast : (s.eps e).refcnt - 1 = 1 := by rw [h.refcnt_unlisted he, htwo]
  refine ⟨s.replace e ⟨(s.eps e).address, 1, true⟩ (s.user e - 1) s.endpoints, ?_, ?_⟩
  · rw [drop_last s hlast hdropped]
    exact dropEndpointWith_unlisted (s := s.replace e _ _ s.endpoints) _ h.unlocked he
  · refine h.replace (h.lt_next (by omega)) h.nodup (fun e' _ => rfl) ?_
      (fun hmem => absurd hmem he) (fun _ => he)
    show 1 = s.user e - 1 + _
    rw [htwo, List.count_eq_zero.mpr he]

/-- **A drop** returns. -/
theorem drop (h : s.Inv) (hu : 0 < s.user e) :
    ∃ s', (s.handIn e).dropHandle nesting e = .ok s' ∧ s'.Inv := by
  by_cases he : e ∈ s.endpoints
  · obtain ⟨hrefcnt, hdropped⟩ := h.refcnt_listed he
    by_cases hone : s.user e = 1
    · exact h.drop_listed he hone
    · exact h.drop_quiet hu (fun _ => by omega) (by omega)
  · have hrefcnt := h.refcnt_unlisted he
    by_cases hlast : (s.eps e).refcnt - 1 = 1 ∧ (s.eps e).dropped = false
    · exact h.drop_unlisted he (by omega) hlast.2
    · exact h.drop_quiet hu (fun hmem => absurd hmem he) hlast

/-- **`drop_endpoint` with another handle left** returns. -/
theorem dropEndpoint (h : s.Inv) (hu : 0 < s.user e)
    (hother : ¬(e ∈ s.endpoints ∧ s.user e = 1)) : ∃ s', s.dropEndpoint e = .ok s' ∧ s'.Inv := by
  by_cases he : e ∈ s.endpoints
  · obtain ⟨hrefcnt, -⟩ := h.refcnt_listed he
    have hne : s.user e ≠ 1 := fun hone => hother ⟨he, hone⟩
    refine ⟨s.replace e { s.eps e with refcnt := (s.eps e).refcnt - 1 } (s.user e)
      (s.endpoints.erase e), ?_, ?_⟩
    · rw [State.dropEndpoint, dropEndpointWith_listed _ h.unlocked h.nodup he, nesting,
        dropHandle_quiet 1 (by simp only; omega)]
      simp only [Except.map, unlock, fetchSub, setEp, State.replace, Function.update_eq_self,
        h.unlocked]
    · have hcount := h.count_erase he
      refine h.replace (h.lt_next hu) (h.nodup.erase e)
        (fun e' hne => List.count_erase_of_ne hne) ?_ (fun _ => hu)
        (fun _ => List.count_eq_zero.mp hcount)
      show (s.eps e).refcnt - 1 = s.user e + _
      omega
  · exact ⟨s, dropEndpointWith_unlisted _ h.unlocked he, h⟩

/-- **`drop_endpoint` with the only handle** locks the mutex again: the drop of the listed handle
leaves one, for the first time. -/
theorem dropEndpoint_deadlock (h : s.Inv) (he : e ∈ s.endpoints) (hone : s.user e = 1) :
    s.dropEndpoint e = .error .deadlock := by
  obtain ⟨hrefcnt, hdropped⟩ := h.refcnt_listed he
  have hlast := dropHandle_last
    (s := { s with locked := true, endpoints := s.endpoints.erase e }) (e := e) 1
    (by show (s.eps e).refcnt - 1 = 1; omega) hdropped
  rw [dropEndpointWith_locked _ rfl] at hlast
  rw [State.dropEndpoint, dropEndpointWith_listed _ h.unlocked h.nodup he, nesting, hlast]
  rfl

end Inv

/-! ### Send -/

/-- Each endpoint with so many handles more. -/
def raised (s : State) (l : List EpId) : State :=
  { s with eps := fun e => { s.eps e with refcnt := (s.eps e).refcnt + l.count e } }

theorem fetchAdd_raised (s : State) (a : EpId) (l : List EpId) :
    (s.fetchAdd a).raised l = s.raised (a :: l) := by
  have heps : ((s.fetchAdd a).raised l).eps = (s.raised (a :: l)).eps := by
    funext e
    simp only [raised, fetchAdd, setEp]
    by_cases he : e = a
    · rw [he, Function.update_self, List.count_cons_self]
      simp only [Internal.mk.injEq, and_true, true_and]
      omega
    · rw [Function.update_of_ne he, List.count_cons_of_ne (Ne.symm he)]
  show { s with eps := ((s.fetchAdd a).raised l).eps } = { s with eps := (s.raised (a :: l)).eps }
  rw [heps]

theorem fetchSub_raised (s : State) (a : EpId) (l : List EpId) :
    (s.raised (a :: l)).fetchSub a = s.raised l := by
  have heps : ((s.raised (a :: l)).fetchSub a).eps = (s.raised l).eps := by
    funext e
    simp only [raised, fetchSub, setEp]
    by_cases he : e = a
    · rw [he, Function.update_self, List.count_cons_self]
      simp only [Internal.mk.injEq, and_true, true_and]
      omega
    · rw [Function.update_of_ne he, List.count_cons_of_ne (Ne.symm he)]
  show { s with eps := ((s.raised (a :: l)).fetchSub a).eps } = { s with eps := (s.raised l).eps }
  rw [heps]

theorem foldl_fetchAdd (s : State) (l : List EpId) : l.foldl fetchAdd s = s.raised l := by
  induction l generalizing s with
  | nil => rfl
  | cons a l ih => rw [List.foldl_cons, ih, fetchAdd_raised]

/-- The drops of clones of endpoints that have two handles besides. -/
theorem foldlM_dropHandle {s : State} {l : List EpId} (h : ∀ e ∈ l, 2 ≤ (s.eps e).refcnt) :
    l.foldlM (dropHandle nesting) (s.raised l) = .ok s := by
  induction l with
  | nil => rfl
  | cons a l ih =>
    have htwo := h a List.mem_cons_self
    have hquiet : ¬(((s.raised (a :: l)).eps a).refcnt - 1 = 1 ∧
        ((s.raised (a :: l)).eps a).dropped = false) := by
      rintro ⟨hone, -⟩
      simp only [raised, List.count_cons_self] at hone
      omega
    rw [List.foldlM_cons, nesting, dropHandle_quiet 1 hquiet, fetchSub_raised]
    exact ih fun e he => h e (List.mem_cons_of_mem a he)

/-- **A send** leaves the endpoints as they were. -/
theorem Inv.send_eq {s : State} (h : s.Inv) : s.send = .ok s := by
  have htwo : ∀ e ∈ s.endpoints, 2 ≤ (s.eps e).refcnt := by
    intro e he
    have := h.held e he
    rw [(h.refcnt_listed he).1]
    omega
  have hunlock : ({ s with locked := true }.raised s.endpoints).unlock = s.raised s.endpoints := by
    simp only [raised, unlock, h.unlocked]
  rw [send, lock_eq h.unlocked]
  show s.endpoints.foldlM (dropHandle nesting)
    (s.endpoints.foldl fetchAdd { s with locked := true }).unlock = _
  rw [foldl_fetchAdd, hunlock, foldlM_dropHandle htwo]

namespace Inv

variable {s : State} {e : EpId}

/-! ### The other calls -/

/-- A new endpoint is listed, and user code has the other handle. -/
theorem makeEndpoint (h : s.Inv) (eid hueid : ID) :
    let made := State.makeEndpoint { s with locked := true } eid hueid
    (made.2.handOut made.1).Inv := by
  have hzero : s.user s.next = 0 := h.fresh s.next (Nat.le_refl _)
  have hnew : s.next ∉ s.endpoints := by
    intro hmem
    have := h.held s.next hmem
    omega
  have hother : ∀ e, e ≠ s.next → (s.endpoints ++ [s.next]).count e = s.endpoints.count e := by
    intro e hne
    rw [List.count_append, List.count_singleton, if_neg (by simpa using Ne.symm hne), Nat.add_zero]
  have hroom : ({ s with hueid := hueid, next := s.next + 1 } : State).Inv :=
    ⟨h.unlocked, h.nodup, h.counted, h.held, h.dropped, fun e he => h.fresh e (Nat.le_of_lt he)⟩
  have hstate : (State.makeEndpoint { s with locked := true } eid hueid).2.handOut s.next =
      State.replace { s with hueid := hueid, next := s.next + 1 } s.next
        { Internal.new s.sid eid with refcnt := 2 } 1 (s.endpoints ++ [s.next]) := by
    simp only [State.makeEndpoint, handOut, unlock, fetchAdd, setEp, State.replace,
      Function.update_self, Function.update_idem, h.unlocked, hzero]
    rfl
  show ((State.makeEndpoint { s with locked := true } eid hueid).2.handOut s.next).Inv
  rw [hstate]
  refine hroom.replace (Nat.lt_succ_self _) ?_ hother ?_ (fun _ => Nat.one_pos) (fun hd => ?_)
  · rw [List.nodup_append]
    refine ⟨h.nodup, List.nodup_singleton _, fun e he e' he' heq => ?_⟩
    rw [List.mem_singleton.mp he'] at heq
    exact hnew (heq ▸ he)
  · show 2 = 1 + _
    rw [List.count_append, List.count_eq_zero.mpr hnew, List.count_singleton_self]
  · cases hd

theorem newEndpoint (h : s.Inv) :
    ∃ ep s', s.newEndpoint = .ok (ep, s') ∧ (s'.handOut ep).Inv := by
  refine ⟨_, _, ?_, h.makeEndpoint s.hueid (s.hueid + 1)⟩
  rw [State.newEndpoint, lock_eq h.unlocked]
  rfl

theorem newEndpointWithid (h : s.Inv) (eid : ID) :
    ∃ ep s', s.newEndpointWithid eid = .ok (ep, s') ∧ (s'.handOut ep).Inv := by
  refine ⟨_, _, ?_, h.makeEndpoint eid (if eid > s.hueid then eid + 1 else s.hueid)⟩
  rw [State.newEndpointWithid, lock_eq h.unlocked]
  rfl

theorem clone (h : s.Inv) (hu : 0 < s.user e) : ((s.fetchAdd e).handOut e).Inv := by
  have hcounted := h.counted e
  have hstate : (s.fetchAdd e).handOut e = s.replace e
      { s.eps e with refcnt := (s.eps e).refcnt + 1 } (s.user e + 1) s.endpoints := rfl
  rw [hstate]
  refine h.replace (h.lt_next hu) h.nodup (fun e' _ => rfl) ?_ (fun _ => Nat.succ_pos _)
    (h.dropped e)
  show (s.eps e).refcnt + 1 = s.user e + 1 + s.endpoints.count e
  omega

theorem getepcount_eq (h : s.Inv) : s.getepcount = .ok (s.endpoints.length, s) := by
  rw [getepcount, lock_eq h.unlocked]
  show Except.ok (s.endpoints.length, { s with locked := false }) = _
  rw [← h.unlocked]

theorem getNeweid (h : s.Inv) : ∃ s', s.getNeweid = .ok (s.hueid, s') ∧ s'.Inv := by
  refine ⟨{ s with hueid := s.hueid + 1, locked := false }, ?_,
    ⟨rfl, h.nodup, h.counted, h.held, h.dropped, h.fresh⟩⟩
  rw [State.getNeweid, lock_eq h.unlocked]
  rfl

end Inv

end State

namespace World

/-! ### Runs -/

/-- **Between the calls** of a thread that was not stopped. -/
structure Inv (w : World) : Prop where
  state : w.state.Inv
  fault : w.fault = none

theorem inv_init (sid : ID) : (init sid).Inv where
  state := by
    refine ⟨rfl, List.nodup_nil, fun _ => rfl, fun e he => ?_, fun e hd => ?_, fun _ _ => rfl⟩
    · cases he
    · cases hd
  fault := rfl

theorem step_of_fault_none {w : World} (h : w.fault = none) (op : Op) :
    w.step op = (w.state.call op).map fun
      | .ok s => { state := s, fault := none }
      | .error f => { w with fault := some f } := by
  rw [step, h]
  rfl

/-- **A call** with another handle left returns, and the invariant holds after it. -/
theorem call_ok {w : World} (h : w.state.Inv) {op : Op} (hothers : w.othersHold op = true)
    {r : Except Fault State} (hcall : w.state.call op = some r) : ∃ s', r = .ok s' ∧ s'.Inv := by
  cases op with
  | newEndpoint =>
    obtain ⟨ep, s', hnew, hinv⟩ := h.newEndpoint
    rw [State.call, hnew] at hcall
    cases hcall
    exact ⟨_, rfl, hinv⟩
  | newEndpointWithid eid =>
    obtain ⟨ep, s', hnew, hinv⟩ := h.newEndpointWithid eid
    rw [State.call, hnew] at hcall
    cases hcall
    exact ⟨_, rfl, hinv⟩
  | clone e =>
    obtain ⟨hu, hr⟩ := Option.ite_none_right_eq_some.mp hcall
    cases hr
    exact ⟨_, rfl, h.clone hu⟩
  | drop e =>
    obtain ⟨hu, hr⟩ := Option.ite_none_right_eq_some.mp hcall
    cases hr
    exact h.drop hu
  | send =>
    cases hcall
    exact ⟨_, h.send_eq, h⟩
  | getepcount =>
    rw [State.call, h.getepcount_eq] at hcall
    cases hcall
    exact ⟨_, rfl, h⟩
  | getNeweid =>
    obtain ⟨s', hget, hinv⟩ := h.getNeweid
    rw [State.call, hget] at hcall
    cases hcall
    exact ⟨_, rfl, hinv⟩
  | dropEndpoint e =>
    obtain ⟨hu, hr⟩ := Option.ite_none_right_eq_some.mp hcall
    cases hr
    refine h.dropEndpoint hu ?_
    rintro ⟨he, hone⟩
    simp [othersHold, he, hone] at hothers

/-- **The call that does not return.** -/
theorem call_deadlock {w : World} (h : w.state.Inv) {op : Op} (hothers : w.othersHold op = false)
    {r : Except Fault State} (hcall : w.state.call op = some r) : r = .error .deadlock := by
  cases op with
  | dropEndpoint e =>
    obtain ⟨hu, hr⟩ := Option.ite_none_right_eq_some.mp hcall
    cases hr
    obtain ⟨he, hone⟩ : e ∈ w.state.endpoints ∧ w.state.user e = 1 := by
      simpa [othersHold] using hothers
    exact h.dropEndpoint_deadlock he hone
  | newEndpoint | newEndpointWithid | clone | drop | send | getepcount | getNeweid => cases hothers

theorem inv_step {w w' : World} (hi : w.Inv) {op : Op} (hothers : w.othersHold op = true)
    (h : w.step op = some w') : w'.Inv := by
  rw [step_of_fault_none hi.fault] at h
  obtain ⟨r, hr, rfl⟩ := Option.map_eq_some_iff.mp h
  obtain ⟨s', rfl, hinv⟩ := call_ok hi.state hothers hr
  exact ⟨hinv, rfl⟩

theorem deadlock_step {w w' : World} (hi : w.Inv) {op : Op} (hothers : w.othersHold op = false)
    (h : w.step op = some w') : w'.fault = some .deadlock := by
  rw [step_of_fault_none hi.fault] at h
  obtain ⟨r, hr, rfl⟩ := Option.map_eq_some_iff.mp h
  obtain rfl := call_deadlock hi.state hothers hr
  rfl

/-- No run ends in another fault: nothing panics, and drops are never inside each other more often
than `nesting` allows. -/
theorem fault_of_run {sid : ID} {ops : List Op} {w : World}
    (hrun : run step (init sid) ops = some w) : w.Inv ∨ w.fault = some .deadlock := by
  have hstep : ∀ (v : World) (op : Op) (v' : World), v.Inv ∨ v.fault = some .deadlock →
      v.step op = some v' → v'.Inv ∨ v'.fault = some .deadlock := by
    rintro v op v' (hinv | hdead) h
    · cases hothers : v.othersHold op with
      | true => exact Or.inl (inv_step hinv hothers h)
      | false => exact Or.inr (deadlock_step hinv hothers h)
    · rw [step, hdead] at h
      cases h
  exact run_invariant hstep hrun (Or.inl (inv_init sid))

/-- **The mutex is never locked twice by its own thread**, in any state of a run, exactly if no call
of the run is a `drop_endpoint` of a listed endpoint with the only handle there is. -/
theorem no_relock_iff {sid : ID} {ops : List Op} {w : World}
    (hrun : run step (init sid) ops = some w) :
    (∀ pre post u, ops = pre ++ post → run step (init sid) pre = some u →
      u.fault ≠ some .deadlock) ↔
    StepsMeet step (fun w op => w.othersHold op = true) (init sid) ops := by
  have hgood : ∀ w : World, w.Inv → w.fault ≠ some .deadlock := by
    intro w hi hf
    rw [hi.fault] at hf
    cases hf
  have hstep : ∀ (w : World) (op : Op) (w' : World), w.Inv → True → w.othersHold op = true →
      w.step op = some w' → w'.Inv := fun _ _ _ hi _ hok h => inv_step hi hok h
  have hbad : ∀ (w : World) (op : Op) (w' : World), w.Inv → True → ¬w.othersHold op = true →
      w.step op = some w' → ¬w'.fault ≠ some .deadlock := fun _ _ _ hi _ hnot h hne =>
    hne (deadlock_step hi (Bool.eq_false_iff.mpr hnot) h)
  exact run_all_iff hgood hstep hbad (StepsMeet.of_forall (fun _ _ => trivial) _) hrun
    (inv_init sid)

/-- Two handles: one is there while the other one's endpoint leaves the list. -/
def sharedScript : List Op :=
  [.newEndpoint, .clone 0, .newEndpointWithid 7, .send, .dropEndpoint 0, .getepcount, .drop 0,
    .dropEndpoint 0, .drop 0, .getNeweid, .drop 1]

theorem no_relock_iff_shared :
    ∃ w, run step (init 100) sharedScript = some w ∧ ∀ pre post u, sharedScript = pre ++ post →
      run step (init 100) pre = some u → u.fault ≠ some .deadlock := by
  obtain ⟨w, hw⟩ := Option.isSome_iff_exists.mp
    (show (run step (init 100) sharedScript).isSome = true by decide +kernel)
  exact ⟨w, hw, (no_relock_iff hw).mpr (by decide +kernel)⟩

/-- **A deadlock.**  The thread makes an endpoint and calls `drop_endpoint` on its only handle. -/
theorem not_no_relock :
    ∃ w, run step (init 100) [.newEndpoint, .dropEndpoint 0] = some w ∧
      w.fault = some .deadlock := by
  have hrun : (run step (init 100) [.newEndpoint, .dropEndpoint 0]).map World.fault =
      some (some .deadlock) := by
    decide +kernel
  exact Option.map_eq_some_iff.mp hrun

end World

end WaterNet.Lifetime.Locking
