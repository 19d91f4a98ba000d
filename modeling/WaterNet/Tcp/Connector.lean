import WaterNet.Lib.Machine
import WaterNet.Loopback
import WaterNet.Receive
import WaterNet.Tcp.Codec

/-!
# Terminating a connector (`tcp/connector.rs`)

`TcpBridgeConnector::thread` connects, makes an endpoint, spawns `thread_rx` and `thread_tx` for it,
publishes it in the bridge and joins the two; `terminate` sets a flag the thread tests, and gives a
`TerminateMessage` to the published endpoint.  One action is one statement of the connector thread,
one pass of `thread_rx` or `thread_tx`, one half of a `terminate` call, or a step of somebody else on
the net.  A run is any list of actions.

* `step` — the machine;
* `Heard` — what a `terminate` call that has returned is to be sure of;
* `Inv`, `Inv.step` — the invariant, and that every step that meets `InTime` keeps it;
* `heard_run_iff` — **when termination is never missed**.
-/

namespace WaterNet.Tcp.Connector

open Endpoint (Internal)
open WaterNet.Lib.Machine (run StepsMeet run_all_iff)

/-- Who holds the mutex of the bridge between two steps. -/
inductive Holder where
  | thread
  | terminate
  deriving DecidableEq, Repr

/-- Where `TcpBridgeConnector::thread` is; `ep` is the endpoint of the connection it works on. -/
inductive Pc where
  /-- at the head of the loop -/
  | connect
  /-- in `TcpStream::connect`, which keeps the mutex for the address -/
  | connecting
  /-- at the test after a failed connect -/
  | failed
  /-- at the test after a connect -/
  | connected
  | newEndpoint
  | setgid (ep : EpId)
  | addEndpoint (ep : EpId)
  /-- at the test before the threads are spawned -/
  | lastTest (ep : EpId)
  | spawnRx (ep : EpId)
  | getserveraddr (ep : EpId)
  | spawnTx (ep : EpId) (sid : ID)
  | publish (ep : EpId)
  | joinRx (ep : EpId)
  | joinTx (ep : EpId)
  | setDisconnected
  /-- at the test at the end of the loop -/
  | finalTest
  | exited
  deriving DecidableEq, Repr

/-- `thread_rx` of the present connection. -/
inductive Rx where
  | absent
  | start (ep : EpId)
  /-- past `setconnected`, with the sid it read -/
  | greeted (ep : EpId) (rsid : ID)
  | looping (ep : EpId)
  | done
  deriving DecidableEq, Repr

/-- `thread_tx` of the present connection. -/
inductive Tx where
  | absent
  | running (ep : EpId)
  | done
  deriving DecidableEq, Repr

/-- The bridge, its net and its threads.  `out` is what `thread_tx` has written to the present
connection.  `made` and `returned` are history variables: the endpoints the connector has made, and
how many `terminate` calls have returned. -/
structure Bridge where
  net : Net
  ep : Option EpId
  terminate : Bool
  connected : Bool
  lock : Option Holder
  pc : Pc
  rx : Rx
  tx : Tx
  out : Stream
  made : List EpId
  returned : ℕ

inductive Act where
  /-- a statement of the connector thread: a connect succeeds if `ok`, and `id` is the identity of
  an endpoint that is allocated -/
  | thread (ok : Bool) (id : EpId)
  /-- `thread_rx` reads the sid of the peer and calls `setconnected` -/
  | rxGreet (rsid : ID)
  | rxSetsid
  | rxSendx (m : Message)
  /-- `thread_rx` returns or panics -/
  | rxEnd
  /-- one pass of `thread_tx` -/
  | tx
  /-- a `terminate` call takes the mutex and sets the flag -/
  | terminateBegin
  /-- it gives the message, or finds no endpoint, and returns -/
  | terminateEnd (junk : ℕ → UInt8)
  /-- anybody sends anything on the net -/
  | send (m : Message)
  /-- an endpoint the connector has not made changes in any way -/
  | user (e : EpId) (ep : Internal)
  | newEndpoint (e : EpId)
  | dropEndpoint (e : EpId)
  | getNeweid

/-- `Endpoint::setgid` of the endpoint `e`. -/
def setgid (net : Net) (e : EpId) (gid : ID) : Net :=
  { net with
    eps := Function.update net.eps e
      { net.eps e with address := { (net.eps e).address with gid := gid } } }

namespace Bridge

/-! ### The machine -/

/-- A statement that needs the mutex for its own time only. -/
def whenFree (s s' : Bridge) : Option Bridge := if s.lock = none then some s' else none

/-- One statement of `TcpBridgeConnector::thread`. -/
def threadStep (s : Bridge) (ok : Bool) (id : EpId) : Option Bridge :=
  match s.pc with
  | .connect => s.whenFree { s with lock := some .thread, pc := .connecting }
  | .connecting => some { s with lock := none, pc := if ok then .connected else .failed }
  | .failed => s.whenFree { s with pc := if s.terminate then .exited else .connect }
  | .connected => s.whenFree { s with pc := if s.terminate then .exited else .newEndpoint }
  | .newEndpoint =>
    if id ∈ s.made ∨ id ∈ s.net.endpoints then none
    else
      let (eid, net) := s.net.getNeweid
      s.whenFree { s with
        net := { net with eps := Function.update net.eps id (Endpoint.new UNUSED_ID eid) }
        made := s.made ++ [id]
        pc := .setgid id }
  | .setgid e =>
    let (gid, net) := s.net.getNeweid
    s.whenFree { s with net := setgid net e gid, pc := .addEndpoint e }
  | .addEndpoint e =>
    s.whenFree { s with net := s.net.addEndpoint e (s.net.eps e), pc := .lastTest e }
  | .lastTest e => s.whenFree { s with pc := if s.terminate then .exited else .spawnRx e }
  | .spawnRx e => some { s with rx := .start e, pc := .getserveraddr e }
  | .getserveraddr e => s.whenFree { s with pc := .spawnTx e s.net.sid }
  | .spawnTx e sid => some { s with tx := .running e, out := writeBeU64 sid, pc := .publish e }
  | .publish e => s.whenFree { s with ep := some e, pc := .joinRx e }
  | .joinRx e => if s.rx = .done then some { s with pc := .joinTx e } else none
  | .joinTx _ =>
    if s.tx = .done then some { s with rx := .absent, tx := .absent, pc := .setDisconnected } else none
  | .setDisconnected => s.whenFree { s with connected := false, pc := .finalTest }
  | .finalTest => s.whenFree { s with pc := if s.terminate then .exited else .connect }
  | .exited => none

/-- One pass of the loop of `thread_tx`, whose `recvorblock` has returned. -/
def txStep (terminateId : TypeId) (s : Bridge) : Option Bridge :=
  match s.tx with
  | .running e =>
    match s.net.recvAt e with
    | (.error _, net) => some { s with net := net }
    | (.ok msg, net) =>
      if msg.isType terminateId then some { s with net := net, tx := .done }
      else if !msg.isRaw then some { s with net := net }
      else some { s with net := net, out := s.out ++ frameBytes (msg, net.store.buf msg.buf) }
  | _ => none

/-- The end of a `terminate` call. -/
def terminateEnd (terminateId : TypeId) (s : Bridge) (junk : ℕ → UInt8) : Option Bridge :=
  if s.lock = some .terminate then
    match s.ep with
    | none => some { s with lock := none, returned := s.returned + 1 }
    | some e => do
      let (msg, st) := Message.newClone s.net.store junk terminateId []
      let (_, ep) ← (s.net.eps e).give s.net.sid st msg
      some { s with
        net := { s.net with eps := Function.update s.net.eps e ep, store := st }
        lock := none
        returned := s.returned + 1 }
  else none

/-- `terminateId` is the type identity of `TerminateMessage`. -/
def step (terminateId : TypeId) (s : Bridge) : Act → Option Bridge
  | .thread ok id => s.threadStep ok id
  | .rxGreet rsid =>
    match s.rx with
    | .start e => s.whenFree { s with connected := true, rx := .greeted e rsid }
    | _ => none
  | .rxSetsid =>
    match s.rx with
    | .greeted e rsid => some { s with net := s.net.setsid e rsid, rx := .looping e }
    | _ => none
  | .rxSendx m =>
    match s.rx with
    | .looping _ => (s.net.endpointSendx m).map fun r => { s with net := r.2 }
    | _ => none
  | .rxEnd =>
    match s.rx with
    | .start _ | .looping _ => some { s with rx := .done }
    | _ => none
  | .tx => s.txStep terminateId
  | .terminateBegin => s.whenFree { s with terminate := true, lock := some .terminate }
  | .terminateEnd junk => s.terminateEnd terminateId junk
  | .send m => (s.net.send m).map fun r => { s with net := r.2 }
  | .user e ep =>
    if e ∈ s.made then none else some { s with net := { s.net with eps := Function.update s.net.eps e ep } }
  | .newEndpoint e => if e ∈ s.made then none else some { s with net := s.net.newEndpoint e }
  | .dropEndpoint e => some { s with net := { s.net with endpoints := s.net.endpoints.erase e } }
  | .getNeweid => some { s with net := s.net.getNeweid.2 }

/-- A bridge as `TcpBridgeConnector::new` makes it, on any net. -/
structure Init (s : Bridge) : Prop where
  ep : s.ep = none
  terminate : s.terminate = false
  lock : s.lock = none
  pc : s.pc = .connect
  tx : s.tx = .absent
  made : s.made = []
  returned : s.returned = 0

/-! ### What a caller of `terminate` relies on -/

/-- The thread will test the flag before it spawns `thread_rx` and `thread_tx` and blocks: it has not
come to the last test, or the `thread_tx` it waits for is done. -/
def TestAhead (s : Bridge) : Prop :=
  match s.pc with
  | .connect | .connecting | .failed | .connected | .newEndpoint => True
  | .setgid _ | .addEndpoint _ | .lastTest _ => True
  | .spawnRx _ | .getserveraddr _ | .spawnTx _ _ => False
  | .publish _ | .joinRx _ | .joinTx _ => s.tx = .done
  | .setDisconnected | .finalTest => True
  | .exited => False

/-- A `TerminateMessage` that `recv` is bound to return. -/
def isTerminate (terminateId : TypeId) (m : Message) : Bool := m.isClone && m.isType terminateId

/-- A `TerminateMessage` is in the queue that the running `thread_tx` reads. -/
def Posted (terminateId : TypeId) (s : Bridge) : Prop :=
  ∃ e, s.tx = .running e ∧ ∃ m ∈ (s.net.eps e).messages, isTerminate terminateId m = true

/-- Termination is not missed. -/
def Heard (terminateId : TypeId) (s : Bridge) : Prop :=
  s.pc = .exited ∨ s.TestAhead ∨ s.Posted terminateId

/-- `thread_tx` runs on the endpoint that is published, and the loop-back check of that endpoint does
not take the message for its own. -/
def Reaches (s : Bridge) : Prop :=
  ∃ e, s.tx = .running e ∧ s.ep = some e ∧
    ¬((s.net.eps e).address.eid = 0 ∧ (s.net.eps e).address.sid = 0)

/-- A `terminate` call does not come to its end between the last test of the flag and the start of
`thread_tx`; and if it does while the thread publishes its endpoint or waits, `thread_tx` is done, or
the call reaches it, or it has a `TerminateMessage` already. -/
def InTime (terminateId : TypeId) (s : Bridge) : Act → Prop
  | .terminateEnd _ =>
    match s.pc with
    | .spawnRx _ | .getserveraddr _ | .spawnTx _ _ => False
    | .publish _ | .joinRx _ | .joinTx _ => s.tx = .done ∨ s.Reaches ∨ s.Posted terminateId
    | _ => True
  | _ => True

instance : DecidablePred TestAhead := fun s =>
  match h : s.pc with
  | .connect | .connecting | .failed | .connected | .newEndpoint => isTrue (by simp [TestAhead, h])
  | .setgid _ | .addEndpoint _ | .lastTest _ => isTrue (by simp [TestAhead, h])
  | .spawnRx _ | .getserveraddr _ | .spawnTx _ _ => isFalse (by simp [TestAhead, h])
  | .publish _ | .joinRx _ | .joinTx _ => decidable_of_iff (s.tx = .done) (by simp [TestAhead, h])
  | .setDisconnected | .finalTest => isTrue (by simp [TestAhead, h])
  | .exited => isFalse (by simp [TestAhead, h])

instance {terminateId : TypeId} : DecidablePred (Posted terminateId) := fun s =>
  match h : s.tx with
  | .running e => decidable_of_iff (∃ m ∈ (s.net.eps e).messages, isTerminate terminateId m = true)
      (by simp [Posted, h])
  | .absent => isFalse (by simp [Posted, h])
  | .done => isFalse (by simp [Posted, h])

instance {terminateId : TypeId} : DecidablePred (Heard terminateId) := fun s =>
  inferInstanceAs (Decidable (s.pc = .exited ∨ s.TestAhead ∨ s.Posted terminateId))

instance : DecidablePred Reaches := fun s =>
  match h : s.tx with
  | .running e => decidable_of_iff
      (s.ep = some e ∧ ¬((s.net.eps e).address.eid = 0 ∧ (s.net.eps e).address.sid = 0))
      (by simp [Reaches, h])
  | .absent => isFalse (by simp [Reaches, h])
  | .done => isFalse (by simp [Reaches, h])

instance {terminateId : TypeId} (s : Bridge) : DecidablePred (s.InTime terminateId)
  | .terminateEnd _ =>
    match h : s.pc with
    | .spawnRx _ | .getserveraddr _ | .spawnTx _ _ => isFalse (by simp [InTime, h])
    | .publish _ | .joinRx _ | .joinTx _ =>
      decidable_of_iff (s.tx = .done ∨ s.Reaches ∨ s.Posted terminateId) (by simp [InTime, h])
    | .connect | .connecting | .failed | .connected | .newEndpoint => isTrue (by simp [InTime, h])
    | .setgid _ | .addEndpoint _ | .lastTest _ => isTrue (by simp [InTime, h])
    | .setDisconnected | .finalTest | .exited => isTrue (by simp [InTime, h])
  | .thread _ _ | .rxGreet _ | .rxSetsid | .rxSendx _ | .rxEnd | .tx => isTrue trivial
  | .terminateBegin | .send _ | .user _ _ | .newEndpoint _ | .dropEndpoint _ | .getNeweid =>
    isTrue trivial

/-! ### The invariant -/

end Bridge

/-- The endpoint the connector thread works on. -/
def Pc.made : Pc → Option EpId
  | .setgid e | .addEndpoint e | .lastTest e | .spawnRx e | .getserveraddr e | .spawnTx e _ => some e
  | .publish e | .joinRx e | .joinTx e => some e
  | _ => none

namespace Bridge

/-- A call that has returned, or is past its first half, has set the flag; a call that has returned is
heard; `thread_tx` runs while the thread publishes its endpoint or waits; and the endpoints the
connector has made are without limits. -/
structure Inv (terminateId : TypeId) (s : Bridge) : Prop where
  flag : 0 < s.returned ∨ s.lock = some .terminate → s.terminate = true
  heard : 0 < s.returned → s.Heard terminateId
  reads : ∀ e, s.tx = .running e → s.pc = .publish e ∨ s.pc = .joinRx e ∨ s.pc = .joinTx e
  own : ∀ e, s.pc.made = some e → e ∈ s.made
  limits : ∀ e ∈ s.made, (s.net.eps e).limitpending = 0 ∧ (s.net.eps e).limitmemory = 0

theorem init_inv {terminateId : TypeId} {s : Bridge} (h : Init s) : s.Inv terminateId where
  flag hor := by
    rw [h.returned, h.lock] at hor
    rcases hor with h0 | h0
    · exact absurd h0 (Nat.lt_irrefl 0)
    · cases h0
  heard h0 := by
    rw [h.returned] at h0
    exact absurd h0 (Nat.lt_irrefl 0)
  reads e he := by
    rw [h.tx] at he
    cases he
  own e he := by
    rw [h.pc] at he
    cases he
  limits e he := by
    rw [h.made] at he
    cases he

variable {terminateId : TypeId} {s s' : Bridge}

/-- The endpoint that `thread_tx` reads was made by the connector. -/
theorem Inv.tx_made (hi : s.Inv terminateId) {e : EpId} (he : s.tx = .running e) : e ∈ s.made := by
  refine hi.own e ?_
  rcases hi.reads e he with h | h | h <;> rw [h] <;> rfl

/-- The queue has grown at its back, if at all, and the limits are the same. -/
structure Extends (ep ep' : Internal) : Prop where
  queue : ∃ cs, ep'.messages = ep.messages ++ cs
  limitpending : ep'.limitpending = ep.limitpending
  limitmemory : ep'.limitmemory = ep.limitmemory

theorem Extends.refl (ep : Internal) : Extends ep ep :=
  ⟨⟨[], (List.append_nil _).symm⟩, rfl, rfl⟩

/-- An endpoint that is replaced by one that extends it, seen from any endpoint. -/
theorem extends_update (net : Net) {e₀ : EpId} {ep : Internal} (h : Extends (net.eps e₀) ep)
    (e : EpId) : Extends (net.eps e) (Function.update net.eps e₀ ep e) := by
  by_cases he : e = e₀
  · subst he
    rwa [Function.update_self]
  · rw [Function.update_of_ne he]
    exact Extends.refl _

/-- `setsid` and `setgid` leave the queues alone. -/
theorem extends_address (net : Net) (e₀ : EpId) (address : Endpoint.AddressData) (e : EpId) :
    Extends (net.eps e) (Function.update net.eps e₀ { net.eps e₀ with address := address } e) := by
  have hsame : Extends (net.eps e₀) { net.eps e₀ with address := address } :=
    ⟨⟨[], (List.append_nil _).symm⟩, rfl, rfl⟩
  exact extends_update net hsame e

theorem Extends.of_grows {ep ep' : Internal} (h : Net.Grows ep ep') : Extends ep ep' :=
  ⟨h.2, h.1.limitpending, h.1.limitmemory⟩

/-- What is posted stays posted while the queues only grow. -/
theorem Posted.extends (h : s.Posted terminateId) (htx : s'.tx = s.tx)
    (hnet : ∀ e, s.tx = .running e → Extends (s.net.eps e) (s'.net.eps e)) :
    s'.Posted terminateId := by
  obtain ⟨e, hrun, m, hm, hterm⟩ := h
  obtain ⟨cs, hq⟩ := (hnet e hrun).queue
  refine ⟨e, htx.trans hrun, m, ?_, hterm⟩
  rw [hq]
  exact List.mem_append_left _ hm

theorem TestAhead.congr (h : s.TestAhead) (hpc : s'.pc = s.pc) (htx : s'.tx = s.tx) :
    s'.TestAhead := by
  unfold TestAhead at h ⊢
  rw [hpc, htx]
  exact h

theorem Heard.extends (h : s.Heard terminateId) (hpc : s'.pc = s.pc) (htx : s'.tx = s.tx)
    (hnet : ∀ e, s.tx = .running e → Extends (s.net.eps e) (s'.net.eps e)) :
    s'.Heard terminateId := by
  rcases h with h | h | h
  · exact Or.inl (hpc.trans h)
  · exact Or.inr (Or.inl (h.congr hpc htx))
  · exact Or.inr (Or.inr (h.extends htx hnet))

/-- A step of somebody else, or of `thread_rx`: the queues of the connector's endpoints grow. -/
theorem Inv.frame (hi : s.Inv terminateId) {net : Net} {connected : Bool} {rx : Rx}
    (hnet : ∀ e ∈ s.made, Extends (s.net.eps e) (net.eps e)) :
    ({ s with net := net, connected := connected, rx := rx } : Bridge).Inv terminateId where
  flag := hi.flag
  heard h := (hi.heard h).extends rfl rfl fun e he => hnet e (hi.tx_made he)
  reads := hi.reads
  own := hi.own
  limits e he := by
    rw [(hnet e he).limitpending, (hnet e he).limitmemory]
    exact hi.limits e he

/-- A statement of the connector thread, which leaves the queues and the calls of `terminate` alone. -/
theorem Inv.move (hi : s.Inv terminateId) {net : Net} {ep : Option EpId} {connected : Bool}
    {lock : Option Holder} {pc : Pc} {rx : Rx} {tx : Tx} {out : Stream}
    (hlock : lock = some .terminate → s.lock = some .terminate)
    (hnet : ∀ e ∈ s.made, Extends (s.net.eps e) (net.eps e))
    (hreads : ∀ e, tx = .running e → pc = .publish e ∨ pc = .joinRx e ∨ pc = .joinTx e)
    (hown : ∀ e, pc.made = some e → e ∈ s.made)
    (hheard : 0 < s.returned → s.terminate = true → ({ s with
      net := net, ep := ep, connected := connected, lock := lock, pc := pc
      rx := rx, tx := tx, out := out } : Bridge).Heard terminateId) :
    ({ s with
      net := net, ep := ep, connected := connected, lock := lock, pc := pc
      rx := rx, tx := tx, out := out } : Bridge).Inv terminateId where
  flag h := hi.flag (h.imp_right hlock)
  heard h := hheard h (hi.flag (Or.inl h))
  reads := hreads
  own := hown
  limits e he := by
    rw [(hnet e he).limitpending, (hnet e he).limitmemory]
    exact hi.limits e he

/-- `thread_tx` does not run while the thread is elsewhere. -/
theorem Inv.not_running (hi : s.Inv terminateId) {e : EpId} (he : s.tx = .running e)
    (hpc : ∀ e', s.pc ≠ .publish e' ∧ s.pc ≠ .joinRx e' ∧ s.pc ≠ .joinTx e') : False := by
  rcases hi.reads e he with h | h | h
  · exact (hpc e).1 h
  · exact (hpc e).2.1 h
  · exact (hpc e).2.2 h

/-! ### Every step keeps it -/

theorem whenFree_eq_some {s s₁ s' : Bridge} (h : s.whenFree s₁ = some s') :
    s.lock = none ∧ s' = s₁ := by
  unfold whenFree at h
  split at h
  · rename_i hfree
    exact ⟨hfree, (Option.some.inj h).symm⟩
  · cases h

/-- A test of the flag ends the thread if a call of `terminate` has returned. -/
theorem Inv.test (hi : s.Inv terminateId) {next : Pc} (htx : ∀ e, s.tx ≠ .running e)
    (hown : ∀ e, next.made = some e → e ∈ s.made) :
    ({ s with pc := if s.terminate then .exited else next } : Bridge).Inv terminateId := by
  refine hi.move id (fun e _ => Extends.refl _) (fun e he => absurd he (htx e))
    (fun e he => ?_) (fun _ hflag => Or.inl ?_)
  · split at he
    · cases he
    · exact hown e he
  · show (if s.terminate then Pc.exited else next) = .exited
    rw [if_pos hflag]

/-- A call that has returned relies on a test that is still ahead, if `thread_tx` does not run. -/
theorem Inv.ahead (hi : s.Inv terminateId) (h : 0 < s.returned) (hexited : s.pc ≠ .exited)
    (htx : ∀ e, s.tx ≠ .running e) : s.TestAhead := by
  rcases hi.heard h with h | h | ⟨e, he, -⟩
  · exact absurd h hexited
  · exact h
  · exact absurd he (htx e)

/-- A statement at which `thread_tx` does not run, and after which a test is ahead if one was before
it. -/
theorem Inv.go (hi : s.Inv terminateId) {net : Net} {ep : Option EpId} {connected : Bool}
    {lock : Option Holder} {pc : Pc} {rx : Rx} {tx : Tx} {out : Stream}
    (hlock : lock ≠ some .terminate ∨ lock = s.lock)
    (hnet : ∀ e ∈ s.made, Extends (s.net.eps e) (net.eps e)) (htx : ∀ e, s.tx ≠ .running e)
    (hexited : s.pc ≠ .exited)
    (hreads : ∀ e, tx = .running e → pc = .publish e ∨ pc = .joinRx e ∨ pc = .joinTx e)
    (hown : ∀ e, pc.made = some e → e ∈ s.made)
    (hahead : s.TestAhead → ({ s with
      net := net, ep := ep, connected := connected, lock := lock, pc := pc
      rx := rx, tx := tx, out := out } : Bridge).TestAhead) :
    ({ s with
      net := net, ep := ep, connected := connected, lock := lock, pc := pc
      rx := rx, tx := tx, out := out } : Bridge).Inv terminateId :=
  hi.move (fun h => hlock.elim (fun hne => absurd h hne) fun heq => heq ▸ h) hnet hreads hown
    fun h _ => Or.inr (Or.inl (hahead (hi.ahead h hexited htx)))

theorem Inv.newEndpoint (hi : s.Inv terminateId) {id : EpId} {eid : ID} {net : Net}
    (hnet : net.eps = s.net.eps) (hid : id ∉ s.made) (htx : ∀ e, s.tx ≠ .running e) :
    ({ s with
      net := { net with eps := Function.update net.eps id (Endpoint.new UNUSED_ID eid) }
      made := s.made ++ [id]
      pc := .setgid id } : Bridge).Inv terminateId where
  flag h := hi.flag h
  heard _ := Or.inr (Or.inl trivial)
  reads e he := absurd he (htx e)
  own e he := by
    cases he
    exact List.mem_append_right _ List.mem_cons_self
  limits e he := by
    show (Function.update net.eps id (Endpoint.new UNUSED_ID eid) e).limitpending = 0 ∧
      (Function.update net.eps id (Endpoint.new UNUSED_ID eid) e).limitmemory = 0
    by_cases hnew : e = id
    · subst hnew
      rw [Function.update_self]
      exact ⟨rfl, rfl⟩
    · rw [Function.update_of_ne hnew, hnet]
      exact hi.limits e ((List.mem_append.mp he).resolve_right fun h => hnew (List.mem_singleton.mp h))

/-- From the publication to the joins, `thread_tx` may run. -/
theorem Inv.onward (hi : s.Inv terminateId) {e : EpId} {ep : Option EpId} {next : Pc}
    (hpc : s.pc = .publish e ∧ next = .joinRx e ∨ s.pc = .joinRx e ∧ next = .joinTx e) :
    ({ s with ep := ep, pc := next } : Bridge).Inv terminateId := by
  refine hi.move id (fun e _ => Extends.refl _) (fun e' he => ?_) (fun e' he => ?_)
    fun h _ => ?_
  · have hat := hi.reads e' he
    rcases hpc with ⟨hpc, rfl⟩ | ⟨hpc, rfl⟩ <;> rw [hpc] at hat <;> simp at hat <;> simp [hat]
  · rcases hpc with ⟨hpc, rfl⟩ | ⟨hpc, rfl⟩ <;> cases he <;> exact hi.own e (by rw [hpc]; rfl)
  · rcases hi.heard h with hexit | hahead | hposted
    · rcases hpc with ⟨hpc, -⟩ | ⟨hpc, -⟩ <;> rw [hpc] at hexit <;> cases hexit
    · refine Or.inr (Or.inl ?_)
      rcases hpc with ⟨hpc, rfl⟩ | ⟨hpc, rfl⟩ <;> rw [TestAhead, hpc] at hahead <;> exact hahead
    · exact Or.inr (Or.inr hposted)

/-- **Every statement of the connector thread keeps the invariant.** -/
theorem Inv.thread (hi : s.Inv terminateId) {ok : Bool} {id : EpId}
    (h : s.threadStep ok id = some s') : s'.Inv terminateId := by
  have hstill : ∀ e ∈ s.made, Extends (s.net.eps e) (s.net.eps e) := fun e _ => Extends.refl _
  have hidle : (∀ e', s.pc ≠ .publish e' ∧ s.pc ≠ .joinRx e' ∧ s.pc ≠ .joinTx e') →
      ∀ e, s.tx ≠ .running e := fun hpc e he => hi.not_running he hpc
  have hmine : ∀ {e : EpId}, s.pc.made = some e → ∀ e', some e = some e' → e' ∈ s.made := by
    intro e he e' he'
    cases he'
    exact hi.own e he
  unfold threadStep at h
  cases hpc : s.pc with
  | connect =>
    have htx := hidle (by simp [hpc])
    simp only [hpc] at h
    obtain ⟨-, rfl⟩ := whenFree_eq_some h
    exact hi.go (Or.inl (by simp)) hstill htx (by simp [hpc])
      (fun e he => absurd he (htx e)) (fun e he => by cases he) fun _ => trivial
  | connecting =>
    have htx := hidle (by simp [hpc])
    simp only [hpc] at h
    cases h
    cases ok <;> exact hi.go (Or.inl (by simp)) hstill htx (by simp [hpc])
      (fun e he => absurd he (htx e)) (fun e he => by cases he) fun _ => trivial
  | failed | connected | finalTest =>
    simp only [hpc] at h
    obtain ⟨-, rfl⟩ := whenFree_eq_some h
    exact hi.test (hidle (by simp [hpc])) fun e he => by cases he
  | newEndpoint =>
    simp only [hpc] at h
    split at h
    · cases h
    · rename_i hid
      obtain ⟨-, rfl⟩ := whenFree_eq_some h
      exact hi.newEndpoint rfl (fun h => hid (Or.inl h)) (hidle (by simp [hpc]))
  | setgid e =>
    have htx := hidle (by simp [hpc])
    simp only [hpc] at h
    obtain ⟨-, rfl⟩ := whenFree_eq_some h
    exact hi.go (Or.inr rfl) (fun e' _ => extends_address s.net.getNeweid.2 e _ e') htx
      (by simp [hpc]) (fun e' he => absurd he (htx e')) (hmine (by rw [hpc]; rfl)) fun _ => trivial
  | addEndpoint e =>
    have htx := hidle (by simp [hpc])
    simp only [hpc] at h
    obtain ⟨-, rfl⟩ := whenFree_eq_some h
    exact hi.go (Or.inr rfl) (fun e' _ => extends_update s.net (Extends.refl _) e') htx
      (by simp [hpc]) (fun e' he => absurd he (htx e')) (hmine (by rw [hpc]; rfl)) fun _ => trivial
  | lastTest e =>
    simp only [hpc] at h
    obtain ⟨-, rfl⟩ := whenFree_eq_some h
    exact hi.test (hidle (by simp [hpc])) (hmine (by rw [hpc]; rfl))
  | spawnRx e =>
    have htx := hidle (by simp [hpc])
    simp only [hpc] at h
    cases h
    refine hi.go (Or.inr rfl) hstill htx (by simp [hpc])
      (fun e' he => absurd he (htx e')) (hmine (by rw [hpc]; rfl)) fun hahead => ?_
    rw [TestAhead, hpc] at hahead
    exact hahead.elim
  | getserveraddr e =>
    have htx := hidle (by simp [hpc])
    simp only [hpc] at h
    obtain ⟨-, rfl⟩ := whenFree_eq_some h
    refine hi.go (Or.inr rfl) hstill htx (by simp [hpc])
      (fun e' he => absurd he (htx e')) (hmine (by rw [hpc]; rfl)) fun hahead => ?_
    rw [TestAhead, hpc] at hahead
    exact hahead.elim
  | spawnTx e sid =>
    have htx := hidle (by simp [hpc])
    simp only [hpc] at h
    cases h
    refine hi.go (Or.inr rfl) hstill htx (by simp [hpc]) (fun e' he => ?_)
      (hmine (by rw [hpc]; rfl)) fun hahead => ?_
    · cases he
      exact Or.inl rfl
    · rw [TestAhead, hpc] at hahead
      exact hahead.elim
  | publish e =>
    simp only [hpc] at h
    obtain ⟨-, rfl⟩ := whenFree_eq_some h
    exact hi.onward (Or.inl ⟨hpc, rfl⟩)
  | joinRx e =>
    simp only [hpc] at h
    split at h
    · cases h
      exact hi.onward (Or.inr ⟨hpc, rfl⟩)
    · cases h
  | joinTx e =>
    simp only [hpc] at h
    split at h
    · cases h
      exact hi.move (fun hlock => hlock) hstill (fun e he => by cases he)
        (fun e he => by cases he) fun _ _ => Or.inr (Or.inl trivial)
    · cases h
  | setDisconnected =>
    have htx := hidle (by simp [hpc])
    simp only [hpc] at h
    obtain ⟨-, rfl⟩ := whenFree_eq_some h
    exact hi.go (Or.inr rfl) hstill htx (by simp [hpc])
      (fun e he => absurd he (htx e)) (fun e he => by cases he) fun _ => trivial
  | exited =>
    simp only [hpc] at h
    cases h

/-- A `TerminateMessage` in a queue is returned by `recv`, or still there afterwards. -/
theorem recv_terminate (st : Store) {ep : Internal} {m : Message} (hm : m ∈ ep.messages)
    (hterm : isTerminate terminateId m = true) :
    (∃ msg, (ep.recv st).1 = .ok msg ∧ msg.isType terminateId = true) ∨
      m ∈ (ep.recv st).2.1.messages := by
  obtain ⟨hclone, htype⟩ := Bool.and_eq_true_iff.mp hterm
  have hfresh : m.isTaken st = false := by
    unfold Message.isClone at hclone
    unfold Message.isTaken
    split at hclone
    · rename_i c hc
      rw [hc]
    · cases hclone
  have hnotraw : m.isRaw = false := by
    unfold Message.isClone at hclone
    split at hclone
    · rename_i c hc
      exact Message.isRaw_false_of_clone hc
    · cases hclone
  have hrecv := Internal.recv_receives ep st
  generalize ep.recv st = r at hrecv ⊢
  cases hrecv with
  | empty hall =>
    rw [hall m hm] at hfresh
    cases hfresh
  | @took pre rest copy msg st' hq hpre hcopy hret =>
    rw [hq] at hm
    rcases List.mem_append.mp hm with hm | hm
    · rw [hpre m hm] at hfresh
      cases hfresh
    · rcases List.mem_cons.mp hm with rfl | hm
      · exact Or.inl ⟨msg, rfl, (hret.same hnotraw).symm ▸ htype⟩
      · exact Or.inr hm

theorem recvAt_limits (net : Net) (e e' : EpId) :
    ((net.recvAt e).2.eps e').limitpending = (net.eps e').limitpending ∧
      ((net.recvAt e).2.eps e').limitmemory = (net.eps e').limitmemory :=
  ⟨(Net.recvAt_settings net e e').limitpending, (Net.recvAt_settings net e e').limitmemory⟩

/-- What a pass of `thread_tx` does: it returns at a `TerminateMessage`, and goes on otherwise. -/
theorem txStep_cases (h : s.txStep terminateId = some s') : ∃ e, s.tx = .running e ∧
    ((∃ msg, (s.net.recvAt e).1 = .ok msg ∧ msg.isType terminateId = true ∧
        s' = { s with net := (s.net.recvAt e).2, tx := .done }) ∨
      (∀ msg, (s.net.recvAt e).1 = .ok msg → msg.isType terminateId = false) ∧
        ∃ out, s' = { s with net := (s.net.recvAt e).2, out := out }) := by
  unfold Bridge.txStep at h
  split at h
  · rename_i e hrun
    refine ⟨e, hrun, ?_⟩
    split at h
    · rename_i err net hrecv
      cases h
      rw [hrecv]
      exact Or.inr ⟨fun msg hmsg => (by cases hmsg), s.out, rfl⟩
    · rename_i msg net hrecv
      rw [hrecv]
      split at h
      · rename_i htype
        cases h
        exact Or.inl ⟨msg, rfl, htype, rfl⟩
      · rename_i htype
        have hother : ∀ msg', Except.ok msg = (Except.ok msg' : IoResult Message) →
            msg'.isType terminateId = false := by
          intro msg' hmsg
          cases hmsg
          exact Bool.eq_false_iff.mpr htype
        split at h <;> cases h
        · exact Or.inr ⟨hother, s.out, rfl⟩
        · exact Or.inr ⟨hother, _, rfl⟩
  · cases h

/-- **A pass of `thread_tx` keeps the invariant.** -/
theorem Inv.txStep (hi : s.Inv terminateId) (h : s.txStep terminateId = some s') :
    s'.Inv terminateId := by
  obtain ⟨e, hrun, hpass⟩ := txStep_cases h
  have hlimits : ∀ e' ∈ s.made, ((s.net.recvAt e).2.eps e').limitpending = 0 ∧
      ((s.net.recvAt e).2.eps e').limitmemory = 0 := by
    intro e' he'
    rw [(recvAt_limits s.net e e').1, (recvAt_limits s.net e e').2]
    exact hi.limits e' he'
  rcases hpass with ⟨msg, -, -, rfl⟩ | ⟨hother, out, rfl⟩
  · -- `thread_tx` ends, and the thread that waits for it comes to a test
    refine ⟨hi.flag, fun _ => Or.inr (Or.inl ?_), fun e' he' => ?_, hi.own, hlimits⟩
    · rcases hi.reads e hrun with hpc | hpc | hpc <;> simp only [TestAhead, hpc]
    · cases he'
  · refine ⟨hi.flag, fun hret => ?_, hi.reads, hi.own, hlimits⟩
    rcases hi.heard hret with hexit | hahead | ⟨e', he', m, hm, hterm⟩
    · exact Or.inl hexit
    · exact Or.inr (Or.inl hahead)
    · obtain rfl : e = e' := Tx.running.inj (hrun.symm.trans he')
      rcases recv_terminate s.net.store hm hterm with ⟨msg, hmsg, htype⟩ | hleft
      · have hnot := hother msg (by rw [Net.recvAt]; exact hmsg)
        rw [htype] at hnot
        cases hnot
      · refine Or.inr (Or.inr ⟨e, hrun, m, ?_, hterm⟩)
        rw [Net.recvAt]
        simpa using hleft

/-! ### The end of a `terminate` call -/

/-- The message of `terminate` goes to any endpoint, except that the loop-back check takes it for one
of the endpoint whose ids are both 0. -/
theorem routes_terminate (ep : Internal) (netsid : ID) (st : Store) (junk : ℕ → UInt8)
    (terminateId : TypeId) : ep.routes netsid (Message.newClone st junk terminateId []).1 = true ↔
      ¬(ep.address.eid = 0 ∧ ep.address.sid = 0) := by
  rw [Internal.routes_iff]
  simp only [Message.newClone, Message.ofPayload, true_or, and_true, true_and]
  rw [eq_comm, eq_comm (a := (0 : ID)) (b := ep.address.sid)]

theorem isTerminate_newClone (st : Store) (junk : ℕ → UInt8) (terminateId : TypeId) :
    isTerminate terminateId (Message.newClone st junk terminateId []).1 = true := by
  simp [isTerminate, Message.newClone, Message.ofPayload, Message.isClone, Message.isType]

/-- What the end of a `terminate` call does to the net: the published endpoint gets the message, if it
is not one that takes it for its own, and the other queues stay as they are. -/
structure Gives (terminateId : TypeId) (s : Bridge) (net : Net) : Prop where
  grows : ∀ e, Extends (s.net.eps e) (net.eps e)
  gives : ∀ e, s.ep = some e → ¬((s.net.eps e).address.eid = 0 ∧ (s.net.eps e).address.sid = 0) →
    (s.net.eps e).limitpending = 0 → (s.net.eps e).limitmemory = 0 →
    ∃ m ∈ (net.eps e).messages, isTerminate terminateId m = true
  stays : ∀ e, (s.ep = some e → (s.net.eps e).address.eid = 0 ∧ (s.net.eps e).address.sid = 0) →
    (net.eps e).messages = (s.net.eps e).messages

theorem terminateEnd_gives {junk : ℕ → UInt8} (h : s.terminateEnd terminateId junk = some s') :
    s.lock = some .terminate ∧ ∃ net, Gives terminateId s net ∧
      s' = { s with net := net, lock := none, returned := s.returned + 1 } := by
  unfold Bridge.terminateEnd at h
  split at h
  · rename_i hlock
    refine ⟨hlock, ?_⟩
    split at h
    · rename_i hep
      cases h
      refine ⟨s.net, ⟨fun e => Extends.refl _, fun e he => ?_, fun e _ => rfl⟩, rfl⟩
      rw [hep] at he
      cases he
    · rename_i e hep
      have hroutes := routes_terminate (s.net.eps e) s.net.sid s.net.store junk terminateId
      have hterm := isTerminate_newClone s.net.store junk terminateId
      generalize Message.newClone s.net.store junk terminateId [] = new at h hroutes hterm
      obtain ⟨msg, st⟩ := new
      simp only [Internal.give_eq] at h
      cases h
      refine ⟨_, ⟨fun e' => ?_, fun e' he' hids hpending hmemory => ?_, fun e' hown => ?_⟩, rfl⟩
      · refine extends_update s.net ?_ e'
        split
        · exact ⟨⟨[_], rfl⟩, rfl, rfl⟩
        · exact Extends.refl _
      · obtain rfl : e = e' := Option.some.inj (hep.symm.trans he')
        have hunder : (s.net.eps e).underLimits = true :=
          (Internal.underLimits_iff _).mpr ⟨Or.inl hpending, Or.inl hmemory⟩
        refine ⟨msg, ?_, hterm⟩
        show _ ∈ (Function.update s.net.eps e _ e).messages
        rw [Function.update_self, hroutes.mpr hids, hunder]
        exact List.mem_append_right _ List.mem_cons_self
      · show (Function.update s.net.eps e _ e').messages = _
        by_cases he : e' = e
        · subst he
          have hnot : (s.net.eps e').routes s.net.sid msg = false :=
            Bool.eq_false_iff.mpr fun hr => hroutes.mp hr (hown hep)
          rw [Function.update_self, hnot]
          rfl
        · rw [Function.update_of_ne he]
  · cases h

/-- A call is in time if termination is assured without it, or if its message reaches `thread_tx`. -/
theorem Inv.inTime_iff (hi : s.Inv terminateId) {junk : ℕ → UInt8} :
    s.InTime terminateId (.terminateEnd junk) ↔ s.Heard terminateId ∨ s.Reaches := by
  have hidle : (∀ e', s.pc ≠ .publish e' ∧ s.pc ≠ .joinRx e' ∧ s.pc ≠ .joinTx e') →
      ¬s.Reaches ∧ ¬s.Posted terminateId := by
    intro hpc
    refine ⟨fun h => ?_, fun h => ?_⟩
    · obtain ⟨e, hrun, -⟩ := h
      exact hi.not_running hrun hpc
    · obtain ⟨e, hrun, -⟩ := h
      exact hi.not_running hrun hpc
  cases hpc : s.pc with
  | spawnRx e | getserveraddr e | spawnTx e sid =>
    obtain ⟨hreach, hposted⟩ := hidle (by simp [hpc])
    simp [InTime, Heard, TestAhead, hpc, hreach, hposted]
  | publish e | joinRx e | joinTx e =>
    simp only [InTime, Heard, TestAhead, hpc, reduceCtorEq, false_or]
    rw [or_assoc, or_comm (a := s.Posted terminateId)]
  | connect | connecting | failed | connected | newEndpoint => simp [InTime, Heard, TestAhead, hpc]
  | setgid e | addEndpoint e | lastTest e => simp [InTime, Heard, TestAhead, hpc]
  | setDisconnected | finalTest | exited => simp [InTime, Heard, TestAhead, hpc]

/-- **A `terminate` call that comes to its end in time is heard.** -/
theorem Inv.terminateEnd (hi : s.Inv terminateId) {junk : ℕ → UInt8}
    (hok : s.Heard terminateId ∨ s.Reaches) (h : s.terminateEnd terminateId junk = some s') :
    s'.Inv terminateId := by
  obtain ⟨hlock, net, hnet, rfl⟩ := terminateEnd_gives h
  refine ⟨fun _ => hi.flag (Or.inr hlock), fun _ => ?_, hi.reads, hi.own, fun e he => ?_⟩
  · rcases hok with hheard | ⟨e, hrun, hep, hids⟩
    · exact hheard.extends rfl rfl fun e _ => hnet.grows e
    · have hlimits := hi.limits e (hi.tx_made hrun)
      obtain ⟨m, hm, hterm⟩ := hnet.gives e hep hids hlimits.1 hlimits.2
      exact Or.inr (Or.inr ⟨e, hrun, m, hm, hterm⟩)
  · rw [(hnet.grows e).limitpending, (hnet.grows e).limitmemory]
    exact hi.limits e he

/-- **One that does not is missed.** -/
theorem terminateEnd_missed {junk : ℕ → UInt8} (hnot : ¬(s.Heard terminateId ∨ s.Reaches))
    (h : s.terminateEnd terminateId junk = some s') : 0 < s'.returned ∧ ¬s'.Heard terminateId := by
  obtain ⟨-, net, hnet, rfl⟩ := terminateEnd_gives h
  refine ⟨Nat.succ_pos _, fun hheard => hnot (Or.inl ?_)⟩
  rcases hheard with hexit | hahead | ⟨e, hrun, m, hm, hterm⟩
  · exact Or.inl hexit
  · exact Or.inr (Or.inl hahead)
  · -- the queue of the running `thread_tx` is as it was before
    have hsame := hnet.stays e fun hep => by
      by_contra hids
      exact hnot (Or.inr ⟨e, hrun, hep, hids⟩)
    exact Or.inr (Or.inr ⟨e, hrun, m, hsame ▸ hm, hterm⟩)

/-! ### The steps of the others -/

/-- The first half of a `terminate` call sets the flag. -/
theorem Inv.terminateBegin (hi : s.Inv terminateId) :
    ({ s with terminate := true, lock := some .terminate } : Bridge).Inv terminateId :=
  ⟨fun _ => rfl, hi.heard, hi.reads, hi.own, hi.limits⟩

/-- An endpoint that is replaced is none of the connector's. -/
theorem Inv.replace (hi : s.Inv terminateId) {net : Net} {e : EpId} {ep : Internal}
    (heps : net.eps = Function.update s.net.eps e ep) (he : e ∉ s.made) :
    ({ s with net := net } : Bridge).Inv terminateId := by
  refine hi.frame fun e' he' => ?_
  show Extends (s.net.eps e') (net.eps e')
  have hne : e' ≠ e := fun h => he (h ▸ he')
  rw [heps, Function.update_of_ne hne]
  exact Extends.refl _

theorem Inv.send (hi : s.Inv terminateId) {m : Message} {net : Net} {n : ℕ}
    (h : s.net.send m = some (n, net)) : ({ s with net := net } : Bridge).Inv terminateId :=
  hi.frame fun e _ => .of_grows (Net.send_grows h e)

/-- **Every step that meets the condition keeps the invariant.** -/
theorem Inv.step (hi : s.Inv terminateId) {a : Act} (hok : s.InTime terminateId a)
    (h : s.step terminateId a = some s') : s'.Inv terminateId := by
  have hstill : ∀ e ∈ s.made, Extends (s.net.eps e) (s.net.eps e) := fun e _ => Extends.refl _
  cases a with
  | thread ok id => exact hi.thread h
  | rxGreet rsid =>
    simp only [Bridge.step] at h
    split at h
    · obtain ⟨-, rfl⟩ := whenFree_eq_some h
      exact hi.frame hstill
    · cases h
  | rxSetsid =>
    simp only [Bridge.step] at h
    split at h
    · cases h
      exact hi.frame fun e _ => extends_address s.net _ _ e
    · cases h
  | rxSendx m =>
    simp only [Bridge.step] at h
    split at h
    · obtain ⟨r, hr, rfl⟩ := Option.map_eq_some_iff.mp h
      exact hi.send hr
    · cases h
  | rxEnd =>
    simp only [Bridge.step] at h
    split at h
    · cases h
      exact hi.frame hstill
    · cases h
      exact hi.frame hstill
    · cases h
  | tx => exact hi.txStep h
  | terminateBegin =>
    obtain ⟨-, rfl⟩ := whenFree_eq_some h
    exact hi.terminateBegin
  | terminateEnd junk => exact hi.terminateEnd (hi.inTime_iff.mp hok) h
  | send m =>
    obtain ⟨r, hr, rfl⟩ := Option.map_eq_some_iff.mp h
    exact hi.send hr
  | user e ep =>
    simp only [Bridge.step] at h
    split at h
    · cases h
    · rename_i he
      cases h
      exact hi.replace rfl he
  | newEndpoint e =>
    simp only [Bridge.step] at h
    split at h
    · cases h
    · rename_i he
      cases h
      exact hi.replace rfl he
  | dropEndpoint e =>
    cases h
    exact hi.frame hstill
  | getNeweid =>
    cases h
    exact hi.frame hstill

/-- **When termination is never missed.**  In a run of any length, of the connector thread, of the
threads it spawns for as many connections as there are, of calls of `terminate` and of everybody else
on the net, every state after a call has returned is one in which the thread has exited, has a test of
the flag ahead, or has a `TerminateMessage` in the queue its running `thread_tx` reads, exactly if
every call of `terminate` comes to its end in time. -/
theorem heard_run_iff {acts : List Act} (hinit : s.Init) (hrun : run (step terminateId) s acts = some s') :
    (∀ pre post u, acts = pre ++ post → run (step terminateId) s pre = some u →
      0 < u.returned → u.Heard terminateId) ↔
    StepsMeet (step terminateId) (InTime terminateId) s acts := by
  have hany : StepsMeet (step terminateId) (fun _ _ => True) s acts := .of_forall (fun _ _ => trivial) s
  refine run_all_iff (fun u hi h => hi.heard h) (fun u a u' hi _ hok hstep => hi.step hok hstep)
    (fun u a u' hi _ hnot hstep hall => ?_) hany hrun (init_inv hinit)
  cases a with
  | terminateEnd junk =>
    obtain ⟨hreturned, hmissed⟩ := terminateEnd_missed (mt hi.inTime_iff.mpr hnot) hstep
    exact hmissed (hall hreturned)
  | thread | rxGreet | rxSetsid | rxSendx | rxEnd | tx => exact hnot trivial
  | terminateBegin | send | user | newEndpoint | dropEndpoint | getNeweid => exact hnot trivial

/-- A bridge on an empty net. -/
def fresh : Bridge :=
  { net := Net.new 100, ep := none, terminate := false, connected := false, lock := none
    pc := .connect, rx := .absent, tx := .absent, out := [], made := [], returned := 0 }

theorem fresh_init : fresh.Init := ⟨rfl, rfl, rfl, rfl, rfl, rfl, rfl⟩

/-- The thread connects, and comes to the publication of its endpoint. -/
def connects : List Act := List.replicate 10 (Act.thread true 0)

/-- A call of `terminate` while the two threads run, and the joins. -/
def timelyScript : List Act :=
  connects ++ [.thread true 0, .rxGreet 5, .rxSetsid, .terminateBegin, .terminateEnd fun _ => 0,
    .tx, .rxEnd] ++ List.replicate 4 (Act.thread true 0)

theorem heard_run_iff_timely :
    ∃ s', run (step 9) fresh timelyScript = some s' ∧ s'.pc = .exited ∧
      ∀ pre post u, timelyScript = pre ++ post → run (step 9) fresh pre = some u →
        0 < u.returned → u.Heard 9 := by
  obtain ⟨s', hs', hpc⟩ : ∃ s', run (step 9) fresh timelyScript = some s' ∧ s'.pc = .exited :=
    Option.map_eq_some_iff.mp (show (run (step 9) fresh timelyScript).map pc = some .exited by
      decide +kernel)
  exact ⟨s', hs', hpc, (heard_run_iff fresh_init hs').mpr (by decide +kernel)⟩

/-- A call of `terminate` after the threads are spawned and before the endpoint is published. -/
def hastyScript : List Act :=
  connects ++ [.terminateBegin, .terminateEnd fun _ => 0, .thread true 0]

/-- **Termination is missed**: the call finds no endpoint and returns, and the thread waits for a
`thread_tx` that nobody has told to end. -/
theorem not_heard_run : ¬∀ (terminateId : TypeId) (s s' : Bridge) (acts : List Act), s.Init →
    run (step terminateId) s acts = some s' → 0 < s'.returned → s'.Heard terminateId := by
  intro h
  obtain ⟨s', hs', hreturned, hnot⟩ : ∃ s', run (step 9) fresh hastyScript = some s' ∧
      0 < s'.returned ∧ ¬s'.Heard 9 := by
    obtain ⟨s', hs', hmiss⟩ : ∃ s', run (step 9) fresh hastyScript = some s' ∧
        decide (0 < s'.returned ∧ ¬s'.Heard 9) = true :=
      Option.map_eq_some_iff.mp (show (run (step 9) fresh hastyScript).map
        (fun s => decide (0 < s.returned ∧ ¬s.Heard 9)) = some true by decide +kernel)
    obtain ⟨hreturned, hnot⟩ := of_decide_eq_true hmiss
    exact ⟨s', hs', hreturned, hnot⟩
  exact hnot (h 9 fresh s' hastyScript fresh_init hs' hreturned)

end Bridge

end WaterNet.Tcp.Connector
