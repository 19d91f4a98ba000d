import WaterNet.Lib.Machine
import WaterNet.Net

/-!
# Traffic on a net: sends and receives of any number of threads, interleaved

Each thread is at a program point `Pc` inside one library call; one action moves one thread by one
atomic step of `Net::send`, `Endpoint::give` or `Internal::recv`.  The other actions start a call
or let user code change the messages it holds.  A run is any list of actions.

* `World.step` — the machine; `World.advance` is one atomic step of a thread inside a call;
* `Advance`, `advance_cases`, `Trans`, `step_trans` — **inversion**: what an atomic step of a thread,
  and what any step can do, with the guards it passed;
* `Init` — where runs start: idle threads, empty queues, nothing allocated.

`held` are the messages user code owns.  `trace` is a history variable: the events of the run so
far, oldest first.  `waitmutex` is the mutex `give` holds from its put to its `fetch_add`.  The
wake-up at the end of `give` has no effect here.
-/

namespace WaterNet.Traffic

open Endpoint (Internal AddressData)

/-- History variable: the thread of a `recv` call and how many it had finished before. -/
structure RecvId where
  thread : ℕ
  seq : ℕ
  deriving DecidableEq, Repr

/-- Where a thread is.  `copy` is the queue entry a `recv` works on, `msg` what it made of it. -/
inductive Pc where
  | idle
  /-- `Net::send` entered, the raw message not yet duplicated -/
  | sendDup (m : Message)
  /-- `send_internal` entered, the endpoint list not yet cloned -/
  | sendSnap (m : Message)
  /-- at the head of the loop of `send_internal` -/
  | giving (m : Message) (todo : List EpId) (ocnt : ℕ)
  /-- in `give`, past the tests -/
  | putting (m : Message) (e : EpId) (todo : List EpId) (ocnt : ℕ)
  /-- in `give`, past the put -/
  | adding (m : Message) (e : EpId) (todo : List EpId) (ocnt : ℕ)
  /-- at the head of the loop of `recv` -/
  | recvGet (e : EpId)
  | recvDup (e : EpId) (copy : Message)
  | recvSub (e : EpId) (copy msg : Message)
  | recvEnd (e : EpId) (copy msg : Message)
  deriving DecidableEq, Repr

/-- A thread: where it is, how many sends it has made and how many `recv` calls it has finished. -/
structure Thread where
  pc : Pc
  sent : ℕ
  recvs : ℕ
  deriving DecidableEq, Repr

inductive Event where
  /-- a send took its copy of `m`, whose buffer held `content` -/
  | sent (id : SendId) (m : Message) (content : RawMessage.Internal)
  /-- `give` put `m` into the queue of `e` -/
  | put (e : EpId) (m : Message)
  /-- a `recv` took `m` out of the queue of `e` -/
  | got (e : EpId) (id : RecvId) (m : Message)
  /-- that `recv` returned `msg` for it, whose buffer held `content` -/
  | returned (e : EpId) (id : RecvId) (copy msg : Message) (content : RawMessage.Internal)
  /-- that `recv` threw it away -/
  | discarded (e : EpId) (id : RecvId) (copy : Message)
  deriving DecidableEq, Repr

structure World where
  net : Net
  waitmutex : EpId → Bool
  threads : List Thread
  held : List Message
  trace : List Event

/-- The three ways to send: with the addresses of an endpoint, as it is, or as someone else. -/
inductive Sender where
  | send (e : EpId)
  | sendx
  | sendas (fromsid fromeid : ID)

/-- What user code does with the messages it holds and with the endpoints. -/
inductive UserOp where
  | newRaw (junk : ℕ → UInt8) (cap : UInt64)
  | newSync (junk : ℕ → UInt8) (ty : TypeId) (t : List UInt8)
  | newClone (junk : ℕ → UInt8) (ty : TypeId) (t : List UInt8)
  | setHeader (i : ℕ) (srcsid srceid dstsid dsteid : ID) (canloop : Bool)
  /-- `Message::clone` of the held message `i` -/
  | clone (i : ℕ)
  /-- `Message::dup` of the held message `i` -/
  | dup (i : ℕ)
  /-- `Message::new_fromraw` over the payload of the held message `i` -/
  | fromPayload (i : ℕ)
  /-- a call on the payload of the held message `i` -/
  | write (i : ℕ) (op : RawMessage.RawOp)
  | drop (i : ℕ)
  | setAddress (e : EpId) (address : AddressData)
  | setLimits (e : EpId) (limitpending limitmemory : UInt64)

inductive Act where
  | user (op : UserOp)
  | send (t i : ℕ) (how : Sender)
  | recv (t : ℕ) (e : EpId)
  | step (t : ℕ)

/-- The message with the source fields the call gives it. -/
def Sender.stamp (net : Net) (m : Message) : Sender → Message
  | .send e => { m with srcsid := (net.eps e).address.sid, srceid := (net.eps e).address.eid }
  | .sendx => m
  | .sendas fromsid fromeid => { m with srcsid := fromsid, srceid := fromeid }

namespace World

/-! ### The machine -/

@[simp] def setPc (w : World) (t : ℕ) (th : Thread) : World :=
  { w with threads := w.threads.set t th }

@[simp] def setStore (w : World) (st : Store) : World := { w with net := { w.net with store := st } }

@[simp] def setEp (w : World) (e : EpId) (ep : Internal) : World :=
  { w with net := { w.net with eps := Function.update w.net.eps e ep } }

@[simp] def lock (w : World) (e : EpId) (b : Bool) : World :=
  { w with waitmutex := Function.update w.waitmutex e b }

@[simp] def hold (w : World) (held : List Message) : World := { w with held := held }

@[simp] def log (w : World) (ev : Event) : World := { w with trace := w.trace ++ [ev] }

def userStep (w : World) : UserOp → Option World
  | .newRaw junk cap =>
    let (m, st) := Message.newRaw w.net.store junk cap
    some ((w.setStore st).hold (w.held ++ [m]))
  | .newSync junk ty t =>
    let (m, st) := Message.newSync w.net.store junk ty t
    some ((w.setStore st).hold (w.held ++ [m]))
  | .newClone junk ty t =>
    let (m, st) := Message.newClone w.net.store junk ty t
    some ((w.setStore st).hold (w.held ++ [m]))
  | .setHeader i srcsid srceid dstsid dsteid canloop =>
    w.held[i]?.map fun m => w.hold (w.held.set i { m with
      srcsid := srcsid, srceid := srceid, dstsid := dstsid, dsteid := dsteid, canloop := canloop })
  | .clone i => do
    let m ← w.held[i]?
    let m' ← m.clone
    some (w.hold (w.held ++ [m']))
  | .dup i => do
    let m ← w.held[i]?
    let (m', st) ← m.dup w.net.store
    some ((w.setStore st).hold (w.held ++ [m']))
  | .fromPayload i =>
    w.held[i]?.map fun m => w.hold (w.held ++ [Message.newFromraw ⟨m.buf⟩])
  | .write i op => do
    let m ← w.held[i]?
    let b ← op.apply (w.net.store.buf m.buf)
    some (w.setStore (w.net.store.setBuf ⟨m.buf⟩ b))
  | .drop i => some (w.hold (w.held.eraseIdx i))
  | .setAddress e address => some (w.setEp e { w.net.eps e with address := address })
  | .setLimits e limitpending limitmemory =>
    some (w.setEp e { w.net.eps e with limitpending := limitpending, limitmemory := limitmemory })

/-- The end of a `recv` call: user code gets `msg`. -/
def giveBack (w : World) (t : ℕ) (th : Thread) (e : EpId) (copy msg : Message) : World :=
  ((w.setPc t { th with pc := .idle, recvs := th.recvs + 1 }).hold (w.held ++ [msg])).log
    (.returned e ⟨t, th.recvs⟩ copy msg (w.net.store.buf msg.buf))

/-- One atomic step of the thread `t`, which is in the state `th`. -/
def advance (w : World) (t : ℕ) (th : Thread) : Option World :=
  match th.pc with
  | .idle => none
  | .sendDup m => do
    let (m', st) ← Net.sendCopy m w.net.store
    some (((w.setStore st).setPc t { th with pc := .sendSnap m', sent := th.sent + 1 }).log
      (.sent m.origin m (w.net.store.buf m.buf)))
  | .sendSnap m => some (w.setPc t { th with pc := .giving m w.net.endpoints 0 })
  | .giving _ [] _ => some (w.setPc t { th with pc := .idle })
  | .giving m (e :: todo) ocnt =>
    if w.net.accepts m e then some (w.setPc t { th with pc := .putting m e todo ocnt })
    else some (w.setPc t { th with pc := .giving m todo ocnt })
  | .putting m e todo ocnt =>
    if w.waitmutex e then none
    else do
      let cloned ← m.giveClone
      some ((((w.setEp e ((w.net.eps e).putMsg cloned)).lock e true).setPc t
        { th with pc := .adding m e todo ocnt }).log (.put e cloned))
  | .adding m e todo ocnt =>
    some (((w.setEp e ((w.net.eps e).fetchAdd (m.cap w.net.store))).lock e false).setPc t
      { th with pc := .giving m todo (ocnt + 1) })
  | .recvGet e =>
    match (w.net.eps e).messages.get with
    | none => some (w.setPc t { th with pc := .idle, recvs := th.recvs + 1 })
    | some (copy, rest) =>
      some (((w.setEp e { w.net.eps e with messages := rest }).setPc t
        { th with pc := .recvDup e copy }).log (.got e ⟨t, th.recvs⟩ copy))
  | .recvDup e copy =>
    let (msg, st) := copy.dupIfok w.net.store
    some ((w.setStore st).setPc t { th with pc := .recvSub e copy msg })
  | .recvSub e copy msg =>
    some ((w.setEp e ((w.net.eps e).fetchSub (msg.cap w.net.store))).setPc t
      { th with pc := .recvEnd e copy msg })
  | .recvEnd e copy msg =>
    match msg.payload with
    | .raw _ => do
      let (msg', st) ← msg.dup w.net.store
      some ((w.setStore st).giveBack t th e copy msg')
    | .sync s =>
      match w.net.store.takeasvalid s with
      | (true, st) => some ((w.setStore st).giveBack t th e copy msg)
      | (false, _) =>
        some ((w.setPc t { th with pc := .recvGet e }).log (.discarded e ⟨t, th.recvs⟩ copy))
    | .clone _ => some (w.giveBack t th e copy msg)

/-- A call can be started by a thread that is in none. -/
def step (w : World) : Act → Option World
  | .user op => w.userStep op
  | .send t i how => do
    let th ← w.threads[t]?
    let m ← w.held[i]?
    if th.pc = .idle then
      some ((w.setPc t { th with
        pc := .sendDup { how.stamp w.net m with origin := ⟨t, th.sent⟩ } }).hold
          (w.held.eraseIdx i))
    else none
  | .recv t e => do
    let th ← w.threads[t]?
    if th.pc = .idle then some (w.setPc t { th with pc := .recvGet e }) else none
  | .step t => do
    let th ← w.threads[t]?
    w.advance t th

/-- The states runs start in: any net of idle threads whose queues are empty, with nothing
allocated and nothing held. -/
structure Init (w : World) : Prop where
  distinct : w.net.endpoints.Nodup
  store : w.net.store = Store.empty
  mutex : ∀ e, w.waitmutex e = false
  queues : ∀ e, (w.net.eps e).messages = []
  threads : ∀ th ∈ w.threads, th.pc = .idle
  held : w.held = []
  trace : w.trace = []

/-! ### Inversion -/

/-- **What one atomic step of a thread can do**, with the guards it passed. -/
inductive Advance (w : World) (t : ℕ) (th : Thread) : World → Prop where
  | sendDup {m} (hpc : th.pc = .sendDup m) :
      Advance w t th (((w.setStore (w.net.copied m).2.store).setPc t
        { th with pc := .sendSnap (w.net.copied m).1, sent := th.sent + 1 }).log
        (.sent m.origin m (w.net.store.buf m.buf)))
  | sendSnap {m} (hpc : th.pc = .sendSnap m) :
      Advance w t th (w.setPc t { th with pc := .giving m w.net.endpoints 0 })
  | sendDone {m ocnt} (hpc : th.pc = .giving m [] ocnt) :
      Advance w t th (w.setPc t { th with pc := .idle })
  | accept {m e todo ocnt} (hpc : th.pc = .giving m (e :: todo) ocnt)
      (hacc : w.net.accepts m e = true) :
      Advance w t th (w.setPc t { th with pc := .putting m e todo ocnt })
  | refuse {m e todo ocnt} (hpc : th.pc = .giving m (e :: todo) ocnt)
      (hacc : w.net.accepts m e = false) :
      Advance w t th (w.setPc t { th with pc := .giving m todo ocnt })
  | put {m e todo ocnt} (hpc : th.pc = .putting m e todo ocnt) (hfree : w.waitmutex e = false) :
      Advance w t th ((((w.setEp e ((w.net.eps e).putMsg m)).lock e true).setPc t
        { th with pc := .adding m e todo ocnt }).log (.put e m))
  | add {m e todo ocnt} (hpc : th.pc = .adding m e todo ocnt) :
      Advance w t th (((w.setEp e ((w.net.eps e).fetchAdd (m.cap w.net.store))).lock e false).setPc t
        { th with pc := .giving m todo (ocnt + 1) })
  | recvNone {e} (hpc : th.pc = .recvGet e) (hq : (w.net.eps e).messages = []) :
      Advance w t th (w.setPc t { th with pc := .idle, recvs := th.recvs + 1 })
  | recvGet {e copy rest} (hpc : th.pc = .recvGet e) (hq : (w.net.eps e).messages = copy :: rest) :
      Advance w t th (((w.setEp e { w.net.eps e with messages := rest }).setPc t
        { th with pc := .recvDup e copy }).log (.got e ⟨t, th.recvs⟩ copy))
  | recvDup {e copy} (hpc : th.pc = .recvDup e copy) :
      Advance w t th ((w.setStore (copy.dupIfok w.net.store).2).setPc t
        { th with pc := .recvSub e copy (copy.dupIfok w.net.store).1 })
  | recvSub {e copy msg} (hpc : th.pc = .recvSub e copy msg) :
      Advance w t th ((w.setEp e ((w.net.eps e).fetchSub (msg.cap w.net.store))).setPc t
        { th with pc := .recvEnd e copy msg })
  | retRaw {e copy msg} (hpc : th.pc = .recvEnd e copy msg) (hraw : msg.isRaw = true) :
      Advance w t th ((w.setStore (w.net.store.newBuf (w.net.store.buf msg.buf).dup).2).giveBack t th
        e copy (msg.onFresh w.net.store))
  | retSync {e copy msg s} (hpc : th.pc = .recvEnd e copy msg) (hs : msg.payload = .sync s)
      (hv : w.net.store.valid s.valid = true) :
      Advance w t th ((w.setStore { w.net.store with
        valid := Function.update w.net.store.valid s.valid false }).giveBack t th e copy msg)
  | discard {e copy msg s} (hpc : th.pc = .recvEnd e copy msg) (hs : msg.payload = .sync s)
      (hv : w.net.store.valid s.valid = false) :
      Advance w t th ((w.setPc t { th with pc := .recvGet e }).log
        (.discarded e ⟨t, th.recvs⟩ copy))
  | retClone {e copy msg c} (hpc : th.pc = .recvEnd e copy msg) (hc : msg.payload = .clone c) :
      Advance w t th (w.giveBack t th e copy msg)

/-- **What one step can do.**  One constructor for each atomic step, with what is known there. -/
inductive Trans (w : World) : World → Prop where
  | user {op w'} (h : w.userStep op = some w') : Trans w w'
  | startSend {t th i m} {how : Sender} (ht : w.threads[t]? = some th) (hpc : th.pc = .idle)
      (hm : w.held[i]? = some m) :
      Trans w ((w.setPc t { th with
        pc := .sendDup { how.stamp w.net m with origin := ⟨t, th.sent⟩ } }).hold (w.held.eraseIdx i))
  | startRecv {t th e} (ht : w.threads[t]? = some th) (hpc : th.pc = .idle) :
      Trans w (w.setPc t { th with pc := .recvGet e })
  | sendDup {t th m} (ht : w.threads[t]? = some th) (hpc : th.pc = .sendDup m) :
      Trans w (((w.setStore (w.net.copied m).2.store).setPc t
        { th with pc := .sendSnap (w.net.copied m).1, sent := th.sent + 1 }).log
        (.sent m.origin m (w.net.store.buf m.buf)))
  | sendSnap {t th m} (ht : w.threads[t]? = some th) (hpc : th.pc = .sendSnap m) :
      Trans w (w.setPc t { th with pc := .giving m w.net.endpoints 0 })
  | sendDone {t th m ocnt} (ht : w.threads[t]? = some th) (hpc : th.pc = .giving m [] ocnt) :
      Trans w (w.setPc t { th with pc := .idle })
  | accept {t th m e todo ocnt} (ht : w.threads[t]? = some th)
      (hpc : th.pc = .giving m (e :: todo) ocnt) (hacc : w.net.accepts m e = true) :
      Trans w (w.setPc t { th with pc := .putting m e todo ocnt })
  | refuse {t th m e todo ocnt} (ht : w.threads[t]? = some th)
      (hpc : th.pc = .giving m (e :: todo) ocnt) (hacc : w.net.accepts m e = false) :
      Trans w (w.setPc t { th with pc := .giving m todo ocnt })
  | put {t th m e todo ocnt} (ht : w.threads[t]? = some th)
      (hpc : th.pc = .putting m e todo ocnt) (hfree : w.waitmutex e = false) :
      Trans w ((((w.setEp e ((w.net.eps e).putMsg m)).lock e true).setPc t
        { th with pc := .adding m e todo ocnt }).log (.put e m))
  | add {t th m e todo ocnt} (ht : w.threads[t]? = some th)
      (hpc : th.pc = .adding m e todo ocnt) :
      Trans w (((w.setEp e ((w.net.eps e).fetchAdd (m.cap w.net.store))).lock e false).setPc t
        { th with pc := .giving m todo (ocnt + 1) })
  | recvNone {t th e} (ht : w.threads[t]? = some th) (hpc : th.pc = .recvGet e)
      (hq : (w.net.eps e).messages = []) :
      Trans w (w.setPc t { th with pc := .idle, recvs := th.recvs + 1 })
  | recvGet {t th e copy rest} (ht : w.threads[t]? = some th) (hpc : th.pc = .recvGet e)
      (hq : (w.net.eps e).messages = copy :: rest) :
      Trans w (((w.setEp e { w.net.eps e with messages := rest }).setPc t
        { th with pc := .recvDup e copy }).log (.got e ⟨t, th.recvs⟩ copy))
  | recvDup {t th e copy} (ht : w.threads[t]? = some th) (hpc : th.pc = .recvDup e copy) :
      Trans w ((w.setStore (copy.dupIfok w.net.store).2).setPc t
        { th with pc := .recvSub e copy (copy.dupIfok w.net.store).1 })
  | recvSub {t th e copy msg} (ht : w.threads[t]? = some th) (hpc : th.pc = .recvSub e copy msg) :
      Trans w ((w.setEp e ((w.net.eps e).fetchSub (msg.cap w.net.store))).setPc t
        { th with pc := .recvEnd e copy msg })
  | retRaw {t th e copy msg} (ht : w.threads[t]? = some th) (hpc : th.pc = .recvEnd e copy msg)
      (hraw : msg.isRaw = true) :
      Trans w ((w.setStore (w.net.store.newBuf (w.net.store.buf msg.buf).dup).2).giveBack t th e copy
        (msg.onFresh w.net.store))
  | retSync {t th e copy msg s} (ht : w.threads[t]? = some th) (hpc : th.pc = .recvEnd e copy msg)
      (hs : msg.payload = .sync s) (hv : w.net.store.valid s.valid = true) :
      Trans w ((w.setStore { w.net.store with
        valid := Function.update w.net.store.valid s.valid false }).giveBack t th e copy msg)
  | discard {t th e copy msg s} (ht : w.threads[t]? = some th) (hpc : th.pc = .recvEnd e copy msg)
      (hs : msg.payload = .sync s) (hv : w.net.store.valid s.valid = false) :
      Trans w ((w.setPc t { th with pc := .recvGet e }).log (.discarded e ⟨t, th.recvs⟩ copy))
  | retClone {t th e copy msg c} (ht : w.threads[t]? = some th) (hpc : th.pc = .recvEnd e copy msg)
      (hc : msg.payload = .clone c) :
      Trans w (w.giveBack t th e copy msg)

theorem sendCopy_eq (net : Net) (m : Message) :
    Net.sendCopy m net.store = some ((net.copied m).1, (net.copied m).2.store) := by
  unfold Net.sendCopy Net.copied
  by_cases hraw : m.isRaw = true
  · simp [hraw, Message.dup_raw hraw]
  · simp [hraw]

/-- **Inversion of an atomic step.** -/
theorem advance_cases {w w' : World} {t : ℕ} {th : Thread} (h : w.advance t th = some w') :
    Advance w t th w' := by
  unfold advance at h
  split at h
  case h_1 => cases h
  case h_2 m hpc =>
    rw [sendCopy_eq] at h
    cases h
    exact .sendDup hpc
  case h_3 m hpc =>
    cases h
    exact .sendSnap hpc
  case h_4 m ocnt hpc =>
    cases h
    exact .sendDone hpc
  case h_5 m e todo ocnt hpc =>
    by_cases hacc : w.net.accepts m e = true
    · rw [if_pos hacc] at h
      cases h
      exact .accept hpc hacc
    · rw [if_neg hacc] at h
      cases h
      exact .refuse hpc (Bool.eq_false_iff.mpr hacc)
  case h_6 m e todo ocnt hpc =>
    by_cases hw : w.waitmutex e = true
    · rw [if_pos hw] at h
      cases h
    · rw [if_neg hw, Message.giveClone_eq] at h
      cases h
      exact .put hpc (Bool.eq_false_iff.mpr hw)
  case h_7 m e todo ocnt hpc =>
    cases h
    exact .add hpc
  case h_8 e hpc =>
    cases hq : (w.net.eps e).messages with
    | nil =>
      rw [hq] at h
      cases h
      exact .recvNone hpc hq
    | cons copy rest =>
      rw [hq] at h
      cases h
      exact .recvGet hpc hq
  case h_9 e copy hpc =>
    cases h
    exact .recvDup hpc
  case h_10 e copy msg hpc =>
    cases h
    exact .recvSub hpc
  case h_11 e copy msg hpc =>
    split at h
    case h_1 r hr =>
      have hraw := Message.isRaw_of_payload hr
      rw [Message.dup_raw hraw] at h
      cases h
      exact .retRaw hpc hraw
    case h_2 s hs =>
      unfold Store.takeasvalid at h
      by_cases hv : w.net.store.valid s.valid = true
      · rw [if_pos hv] at h
        cases h
        exact .retSync hpc hs hv
      · rw [if_neg hv] at h
        cases h
        exact .discard hpc hs (Bool.eq_false_iff.mpr hv)
    case h_3 c hc =>
      cases h
      exact .retClone hpc hc

theorem advance_trans {w w' : World} {t : ℕ} {th : Thread} (ht : w.threads[t]? = some th)
    (h : w.advance t th = some w') : Trans w w' := by
  cases advance_cases h with
  | sendDup hpc => exact .sendDup ht hpc
  | sendSnap hpc => exact .sendSnap ht hpc
  | sendDone hpc => exact .sendDone ht hpc
  | accept hpc hacc => exact .accept ht hpc hacc
  | refuse hpc hacc => exact .refuse ht hpc hacc
  | put hpc hfree => exact .put ht hpc hfree
  | add hpc => exact .add ht hpc
  | recvNone hpc hq => exact .recvNone ht hpc hq
  | recvGet hpc hq => exact .recvGet ht hpc hq
  | recvDup hpc => exact .recvDup ht hpc
  | recvSub hpc => exact .recvSub ht hpc
  | retRaw hpc hraw => exact .retRaw ht hpc hraw
  | retSync hpc hs hv => exact .retSync ht hpc hs hv
  | discard hpc hs hv => exact .discard ht hpc hs hv
  | retClone hpc hc => exact .retClone ht hpc hc

/-- **Inversion of a step.** -/
theorem step_trans {w w' : World} {a : Act} (h : w.step a = some w') : Trans w w' := by
  cases a with
  | user op => exact .user h
  | send t i how =>
    simp only [step, Option.bind_eq_bind, Option.bind_eq_some_iff] at h
    obtain ⟨th, ht, m, hm, h⟩ := h
    split at h
    · rename_i hpc
      cases h
      exact .startSend ht hpc hm
    · cases h
  | recv t e =>
    simp only [step, Option.bind_eq_bind, Option.bind_eq_some_iff] at h
    obtain ⟨th, ht, h⟩ := h
    split at h
    · rename_i hpc
      cases h
      exact .startRecv ht hpc
    · cases h
  | step t =>
    simp only [step, Option.bind_eq_bind, Option.bind_eq_some_iff] at h
    obtain ⟨th, ht, h⟩ := h
    exact advance_trans ht h

end World

end WaterNet.Traffic
