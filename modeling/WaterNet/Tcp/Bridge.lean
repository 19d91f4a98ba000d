import WaterNet.Lib.Machine
import WaterNet.Tcp.Codec

/-!
# Two nets joined by a bridge (`tcp/mod.rs`, `tcp/listener.rs`, `tcp/connector.rs`)

A `Side` is a net with the endpoint its bridge put on it and the frames its `thread_tx` has written
and the peer has not read.  A step is one whole send of an ordinary endpoint, one pass of a
`thread_tx` or a `thread_rx`, a `recv` of an ordinary endpoint, or the `setsid` at the head of a
`thread_rx`.  A run is any list of actions.

* `step` — the machine; a pass of `thread_rx` reads the bytes of one frame with `rxOne`;
* `Offered`, `offer_offered` — what putting a message on a net does to queues and logs;
* `Trans`, `step_trans` — inversion of a step.

`sent`, `given` and `written` are history variables: the messages sent on the side so far, which
endpoint was given a copy of which of them, and the frames written.
-/

namespace WaterNet.Tcp

open Endpoint (Internal)

/-- `tcp::Which`: the end of a link that accepted it, and the one that connected. -/
inductive Which where
  | listener
  | connector
  deriving DecidableEq, Repr

namespace Which

def other : Which → Which
  | .listener => .connector
  | .connector => .listener

/-- A number for the side, to name its sends by. -/
def num : Which → ℕ
  | .listener => 0
  | .connector => 1

@[simp] theorem other_other (w : Which) : w.other.other = w := by cases w <;> rfl

@[simp] theorem other_ne (w : Which) : w.other ≠ w := by cases w <;> decide

@[simp] theorem ne_other (w : Which) : w ≠ w.other := by cases w <;> decide

theorem eq_or_eq_other (w v : Which) : v = w ∨ v = w.other := by
  cases w <;> cases v <;> simp [other]

theorem num_injective {w v : Which} (h : w.num = v.num) : w = v := by
  cases w <;> cases v <;> first | rfl | cases h

end Which

structure Side where
  net : Net
  /-- the endpoint that the bridge added to the net -/
  bridge : EpId
  /-- `thread_rx` has read the sid of the peer -/
  greeted : Bool
  /-- frames written and not yet read by the peer -/
  out : List Carried
  txDone : Bool
  rxDone : Bool
  sent : List Message
  given : List (EpId × SendId)
  written : List Carried

abbrev Link := Which → Side

/-- The endpoint that `thread_accept` and the connector put on the net for a new link. -/
def bridgeEndpoint (net : Net) (id : EpId) : Net :=
  let (eid, net) := net.getNeweid
  let (gid, net) := net.getNeweid
  net.addEndpoint id { Endpoint.new UNUSED_ID eid with
    address := { eid := eid, sid := UNUSED_ID, gid := gid } }

namespace Side

/-- `Net::send`, with a note of who is given the message. -/
def offer (sd : Side) (msg : Message) : Option Side := do
  let (_, net) ← sd.net.send msg
  some { sd with
    net := net
    given := sd.given ++
      (sd.net.endpoints.filter (sd.net.accepts msg)).map fun e => (e, msg.origin) }

/-- What `Endpoint::send` of `e` makes of `m`, named as the next send of the side. -/
def stamp (sd : Side) (w : Which) (e : EpId) (m : Message) : Message :=
  { m with
    srcsid := (sd.net.eps e).address.sid
    srceid := (sd.net.eps e).address.eid
    origin := ⟨w.num, sd.sent.length⟩ }

/-- One pass of the loop of `thread_tx`. -/
def tx (terminate : TypeId) (sd : Side) : Side :=
  match sd.net.recvAt sd.bridge with
  | (.error _, net) => { sd with net := net }
  | (.ok msg, net) =>
    if msg.isType terminate then { sd with net := net, txDone := true, rxDone := true }
    else if !msg.isRaw then { sd with net := net }
    else
      { sd with
        net := net
        out := sd.out ++ [(msg, net.store.buf msg.buf)]
        written := sd.written ++ [(msg, net.store.buf msg.buf)] }

/-- One pass of the loop of `thread_rx` over the frame written for `x`. -/
def rx (junk : ℕ → UInt8) (x : Carried) (sd : Side) : Option Side :=
  (rxOne junk sd.net.store (frameBytes x)).message.bind fun (msg, st) =>
    { sd with net := { sd.net with store := st } }.offer { msg with origin := x.1.origin }

end Side

inductive Act where
  /-- the ordinary endpoint `e` sends `m` -/
  | send (w : Which) (e : EpId) (m : Message)
  | tx (w : Which)
  | rx (w : Which) (junk : ℕ → UInt8)
  | recv (w : Which) (e : EpId)
  /-- `thread_rx` reads the sid of the peer -/
  | greet (w : Which)

namespace Link

def set (s : Link) (w : Which) (sd : Side) : Link := Function.update s w sd

@[simp] theorem set_self (s : Link) (w : Which) (sd : Side) : s.set w sd w = sd := by simp [set]

@[simp] theorem set_other (s : Link) (w : Which) (sd : Side) : s.set w sd w.other = s w.other := by
  simp [set]

@[simp] theorem set_other' (s : Link) (w : Which) (sd : Side) : s.set w.other sd w = s w := by
  simp [set]

/-- `terminate` is the type identity of `TerminateMessage`. -/
def step (terminate : TypeId) (s : Link) : Act → Option Link
  | .send w e m =>
    if e ∈ (s w).net.endpoints ∧ e ≠ (s w).bridge then do
      let sd ← (s w).offer ((s w).stamp w e m)
      some (s.set w { sd with sent := sd.sent ++ [(s w).stamp w e m] })
    else none
  | .tx w => if (s w).txDone then none else some (s.set w ((s w).tx terminate))
  | .rx w junk =>
    match (s w.other).out with
    | [] => none
    | x :: rest =>
      if (s w).rxDone || !(s w).greeted then none
      else do
        let sd ← (s w).rx junk x
        some ((s.set w.other { s w.other with out := rest }).set w sd)
  | .recv w e =>
    if e ∈ (s w).net.endpoints ∧ e ≠ (s w).bridge then
      some (s.set w { s w with net := ((s w).net.recvAt e).2 })
    else none
  | .greet w =>
    if (s w).greeted then none
    else some (s.set w { s w with
      net := (s w).net.setsid (s w).bridge (s w.other).net.sid, greeted := true })

end Link

/-! ### Putting a message on a net -/

/-- What the net of a side looks like after `msg` was put on it: a copy `c` is at the back of the
queue of every endpoint that accepts it, and is noted in `given`. -/
structure Offered (sd : Side) (msg : Message) (sd' : Side) : Prop where
  frame : sd' = { sd with net := sd'.net, given := sd'.given }
  given : sd'.given = sd.given ++
    (sd.net.endpoints.filter (sd.net.accepts msg)).map fun e => (e, msg.origin)
  endpoints : sd'.net.endpoints = sd.net.endpoints
  sid : sd'.net.sid = sd.net.sid
  settings : ∀ e, Internal.SameSettings (sd.net.eps e) (sd'.net.eps e)
  queues : ∃ c, Net.header c = Net.header msg ∧ c.origin = msg.origin ∧ c.isRaw = msg.isRaw ∧
    ∀ e, (sd'.net.eps e).messages = (sd.net.eps e).messages ++
      if e ∈ sd.net.endpoints ∧ sd.net.accepts msg e = true then [c] else []

theorem offer_offered {sd sd' : Side} {msg : Message} (hnd : sd.net.endpoints.Nodup)
    (h : sd.offer msg = some sd') : Offered sd msg sd' := by
  rw [Side.offer, Net.send_eq_deliver _ _ hnd] at h
  cases h
  constructor
  · rfl
  · rfl
  · exact Net.copied_endpoints sd.net msg
  · exact Net.copied_sid sd.net msg
  · intro e
    simp only [Net.deliver, Net.taken, Net.copied_eps]
    split <;> exact ⟨rfl, rfl, rfl⟩
  · refine ⟨(sd.net.copied msg).1, Net.copied_header sd.net msg, Net.copied_origin sd.net msg,
      Net.copied_isRaw sd.net msg, fun e => ?_⟩
    simp only [Net.deliver, Net.taken, Net.copied_eps, List.mem_filter]
    split <;> simp

/-- A pass of `thread_rx` puts the message it read on the net. -/
theorem rx_offered {junk : ℕ → UInt8} {x : Carried} {sd sd' : Side}
    (hnd : sd.net.endpoints.Nodup) (h : sd.rx junk x = some sd') :
    ∃ st, Offered { sd with net := { sd.net with store := st } }
      { received sd.net.store x with origin := x.1.origin } sd' := by
  obtain ⟨⟨msg, st⟩, hrx, hoff⟩ := Option.bind_eq_some_iff.mp h
  have hnd' : ({ sd with net := { sd.net with store := st } } : Side).net.endpoints.Nodup := hnd
  obtain rfl := rxOne_frameBytes_header hrx
  exact ⟨st, offer_offered hnd' hoff⟩

namespace Link

/-! ### Inversion -/

/-- **What one step can do.** -/
inductive Trans (s : Link) : Act → Link → Prop where
  | send {w e m sd} (he : e ∈ (s w).net.endpoints) (hne : e ≠ (s w).bridge)
      (hoff : Offered (s w) ((s w).stamp w e m) sd) :
      Trans s (.send w e m) (s.set w { sd with sent := sd.sent ++ [(s w).stamp w e m] })
  | txQuiet {w sd} (hquiet : ∀ msg, ((s w).net.recvAt (s w).bridge).1 = .ok msg → msg.isRaw = false)
      (hsd : sd = { s w with
        net := ((s w).net.recvAt (s w).bridge).2, txDone := sd.txDone, rxDone := sd.rxDone }) :
      Trans s (.tx w) (s.set w sd)
  | txFrame {w msg x} (hmsg : ((s w).net.recvAt (s w).bridge).1 = .ok msg) (hraw : msg.isRaw = true)
      (hx : x.1 = msg) :
      Trans s (.tx w) (s.set w { s w with
        net := ((s w).net.recvAt (s w).bridge).2
        out := (s w).out ++ [x]
        written := (s w).written ++ [x] })
  | rx {w junk x rest st sd} (hout : (s w.other).out = x :: rest)
      (hoff : Offered { s w with net := { (s w).net with store := st } }
        { received (s w).net.store x with origin := x.1.origin } sd) :
      Trans s (.rx w junk) ((s.set w.other { s w.other with out := rest }).set w sd)
  | recv {w e} (hne : e ≠ (s w).bridge) :
      Trans s (.recv w e) (s.set w { s w with net := ((s w).net.recvAt e).2 })
  | greet {w} (hnot : (s w).greeted = false) :
      Trans s (.greet w) (s.set w { s w with
        net := (s w).net.setsid (s w).bridge (s w.other).net.sid, greeted := true })

theorem tx_trans (terminate : TypeId) (s : Link) (w : Which) :
    Trans s (.tx w) (s.set w ((s w).tx terminate)) := by
  rcases hrecv : (s w).net.recvAt (s w).bridge with ⟨res, net⟩
  have hres : ((s w).net.recvAt (s w).bridge).1 = res := by rw [hrecv]
  have hnet : ((s w).net.recvAt (s w).bridge).2 = net := by rw [hrecv]
  cases res with
  | error err =>
    refine .txQuiet (fun msg h => by rw [hres] at h; cases h) ?_
    rw [hnet, Side.tx, hrecv]
  | ok msg =>
    by_cases hraw : msg.isRaw = true
    · -- a raw message has no type, so it is not the one that ends the thread
      obtain ⟨r, hr⟩ := Message.isRaw_iff.mp hraw
      have htype : msg.isType terminate = false := by simp [Message.isType, hr]
      have htx : (s w).tx terminate = { s w with
          net := ((s w).net.recvAt (s w).bridge).2
          out := (s w).out ++ [(msg, net.store.buf msg.buf)]
          written := (s w).written ++ [(msg, net.store.buf msg.buf)] } := by
        rw [hnet, Side.tx, hrecv]
        simp [htype, hraw]
      rw [htx]
      exact .txFrame hres hraw rfl
    · refine .txQuiet (fun msg' h => ?_) ?_
      · rw [hres] at h
        cases h
        exact Bool.eq_false_iff.mpr hraw
      · rw [hnet, Side.tx, hrecv]
        by_cases htype : msg.isType terminate = true
        · simp [htype]
        · simp [htype, hraw]

/-- **Inversion of a step** of nets that list each endpoint once. -/
theorem step_trans {terminate : TypeId} {s s' : Link} {a : Act}
    (hnd : ∀ w, (s w).net.endpoints.Nodup) (h : s.step terminate a = some s') : Trans s a s' := by
  cases a with
  | send w e m =>
    simp only [step] at h
    split at h
    · rename_i he
      simp only [Option.bind_eq_bind, Option.bind_eq_some_iff] at h
      obtain ⟨sd, hoff, h⟩ := h
      cases h
      exact .send he.1 he.2 (offer_offered (hnd w) hoff)
    · cases h
  | tx w =>
    simp only [step] at h
    split at h
    · cases h
    · cases h
      exact tx_trans terminate s w
  | rx w junk =>
    simp only [step] at h
    split at h
    · cases h
    · rename_i x rest hout
      split at h
      · cases h
      · simp only [Option.bind_eq_bind, Option.bind_eq_some_iff] at h
        obtain ⟨sd, hrx, h⟩ := h
        cases h
        obtain ⟨st, hoff⟩ := rx_offered (hnd w) hrx
        exact .rx hout hoff
  | recv w e =>
    simp only [step] at h
    split at h
    · rename_i he
      cases h
      exact .recv he.2
    · cases h
  | greet w =>
    simp only [step] at h
    split at h
    · cases h
    · rename_i hnot
      cases h
      exact .greet (Bool.eq_false_iff.mpr hnot)

end Link

end WaterNet.Tcp
