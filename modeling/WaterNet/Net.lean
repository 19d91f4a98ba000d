import WaterNet.Endpoint

/-!
# A net: sending to every endpoint on it (`net.rs`)

`Net` is the state one net's endpoints share: the list of endpoints, the endpoints themselves
under their identities, and the cells their messages point to.  An endpoint in `endpoints` is on
this net, so the `getserveraddr()` it asks for is `sid`.

* `send_address` — a send never panics, and changes no address;
* `giveEach_eq`, `sendInternal_eq` — the loop of `send_internal` in closed form: over a list of
  distinct endpoints it puts the message into exactly the accepting ones;
* `send_delivers` — **routing exactness** of `Net::send` and `Endpoint::send`, run without
  interruption.
-/

namespace WaterNet

open Endpoint (Internal)

structure Net where
  sid : ID
  /-- highest unused endpoint id -/
  hueid : ID
  endpoints : List EpId
  eps : EpId → Internal
  store : Store

namespace Net

/-- `Net::new`. -/
def new (sid : ID) : Net :=
  { sid := sid, hueid := 0x10000, endpoints := [], eps := fun _ => Endpoint.new 0 0
    store := Store.empty }

/-- `Net::add_endpoint`, for an endpoint made on this net under the identity `id`. -/
def addEndpoint (net : Net) (id : EpId) (ep : Internal) : Net :=
  { net with endpoints := net.endpoints ++ [id], eps := Function.update net.eps id ep }

/-- `Net::get_neweid`. -/
def getNeweid (net : Net) : ID × Net := (net.hueid, { net with hueid := net.hueid + 1 })

/-- `Net::new_endpoint`; `id` is the identity of the structure it allocates. -/
def newEndpoint (net : Net) (id : EpId) : Net :=
  { net with hueid := net.hueid + 1 }.addEndpoint id (Endpoint.new net.sid net.hueid)

/-- `Net::new_endpoint_withid`. -/
def newEndpointWithid (net : Net) (id : EpId) (eid : ID) : Net :=
  (if eid > net.hueid then { net with hueid := eid + 1 } else net).addEndpoint id
    (Endpoint.new net.sid eid)

/-- `Endpoint::setsid` of the endpoint `e`. -/
def setsid (net : Net) (e : EpId) (sid : ID) : Net :=
  { net with
    eps := Function.update net.eps e
      { net.eps e with address := { (net.eps e).address with sid := sid } } }

@[simp] theorem setsid_eps_self (net : Net) (e : EpId) (sid : ID) : (net.setsid e sid).eps e =
    { net.eps e with address := { (net.eps e).address with sid := sid } } := by
  simp [setsid]

/-- The loop of `send_internal` over its snapshot of the endpoint list. -/
def giveEach (msg : Message) : List EpId → ℕ → Net → Option (ℕ × Net)
  | [], ocnt, net => some (ocnt, net)
  | e :: rest, ocnt, net => do
    let (took, ep) ← (net.eps e).give net.sid net.store msg
    giveEach msg rest (if took then ocnt + 1 else ocnt)
      { net with eps := Function.update net.eps e ep }

/-- `Net::send_internal`: the number of endpoints that took the message. -/
def sendInternal (net : Net) (msg : Message) : Option (ℕ × Net) :=
  giveEach msg net.endpoints 0 net

/-- The message `Net::send` hands to `send_internal`: a raw message is duplicated, so that its
buffer is not shared with the sender. -/
def sendCopy (msg : Message) (st : Store) : Option (Message × Store) :=
  if msg.isRaw then msg.dup st else some (msg, st)

/-- `Net::send`, run without interruption; `none` would be a panic. -/
def send (net : Net) (msg : Message) : Option (ℕ × Net) := do
  let (msg, st) ← sendCopy msg net.store
  { net with store := st }.sendInternal msg

/-- `Net::sendas`. -/
def sendas (net : Net) (msg : Message) (fromsid fromeid : ID) : Option (ℕ × Net) :=
  net.send { msg with srcsid := fromsid, srceid := fromeid }

/-- `Endpoint::send` of the endpoint `e`. -/
def endpointSend (net : Net) (e : EpId) (msg : Message) : Option (ℕ × Net) :=
  net.sendas msg (net.eps e).address.sid (net.eps e).address.eid

/-- `Endpoint::sendx` of any endpoint on the net. -/
def endpointSendx (net : Net) (msg : Message) : Option (ℕ × Net) := net.send msg

/-- `Endpoint::recv` of the endpoint `e`, run without interruption. -/
def recvAt (net : Net) (e : EpId) : IoResult Message × Net :=
  let (res, ep, st) := (net.eps e).recv net.store
  (res, { net with eps := Function.update net.eps e ep, store := st })

/-! ### The loop in closed form -/

/-- Whether the endpoint `e` of the net takes the message now. -/
def accepts (net : Net) (msg : Message) (e : EpId) : Bool :=
  (net.eps e).routes net.sid msg && (net.eps e).underLimits

/-- The endpoint's state after it took the message. -/
def taken (net : Net) (msg : Message) (e : EpId) : Internal :=
  ((net.eps e).putMsg msg).fetchAdd (msg.cap net.store)

/-- One `give` of the loop. -/
theorem give_at (net : Net) (msg : Message) (e : EpId) :
    (net.eps e).give net.sid net.store msg =
      some (if net.accepts msg e then (true, net.taken msg e) else (false, net.eps e)) :=
  Internal.give_eq _ _ _ _

/-- The net after the message went to the endpoints of a list. -/
def deliver (net : Net) (msg : Message) (es : List EpId) : Net :=
  { net with eps := fun e => if e ∈ es then net.taken msg e else net.eps e }

theorem deliver_nil (net : Net) (msg : Message) : net.deliver msg [] = net := by
  simp [deliver]

/-- A give to an endpoint outside the list comes before or after the others alike. -/
theorem deliver_cons (net : Net) (msg : Message) (e : EpId) (es : List EpId) (he : e ∉ es) :
    net.deliver msg (e :: es) =
      { net with eps := Function.update net.eps e (net.taken msg e) }.deliver msg es := by
  simp only [deliver, mk.injEq, true_and, and_true]
  funext x
  by_cases hx : x = e
  · subst hx
    simp [he]
  · simp [hx, taken]

/-- **The give loop.**  Over distinct endpoints it counts and serves the accepting ones. -/
theorem giveEach_eq (msg : Message) (es : List EpId) (hnd : es.Nodup) :
    ∀ (ocnt : ℕ) (net : Net), giveEach msg es ocnt net =
      some (ocnt + (es.filter (net.accepts msg)).length,
        net.deliver msg (es.filter (net.accepts msg))) := by
  induction es with
  | nil =>
    intro ocnt net
    simp [giveEach, deliver_nil]
  | cons e es ih =>
    intro ocnt net
    obtain ⟨he, hnd⟩ := List.nodup_cons.mp hnd
    rw [giveEach, give_at, Option.bind_eq_bind, Option.bind_some]
    by_cases hacc : net.accepts msg e = true
    · -- the endpoint takes the message, and what the others decide does not depend on it
      have hrest : es.filter (({ net with eps := Function.update net.eps e (net.taken msg e) }
          : Net).accepts msg) = es.filter (net.accepts msg) := by
        apply List.filter_congr
        intro x hx
        have hne : x ≠ e := fun h => he (h ▸ hx)
        simp [accepts, Function.update_of_ne hne]
      have hsplit := deliver_cons net msg e (es.filter (net.accepts msg))
        (fun h => he (List.mem_of_mem_filter h))
      rw [if_pos hacc]
      simp only [if_true]
      rw [ih hnd, hrest, List.filter_cons_of_pos hacc, hsplit, List.length_cons]
      congr 2
      omega
    · have hself : ({ net with eps := Function.update net.eps e (net.eps e) } : Net) = net := by
        simp
      rw [if_neg hacc]
      simp only [Bool.false_eq_true, if_false]
      rw [hself, ih hnd, List.filter_cons_of_neg hacc]

theorem sendInternal_eq (net : Net) (msg : Message) (hnd : net.endpoints.Nodup) :
    net.sendInternal msg = some ((net.endpoints.filter (net.accepts msg)).length,
      net.deliver msg (net.endpoints.filter (net.accepts msg))) := by
  rw [sendInternal, giveEach_eq msg _ hnd, Nat.zero_add]

/-! ### One receive -/

@[simp] theorem recvAt_endpoints (net : Net) (e : EpId) :
    (net.recvAt e).2.endpoints = net.endpoints := rfl

@[simp] theorem recvAt_sid (net : Net) (e : EpId) : (net.recvAt e).2.sid = net.sid := rfl

theorem recvAt_recvs (net : Net) (e : EpId) :
    (net.eps e).Recvs (net.eps e).messages (net.recvAt e).1 ((net.recvAt e).2.eps e) := by
  have h := Internal.recv_recvs (net.eps e) net.store
  simpa [recvAt] using h

theorem recvAt_eps_of_ne (net : Net) {e e' : EpId} (h : e' ≠ e) :
    (net.recvAt e).2.eps e' = net.eps e' := by
  simp [recvAt, Function.update_of_ne h]

theorem recvAt_settings (net : Net) (e e' : EpId) :
    Internal.SameSettings (net.eps e') ((net.recvAt e).2.eps e') := by
  by_cases h : e' = e
  · subst h
    exact (recvAt_recvs net e').settings
  · rw [recvAt_eps_of_ne net h]
    exact .refl _

/-! ### The copy a send puts on the net -/

/-- The message and the store after the duplication at the head of `Net::send`. -/
def copied (net : Net) (msg : Message) : Message × Net :=
  if msg.isRaw then
    (msg.onFresh net.store,
      { net with store := (net.store.newBuf (net.store.buf msg.buf).dup).2 })
  else (msg, net)

theorem send_eq (net : Net) (msg : Message) :
    net.send msg = (net.copied msg).2.sendInternal (net.copied msg).1 := by
  unfold send sendCopy copied
  by_cases hraw : msg.isRaw = true
  · simp [hraw, Message.dup_raw hraw]
  · simp [hraw]

@[simp] theorem copied_eps (net : Net) (msg : Message) : (net.copied msg).2.eps = net.eps := by
  unfold copied
  split <;> rfl

@[simp] theorem copied_endpoints (net : Net) (msg : Message) :
    (net.copied msg).2.endpoints = net.endpoints := by
  unfold copied
  split <;> rfl

@[simp] theorem copied_sid (net : Net) (msg : Message) : (net.copied msg).2.sid = net.sid := by
  unfold copied
  split <;> rfl

@[simp] theorem copied_hueid (net : Net) (msg : Message) :
    (net.copied msg).2.hueid = net.hueid := by
  unfold copied
  split <;> rfl

/-- The five header fields of a message. -/
def header (m : Message) : ID × ID × ID × ID × Bool :=
  (m.srcsid, m.srceid, m.dstsid, m.dsteid, m.canloop)

@[simp] theorem copied_header (net : Net) (msg : Message) :
    header (net.copied msg).1 = header msg := by
  unfold copied
  split <;> rfl

@[simp] theorem copied_origin (net : Net) (msg : Message) :
    (net.copied msg).1.origin = msg.origin := by
  unfold copied
  split <;> rfl

@[simp] theorem copied_isRaw (net : Net) (msg : Message) :
    (net.copied msg).1.isRaw = msg.isRaw := by
  unfold copied
  split
  · rename_i h
    rw [h]
    rfl
  · rfl

/-- The copy has the capacity of the message it was made from. -/
theorem copied_cap (net : Net) (msg : Message) :
    (net.copied msg).1.cap (net.copied msg).2.store = msg.cap net.store := by
  unfold copied
  split
  · simp [Message.cap_eq]
  · rfl

/-- A raw message is copied into a fresh buffer, any other is handed on as it is. -/
theorem copied_payload (net : Net) (msg : Message) :
    (msg.isRaw = true ∧ (net.copied msg).1.isRaw = true ∧
      (net.copied msg).2.store.buf (net.copied msg).1.buf = (net.store.buf msg.buf).dup) ∨
    (msg.isRaw = false ∧ (net.copied msg).1 = msg) := by
  unfold copied
  by_cases hraw : msg.isRaw = true
  · simp [hraw]
  · simp [hraw]

/-- The cells that were there before the duplication are as they were. -/
theorem copied_kept (net : Net) (msg : Message) {b : ℕ} (hb : b < net.store.nbuf) :
    (net.copied msg).2.store.buf b = net.store.buf b := by
  unfold copied
  split
  · exact Store.newBuf_buf_of_lt net.store _ hb
  · rfl

@[simp] theorem copied_valid (net : Net) (msg : Message) :
    (net.copied msg).2.store.valid = net.store.valid := by
  unfold copied
  split <;> rfl

@[simp] theorem copied_nvalid (net : Net) (msg : Message) :
    (net.copied msg).2.store.nvalid = net.store.nvalid := by
  unfold copied
  split <;> rfl

/-- Only the header decides who takes a message. -/
theorem accepts_congr {net net' : Net} {m m' : Message} (hsid : net'.sid = net.sid)
    (heps : net'.eps = net.eps) (hm : header m' = header m) :
    net'.accepts m' = net.accepts m := by
  simp only [header, Prod.mk.injEq] at hm
  obtain ⟨h1, h2, h3, h4, h5⟩ := hm
  funext e
  simp [accepts, Internal.routes, hsid, heps, h1, h2, h3, h4, h5]

theorem copied_accepts (net : Net) (msg : Message) :
    (net.copied msg).2.accepts (net.copied msg).1 = net.accepts msg :=
  accepts_congr (copied_sid net msg) (copied_eps net msg) (copied_header net msg)

/-- **`Net::send` in closed form**, for a net that lists each endpoint once. -/
theorem send_eq_deliver (net : Net) (msg : Message) (hnd : net.endpoints.Nodup) :
    net.send msg = some ((net.endpoints.filter (net.accepts msg)).length,
      (net.copied msg).2.deliver (net.copied msg).1 (net.endpoints.filter (net.accepts msg))) := by
  rw [send_eq, sendInternal_eq _ _ (by rw [copied_endpoints]; exact hnd), copied_endpoints,
    copied_accepts]

/-- Whatever the endpoint list, a send succeeds and changes no address. -/
theorem giveEach_address (msg : Message) (es : List EpId) (ocnt : ℕ) (net : Net) :
    ∃ n net', giveEach msg es ocnt net = some (n, net') ∧
      ∀ e, (net'.eps e).address = (net.eps e).address := by
  induction es generalizing ocnt net with
  | nil => exact ⟨ocnt, net, rfl, fun _ => rfl⟩
  | cons e₀ es ih =>
    obtain ⟨took, ep, hgive, hep⟩ : ∃ took ep, (net.eps e₀).give net.sid net.store msg =
        some (took, ep) ∧ ep.address = (net.eps e₀).address := by
      rw [give_at]
      split <;> exact ⟨_, _, rfl, rfl⟩
    rw [giveEach, hgive, Option.bind_eq_bind, Option.bind_some]
    obtain ⟨n, net', hrest, hsame⟩ := ih (if took then ocnt + 1 else ocnt)
      { net with eps := Function.update net.eps e₀ ep }
    refine ⟨n, net', hrest, fun e => (hsame e).trans ?_⟩
    show (Function.update net.eps e₀ ep e).address = (net.eps e).address
    by_cases he : e = e₀
    · subst he
      rw [Function.update_self, hep]
    · rw [Function.update_of_ne he]

theorem send_address (net : Net) (msg : Message) :
    ∃ n net', net.send msg = some (n, net') ∧
      ∀ e, (net'.eps e).address = (net.eps e).address := by
  rw [send_eq]
  obtain ⟨n, net', hsend, hsame⟩ := giveEach_address (net.copied msg).1
    (net.copied msg).2.endpoints 0 (net.copied msg).2
  exact ⟨n, net', hsend, fun e => by rw [hsame e, copied_eps]⟩

/-! ### Routing exactness -/

/-- Who a message is for: not the endpoint it came from, unless it can loop; on the net and the
endpoint it names; and where the limits leave room. -/
def Takes (netsid : ID) (ep : Internal) (m : Message) : Prop :=
  ¬(m.canloop = false ∧ m.srceid = ep.address.eid ∧ m.srcsid = ep.address.sid) ∧
  (m.dstsid = 0 ∨ (m.dstsid = 1 ∧ ep.address.sid = netsid) ∨
    (m.dstsid ≠ 0 ∧ m.dstsid ≠ 1 ∧ m.dstsid = ep.address.sid)) ∧
  (m.dsteid = 0 ∨ m.dsteid = ep.address.eid) ∧
  (ep.limitpending = 0 ∨ ep.messages.length < ep.limitpending.toNat) ∧
  (ep.limitmemory = 0 ∨ ep.memoryused < ep.limitmemory)

instance (netsid : ID) (ep : Internal) (m : Message) : Decidable (Takes netsid ep m) := by
  unfold Takes
  infer_instance

theorem accepts_iff (net : Net) (m : Message) (e : EpId) :
    net.accepts m e = true ↔ Takes net.sid (net.eps e) m := by
  rw [accepts, Bool.and_eq_true, Internal.routes_iff, Internal.underLimits_iff, Takes]
  simp only [and_assoc]

/-- What routing exactness says of a send of `m` that returned `n` and left the net as `net'`:
`c` is the copy that went to the endpoints that take `m`, and nothing else changed, neither on the net
nor in the cells that its messages share. -/
structure Delivers (net : Net) (m : Message) (n : ℕ) (net' : Net) (c : Message) : Prop where
  header : header c = header m
  /-- a raw message is copied into the next fresh buffer, any other is handed on with its cells -/
  payload : (m.isRaw = true ∧ c = m.onFresh net.store ∧
      net'.store.buf c.buf = (net.store.buf m.buf).dup ∧ net'.store.nbuf = net.store.nbuf + 1) ∨
    (m.isRaw = false ∧ c = m ∧ net'.store = net.store)
  kept : ∀ b < net.store.nbuf, net'.store.buf b = net.store.buf b
  valid : net'.store.valid = net.store.valid
  nvalid : net'.store.nvalid = net.store.nvalid
  cap : c.cap net'.store = m.cap net.store
  takers : ∀ e ∈ net.endpoints, Takes net.sid (net.eps e) m →
    net'.eps e = { net.eps e with
      messages := (net.eps e).messages ++ [c]
      memoryused := (net.eps e).memoryused + m.cap net.store }
  others : ∀ e, ¬(e ∈ net.endpoints ∧ Takes net.sid (net.eps e) m) → net'.eps e = net.eps e
  count : n = (net.endpoints.filter fun e => Takes net.sid (net.eps e) m).length
  endpoints : net'.endpoints = net.endpoints
  sid : net'.sid = net.sid
  hueid : net'.hueid = net.hueid

theorem delivers_of_send (net : Net) (m : Message) (hnd : net.endpoints.Nodup) :
    ∃ n net' c, net.send m = some (n, net') ∧ net.Delivers m n net' c := by
  refine ⟨_, _, (net.copied m).1, send_eq_deliver net m hnd, ?_⟩
  have hfilter : (net.endpoints.filter (net.accepts m)) =
      net.endpoints.filter fun e => decide (Takes net.sid (net.eps e) m) := by
    apply List.filter_congr
    intro e _
    rw [Bool.eq_iff_iff, accepts_iff, decide_eq_true_iff]
  constructor
  · exact copied_header net m
  · unfold copied
    by_cases hraw : m.isRaw = true
    · exact Or.inl (by simp [hraw, deliver])
    · exact Or.inr (by simp [hraw, deliver])
  · exact fun b hb => copied_kept net m hb
  · exact copied_valid net m
  · exact copied_nvalid net m
  · exact copied_cap net m
  · intro e he htakes
    have hmem : e ∈ net.endpoints.filter (net.accepts m) :=
      List.mem_filter.mpr ⟨he, (accepts_iff net m e).mpr htakes⟩
    simp only [deliver, if_pos hmem, taken, copied_eps, copied_cap]
    rfl
  · intro e hnot
    have hmem : e ∉ net.endpoints.filter (net.accepts m) := by
      intro h
      obtain ⟨he, hacc⟩ := List.mem_filter.mp h
      exact hnot ⟨he, (accepts_iff net m e).mp hacc⟩
    simp only [deliver, if_neg hmem, copied_eps]
  · rw [hfilter]
  · simp [deliver]
  · simp [deliver]
  · simp [deliver]

/-- **Routing exactness.**  On a net that lists each endpoint once, `Net::send` returns the number
of endpoints that take the message; each of them has one copy more at the back of its queue and
the message's capacity more on its counter.  Every other endpoint, every buffer and every `valid` flag
is as it was, and the copy of a raw message is in a buffer of its own.  `Endpoint::send` does the same
for the message with the sender's addresses as its source. -/
theorem send_delivers (net : Net) (m : Message) (hnd : net.endpoints.Nodup) :
    (∃ n net' c, net.send m = some (n, net') ∧ net.Delivers m n net' c) ∧
    ∀ e, ∃ n net' c, net.endpointSend e m = some (n, net') ∧
      net.Delivers { m with srcsid := (net.eps e).address.sid, srceid := (net.eps e).address.eid }
        n net' c :=
  ⟨delivers_of_send net m hnd, fun _ => delivers_of_send net _ hnd⟩

/-- Two endpoints on the net 100, where a raw message of four bytes has been made. -/
def sendPair : Net × Message :=
  let (m, st) := Message.newRaw Store.empty (fun _ => 7) 4
  ({ ((Net.new 100).newEndpoint 0).newEndpoint 1 with store := st }, m)

/-- The second endpoint takes what the first one broadcasts, and what nobody sent both take. -/
theorem send_delivers_pair :
    (∃ n net' c, sendPair.1.send sendPair.2 = some (n, net') ∧
      sendPair.1.Delivers sendPair.2 n net' c) ∧
    ∀ e, ∃ n net' c, sendPair.1.endpointSend e sendPair.2 = some (n, net') ∧
      sendPair.1.Delivers { sendPair.2 with
        srcsid := (sendPair.1.eps e).address.sid, srceid := (sendPair.1.eps e).address.eid } n net' c :=
  send_delivers _ _ (by decide)

end Net

end WaterNet
