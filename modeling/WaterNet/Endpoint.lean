import WaterNet.Message

/-!
# An endpoint: what `give` accepts and what `recv` returns (`endpoint.rs`, `queue.rs`)

`Endpoint.Internal` is the part of the endpoint's shared state that messages meet: its addresses,
its queue, the memory counter and the two limits.  The `net` an endpoint holds is the net it is
on, so `getserveraddr()` is the parameter `netsid`.  `usize` and `AtomicUint` are `UInt64`.

* `routes_iff`, `underLimits_iff` — the chain of early returns of `give` as one condition each;
* `give_eq` — `give` never panics: it enqueues the message and accounts for it, or does nothing;
* `recv` — the receive loop, which discards sync messages that are already taken;
  `recv_recvs` — what it passes over, and what it returns.
-/

namespace WaterNet

/-- `queue::SafeQueue`, a mutex around a `Vec`. -/
abbrev SafeQueue (α : Type) := List α

namespace SafeQueue

variable {α : Type}

/-- `SafeQueue::put`. -/
def put (q : SafeQueue α) (t : α) : SafeQueue α := q ++ [t]

/-- `SafeQueue::get`: `remove(0)` unless the queue is empty. -/
def get : SafeQueue α → Option (α × SafeQueue α)
  | [] => none
  | t :: q => some (t, q)

end SafeQueue

/-- `Endpoint::id`, the address of the shared structure. -/
abbrev EpId := ℕ

inductive IoErrorCode where
  | timedOut
  | noMessages
  deriving DecidableEq, Repr

abbrev IoResult (α : Type) := Except IoErrorCode α

namespace Endpoint

structure AddressData where
  eid : ID
  sid : ID
  gid : ID
  deriving DecidableEq, Repr

/-- `endpoint::Internal`, as far as messages go. -/
structure Internal where
  address : AddressData
  messages : SafeQueue Message
  memoryused : UInt64
  limitpending : UInt64
  limitmemory : UInt64
  deriving DecidableEq, Repr

/-- `Endpoint::new`. -/
def new (sid eid : ID) : Internal :=
  { address := { eid := eid, sid := sid, gid := UNUSED_ID }
    messages := [], memoryused := 0, limitpending := 0, limitmemory := 0 }

namespace Internal

/-- The address tests of `Endpoint::give`, in the order of its early returns. -/
def routes (ep : Internal) (netsid : ID) (msg : Message) : Bool :=
  -- do not send to the endpoint that it originated from
  if !msg.canloop && msg.srceid == ep.address.eid && msg.srcsid == ep.address.sid then false
  -- it must be to a specific net and we are not it
  else if msg.dstsid != 0 && msg.dstsid != 1 && msg.dstsid != ep.address.sid then false
  -- it is to the local net, but we are not part of the local net
  else if msg.dstsid != 0 && msg.dstsid == 1 && ep.address.sid != netsid then false
  -- it is to a specific endpoint and we are not it
  else if msg.dsteid != 0 && msg.dsteid != ep.address.eid then false
  else true

/-- The limit tests of `Endpoint::give`. -/
def underLimits (ep : Internal) : Bool :=
  if ep.limitpending > 0 ∧ ep.messages.length ≥ ep.limitpending.toNat then false
  else if ep.limitmemory > 0 ∧ ep.memoryused ≥ ep.limitmemory then false
  else true

/-- The put of `Endpoint::give`, under `waitmutex`. -/
def putMsg (ep : Internal) (cloned : Message) : Internal :=
  { ep with messages := ep.messages.put cloned }

/-- `memoryused.fetch_add`. -/
def fetchAdd (ep : Internal) (cap : UInt64) : Internal :=
  { ep with memoryused := ep.memoryused + cap }

/-- `memoryused.fetch_sub`. -/
def fetchSub (ep : Internal) (sz : UInt64) : Internal :=
  { ep with memoryused := ep.memoryused - sz }

/-- `Endpoint::give`, run without interruption; `none` would be a panic in a clone. -/
def give (ep : Internal) (netsid : ID) (st : Store) (msg : Message) : Option (Bool × Internal) :=
  if ep.routes netsid msg && ep.underLimits then do
    let cloned ← msg.giveClone
    some (true, (ep.putMsg cloned).fetchAdd (msg.cap st))
  else some (false, ep)

/-- The loop of `Internal::recv` over what the queue holds. -/
def recvLoop (ep : Internal) (st : Store) :
    SafeQueue Message → UInt64 → IoResult Message × Internal × Store
  | [], mem => (.error .noMessages, { ep with messages := [], memoryused := mem }, st)
  | entry :: rest, mem =>
    let (msg, st) := entry.dupIfok st
    let mem := mem - msg.cap st
    match msg.payload with
    | .raw r =>
      let (r', st) := st.newBuf (st.buf r.i).dup
      (.ok { msg with payload := .raw r' }, { ep with messages := rest, memoryused := mem }, st)
    | .sync s =>
      match st.takeasvalid s with
      | (true, st) => (.ok msg, { ep with messages := rest, memoryused := mem }, st)
      | (false, st) => recvLoop ep st rest mem
    | .clone _ => (.ok msg, { ep with messages := rest, memoryused := mem }, st)

/-- `Internal::recv`, run without interruption. -/
def recv (ep : Internal) (st : Store) : IoResult Message × Internal × Store :=
  ep.recvLoop st ep.messages ep.memoryused

/-! ### What `give` does -/

/-- **The address tests.**  Not the loop-back case, and both destination fields match. -/
theorem routes_iff (ep : Internal) (netsid : ID) (msg : Message) :
    ep.routes netsid msg = true ↔
      ¬(msg.canloop = false ∧ msg.srceid = ep.address.eid ∧ msg.srcsid = ep.address.sid) ∧
      (msg.dstsid = 0 ∨ (msg.dstsid = 1 ∧ ep.address.sid = netsid) ∨
        (msg.dstsid ≠ 0 ∧ msg.dstsid ≠ 1 ∧ msg.dstsid = ep.address.sid)) ∧
      (msg.dsteid = 0 ∨ msg.dsteid = ep.address.eid) := by
  have hloop : (!msg.canloop && msg.srceid == ep.address.eid && msg.srcsid == ep.address.sid) = true
      ↔ (msg.canloop = false ∧ msg.srceid = ep.address.eid ∧ msg.srcsid = ep.address.sid) := by
    simp [and_assoc]
  unfold routes
  by_cases hl : msg.canloop = false ∧ msg.srceid = ep.address.eid ∧ msg.srcsid = ep.address.sid
  · rw [if_pos (hloop.mpr hl)]
    simp [hl]
  · rw [if_neg (mt hloop.mp hl)]
    by_cases h0 : msg.dstsid = 0
    · simp [hl, h0, or_iff_not_imp_left]
    · by_cases h1 : msg.dstsid = 1
      · simp [hl, h1, or_iff_not_imp_left]
      · simp [hl, h0, h1, or_iff_not_imp_left]

/-- **The limit tests.**  A limit of zero admits everything. -/
theorem underLimits_iff (ep : Internal) :
    ep.underLimits = true ↔
      (ep.limitpending = 0 ∨ ep.messages.length < ep.limitpending.toNat) ∧
      (ep.limitmemory = 0 ∨ ep.memoryused < ep.limitmemory) := by
  unfold underLimits
  simp only [gt_iff_lt, UInt64.pos_iff_ne_zero, ge_iff_le]
  split
  · rename_i h
    simp [h.1, Nat.not_lt.mpr h.2]
  · rename_i h
    have hp : ep.limitpending = 0 ∨ ep.messages.length < ep.limitpending.toNat := by
      rcases eq_or_ne ep.limitpending 0 with h0 | h0
      · exact Or.inl h0
      · exact Or.inr (Nat.not_le.mp fun hle => h ⟨h0, hle⟩)
    split
    · rename_i hm
      simp [hm.1, UInt64.not_lt.mpr hm.2]
    · rename_i hm
      rcases eq_or_ne ep.limitmemory 0 with h0 | h0
      · simp [hp, h0]
      · simp [hp, UInt64.not_le.mp fun hle => hm ⟨h0, hle⟩]

/-- **`give` in one line.**  It never panics, and all it changes is the queue and the counter. -/
theorem give_eq (ep : Internal) (netsid : ID) (st : Store) (msg : Message) :
    ep.give netsid st msg =
      some (if ep.routes netsid msg && ep.underLimits
        then (true, (ep.putMsg msg).fetchAdd (msg.cap st)) else (false, ep)) := by
  unfold give
  split <;> simp

/-- Messages change an endpoint's queue and counter, and none of its settings. -/
structure SameSettings (ep ep' : Internal) : Prop where
  address : ep'.address = ep.address
  limitpending : ep'.limitpending = ep.limitpending
  limitmemory : ep'.limitmemory = ep.limitmemory

theorem SameSettings.refl (ep : Internal) : SameSettings ep ep := ⟨rfl, rfl, rfl⟩

theorem SameSettings.trans {ep ep' ep'' : Internal} (h : SameSettings ep ep')
    (h' : SameSettings ep' ep'') : SameSettings ep ep'' :=
  ⟨h'.address.trans h.address, h'.limitpending.trans h.limitpending,
    h'.limitmemory.trans h.limitmemory⟩

/-! ### What `recv` does -/

/-- What a `recv` makes of the queue `q`: it passes over messages that are not raw, to the end or
to the message it returns, which has the header of its queue entry. -/
inductive Recvs (ep : Internal) (q : SafeQueue Message) : IoResult Message → Internal → Prop where
  | empty {mem : UInt64} (hpre : ∀ c ∈ q, c.isRaw = false) :
      Recvs ep q (.error .noMessages) { ep with messages := [], memoryused := mem }
  | took {pre rest : List Message} {copy msg : Message} {mem : UInt64}
      (hq : q = pre ++ copy :: rest) (hpre : ∀ c ∈ pre, c.isRaw = false)
      (hmsg : msg = { copy with payload := msg.payload }) (hraw : msg.isRaw = copy.isRaw) :
      Recvs ep q (.ok msg) { ep with messages := rest, memoryused := mem }

theorem Recvs.cons {ep ep' : Internal} {q : SafeQueue Message} {c : Message}
    {res : IoResult Message} (hc : c.isRaw = false) (h : Recvs ep q res ep') :
    Recvs ep (c :: q) res ep' := by
  cases h with
  | empty hpre => exact .empty (List.forall_mem_cons.mpr ⟨hc, hpre⟩)
  | @took pre rest copy msg mem hq hpre hmsg hraw =>
    exact .took (congrArg (c :: ·) hq) (List.forall_mem_cons.mpr ⟨hc, hpre⟩) hmsg hraw

theorem Recvs.settings {ep ep' : Internal} {q : SafeQueue Message} {res : IoResult Message}
    (h : Recvs ep q res ep') : SameSettings ep ep' := by
  cases h <;> exact ⟨rfl, rfl, rfl⟩

theorem Recvs.subset {ep ep' : Internal} {q : SafeQueue Message} {res : IoResult Message}
    (h : Recvs ep q res ep') : ∀ m ∈ ep'.messages, m ∈ q := by
  cases h with
  | empty hpre => exact fun m hm => by cases hm
  | took hq =>
    intro m hm
    rw [hq]
    exact List.mem_append_right _ (List.mem_cons_of_mem _ hm)

/-- What is returned has the header of a message that was in the queue. -/
theorem Recvs.returned {ep ep' : Internal} {q : SafeQueue Message} {msg : Message}
    (h : Recvs ep q (.ok msg) ep') :
    ∃ copy ∈ q, msg = { copy with payload := msg.payload } ∧ msg.isRaw = copy.isRaw := by
  cases h with
  | @took pre rest copy msg mem hq hpre hmsg hraw =>
    refine ⟨copy, ?_, hmsg, hraw⟩
    rw [hq]
    exact List.mem_append_right _ List.mem_cons_self

theorem recvLoop_recvs (ep : Internal) (q : SafeQueue Message) (st : Store) (mem : UInt64) :
    Recvs ep q (ep.recvLoop st q mem).1 (ep.recvLoop st q mem).2.1 := by
  induction q generalizing st mem with
  | nil => exact .empty (fun _ h => by cases h)
  | cons entry rest ih =>
    rw [recvLoop]
    cases hp : entry.payload with
    | raw r =>
      have hraw := Message.isRaw_of_payload hp
      rw [Message.dupIfok_raw hraw]
      exact .took (List.nil_append _).symm (fun _ h => by cases h) rfl hraw.symm
    | sync s =>
      have hraw := Message.isRaw_false_of_sync hp
      rw [Message.dupIfok_of_not_raw hraw]
      simp only [hp]
      by_cases hv : st.valid s.valid = true
      · rw [Store.takeasvalid, if_pos hv]
        exact .took (List.nil_append _).symm (fun _ h => by cases h) rfl rfl
      · rw [Store.takeasvalid, if_neg hv]
        exact (ih st _).cons hraw
    | clone c =>
      have hraw := Message.isRaw_false_of_clone hp
      rw [Message.dupIfok_of_not_raw hraw]
      simp only [hp]
      exact .took (List.nil_append _).symm (fun _ h => by cases h) rfl rfl

theorem recv_recvs (ep : Internal) (st : Store) :
    Recvs ep ep.messages (ep.recv st).1 (ep.recv st).2.1 :=
  recvLoop_recvs ep ep.messages st ep.memoryused

/-- What is in the queue decides whether `recv` returns a message. -/
theorem recvLoop_ok_iff (ep : Internal) (q : SafeQueue Message) (st : Store) (mem : UInt64) :
    (∃ msg, (ep.recvLoop st q mem).1 = .ok msg) ↔ ∃ m ∈ q, m.receivable st = true := by
  induction q generalizing mem with
  | nil => simp [recvLoop]
  | cons entry rest ih =>
    rw [recvLoop]
    cases hp : entry.payload with
    | raw r =>
      have hraw := Message.isRaw_of_payload hp
      rw [Message.dupIfok_raw hraw]
      simp [Message.onFresh, Message.receivable, Message.flag, hp]
    | sync s =>
      have hraw := Message.isRaw_false_of_sync hp
      rw [Message.dupIfok_of_not_raw hraw]
      simp only [hp]
      by_cases hv : st.valid s.valid = true
      · rw [Store.takeasvalid, if_pos hv]
        simp [Message.receivable, Message.flag, hp, hv]
      · rw [Store.takeasvalid, if_neg hv, ih]
        simp [Message.receivable, Message.flag, hp, hv]
    | clone c =>
      have hraw := Message.isRaw_false_of_clone hp
      rw [Message.dupIfok_of_not_raw hraw]
      simp [Message.receivable, Message.flag, hp]

theorem recv_ok_iff (ep : Internal) (st : Store) :
    (∃ msg, (ep.recv st).1 = .ok msg) ↔ ∃ m ∈ ep.messages, m.receivable st = true :=
  recvLoop_ok_iff ep ep.messages st ep.memoryused

@[simp] theorem putMsg_messages (ep : Internal) (m : Message) :
    (ep.putMsg m).messages = ep.messages ++ [m] := rfl

@[simp] theorem putMsg_address (ep : Internal) (m : Message) :
    (ep.putMsg m).address = ep.address := rfl

@[simp] theorem fetchAdd_messages (ep : Internal) (c : UInt64) :
    (ep.fetchAdd c).messages = ep.messages := rfl

@[simp] theorem fetchAdd_address (ep : Internal) (c : UInt64) :
    (ep.fetchAdd c).address = ep.address := rfl

@[simp] theorem fetchSub_messages (ep : Internal) (c : UInt64) :
    (ep.fetchSub c).messages = ep.messages := rfl

@[simp] theorem fetchSub_address (ep : Internal) (c : UInt64) :
    (ep.fetchSub c).address = ep.address := rfl

end Internal

end Endpoint

end WaterNet
