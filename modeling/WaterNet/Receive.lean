import Mathlib.Algebra.BigOperators.Group.List.Basic
import Mathlib.Algebra.Ring.Nat
import Mathlib.Data.List.TakeWhile
import WaterNet.Net

/-!
# What a `recv` takes, and what it leaves (`endpoint.rs`)

`Internal::recv` throws away the sync messages at the front of its queue that were taken elsewhere,
and returns the message after them.  `endpoint::recv` does so for one endpoint of a list after the
other, until one of them has a message.

* `recvIter_eq` — **the loop terminates**: each pass shortens the queue;
* `Receives`, `recv_receives` — one `recv` in full: what it passed over, what it returned, the flag
  it cleared, the counter;
* `recv_spec` — the same in terms of the longest prefix of taken sync messages;
* `recvList_lossless` — **nothing is lost** by receiving on a list of endpoints.
-/

namespace WaterNet

namespace Message

/-- A sync message that somebody has taken. -/
def isTaken (st : Store) (m : Message) : Bool :=
  match m.payload with
  | .sync s => !st.valid s.valid
  | _ => false

theorem receivable_eq (st : Store) (m : Message) : m.receivable st = !m.isTaken st := by
  cases hp : m.payload <;> simp [receivable, isTaken, flag, hp]

end Message

/-- The bytes that some messages take up. -/
def capSum (st : Store) (q : List Message) : ℕ := (q.map fun m => (m.cap st).toNat).sum

@[simp] theorem capSum_nil (st : Store) : capSum st [] = 0 := rfl

@[simp] theorem capSum_cons (st : Store) (m : Message) (q : List Message) :
    capSum st (m :: q) = (m.cap st).toNat + capSum st q := rfl

theorem capSum_append (st : Store) (p q : List Message) :
    capSum st (p ++ q) = capSum st p + capSum st q := by
  simp [capSum]

/-- Only the buffers of the messages matter. -/
theorem capSum_congr {st st' : Store} {q : List Message}
    (h : ∀ m ∈ q, st'.buf m.buf = st.buf m.buf) : capSum st' q = capSum st q := by
  induction q with
  | nil => rfl
  | cons m q ih =>
    rw [capSum_cons, capSum_cons, ih fun x hx => h x (List.mem_cons_of_mem m hx), Message.cap_eq,
      Message.cap_eq, h m List.mem_cons_self]

/-- What a `recv` hands out for the queue entry `m`, and the cells after it. -/
structure Returns (st : Store) (m msg : Message) (st' : Store) : Prop where
  header : msg = { m with payload := msg.payload }
  /-- a raw message is copied into a buffer of its own -/
  raw : m.isRaw = true → msg.isRaw = true ∧ st.nbuf ≤ msg.buf ∧
    (st'.buf msg.buf).cap = (st.buf m.buf).cap ∧
    (st'.buf msg.buf).buf = (st.buf m.buf).buf.take (st.buf m.buf).cap.toNat
  same : m.isRaw = false → msg = m
  /-- the flag of a sync message is cleared, and no other -/
  valid : st'.valid = match m.flag with
    | some f => Function.update st.valid f false
    | none => st.valid
  kept : ∀ b, b < st.nbuf → st'.buf b = st.buf b
  grown : st.nbuf ≤ st'.nbuf

namespace Endpoint.Internal

/-! ### The loop, pass by pass -/

/-- One pass of the loop of `recv`; it returns what the call returns, if the pass is the last. -/
def recvPass (ep : Internal) (st : Store) : Option (IoResult Message) × Internal × Store :=
  match ep.messages.get with
  | none => (some (.error .noMessages), ep, st)
  | some (result, rest) =>
    let (msg, st) := result.dupIfok st
    let ep := ({ ep with messages := rest } : Internal).fetchSub (msg.cap st)
    match msg.payload with
    | .raw r =>
      let (r', st) := st.newBuf (st.buf r.i).dup
      (some (.ok { msg with payload := .raw r' }), ep, st)
    | .sync s =>
      match st.takeasvalid s with
      | (true, st) => (some (.ok msg), ep, st)
      | (false, st) => (none, ep, st)
    | .clone _ => (some (.ok msg), ep, st)

/-- At most so many passes. -/
def recvIter : ℕ → Internal → Store → Option (IoResult Message × Internal × Store)
  | 0, _, _ => none
  | fuel + 1, ep, st =>
    match ep.recvPass st with
    | (some res, ep, st) => some (res, ep, st)
    | (none, ep, st) => recvIter fuel ep st

theorem recvIter_recvLoop (ep : Internal) {fuel : ℕ} {q : SafeQueue Message} {mem : UInt64}
    (st : Store) (hfuel : q.length < fuel) :
    recvIter fuel { ep with messages := q, memoryused := mem } st =
      some (ep.recvLoop st q mem) := by
  induction q generalizing fuel st mem with
  | nil =>
    obtain ⟨fuel, rfl⟩ := Nat.exists_eq_succ_of_ne_zero (Nat.ne_zero_of_lt hfuel)
    rfl
  | cons entry rest ih =>
    obtain ⟨fuel, rfl⟩ := Nat.exists_eq_succ_of_ne_zero (Nat.ne_zero_of_lt hfuel)
    have hrest : rest.length < fuel := Nat.lt_of_succ_lt_succ hfuel
    rw [recvIter, recvLoop]
    simp only [recvPass, SafeQueue.get, fetchSub]
    cases hp : (entry.dupIfok st).1.payload with
    | raw r => rfl
    | clone c => rfl
    | sync s =>
      by_cases hv : (entry.dupIfok st).2.valid s.valid = true
      · simp only [Store.takeasvalid, hv, if_true]
      · simp only [Store.takeasvalid, hv]
        exact ih _ hrest

/-- **The loop of `recv` terminates**, after at most one pass more than there are messages. -/
theorem recvIter_eq (ep : Internal) (st : Store) {fuel : ℕ} (hfuel : ep.messages.length < fuel) :
    recvIter fuel ep st = some (ep.recv st) :=
  recvIter_recvLoop ep st hfuel

/-! ### One `recv` -/

/-- What a `recv` makes of the queue `q` with the counter at `mem`: it passes over the sync messages
that are taken, to the end or to the message it returns. -/
inductive Receives (ep : Internal) (st : Store) (q : SafeQueue Message) (mem : UInt64) :
    IoResult Message × Internal × Store → Prop where
  | empty (hall : ∀ m ∈ q, m.isTaken st = true) :
      Receives ep st q mem (.error .noMessages, { ep with
        messages := [], memoryused := mem - UInt64.ofNat (capSum st q) }, st)
  | took {pre rest : List Message} {m msg : Message} {st' : Store} (hq : q = pre ++ m :: rest)
      (hpre : ∀ x ∈ pre, x.isTaken st = true) (hm : m.isTaken st = false)
      (hret : Returns st m msg st') :
      Receives ep st q mem (.ok msg, { ep with
        messages := rest, memoryused := mem - UInt64.ofNat (capSum st (pre ++ [m])) }, st')

/-- The counter after one more message was passed over. -/
theorem sub_capSum_cons (st : Store) (c : Message) (q : List Message) (mem : UInt64) :
    mem - UInt64.ofNat (capSum st (c :: q)) = mem - c.cap st - UInt64.ofNat (capSum st q) := by
  have hcap : UInt64.ofNat (c.cap st).toNat = c.cap st := UInt64.ofNat_toNat
  rw [capSum_cons, UInt64.ofNat_add, hcap, UInt64.sub_eq_add_neg, UInt64.neg_add,
    UInt64.sub_eq_add_neg, ← UInt64.add_assoc, ← UInt64.sub_eq_add_neg, ← UInt64.sub_eq_add_neg]

theorem sub_capSum_single (st : Store) (m : Message) (mem : UInt64) :
    mem - UInt64.ofNat (capSum st ([] ++ [m])) = mem - m.cap st := by
  rw [List.nil_append, sub_capSum_cons, capSum_nil]
  exact UInt64.sub_zero _

/-- A taken sync message in front changes only the counter. -/
theorem Receives.cons {ep : Internal} {st : Store} {q : SafeQueue Message} {mem : UInt64}
    {r : IoResult Message × Internal × Store} {c : Message} (hc : c.isTaken st = true)
    (h : Receives ep st q (mem - c.cap st) r) : Receives ep st (c :: q) mem r := by
  cases h with
  | empty hall =>
    rw [← sub_capSum_cons]
    exact .empty (List.forall_mem_cons.mpr ⟨hc, hall⟩)
  | @took pre rest m msg st' hq hpre hm hret =>
    rw [← sub_capSum_cons, ← List.cons_append]
    exact .took (congrArg (c :: ·) hq) (List.forall_mem_cons.mpr ⟨hc, hpre⟩) hm hret

/-- The message at the front of the queue is returned. -/
theorem Receives.front {ep : Internal} {st st' : Store} {m msg : Message} {rest : List Message}
    {mem : UInt64} (hm : m.isTaken st = false) (hret : Returns st m msg st') :
    Receives ep st (m :: rest) mem
      (.ok msg, { ep with messages := rest, memoryused := mem - m.cap st }, st') := by
  rw [← sub_capSum_single]
  exact .took rfl (fun _ h => absurd h List.not_mem_nil) hm hret

/-- What is returned for a raw message is a duplicate of its duplicate. -/
theorem returns_raw {st : Store} {m : Message} (hraw : m.isRaw = true) :
    Returns st m { m.onFresh st with payload := .raw ⟨st.nbuf + 1⟩ }
      ((st.newBuf (st.buf m.buf).dup).2.newBuf
        ((st.newBuf (st.buf m.buf).dup).2.buf st.nbuf).dup).2 := by
  have hbuf : ((st.newBuf (st.buf m.buf).dup).2.newBuf
      ((st.newBuf (st.buf m.buf).dup).2.buf st.nbuf).dup).2.buf (st.nbuf + 1) =
        (st.buf m.buf).dup := by
    rw [Store.newBuf_buf_self, RawMessage.Internal.dup_dup]
    exact Store.newBuf_buf_self (st.newBuf (st.buf m.buf).dup).2 _
  have hflag : m.flag = none := by
    obtain ⟨r, hr⟩ := Message.isRaw_iff.mp hraw
    simp [Message.flag, hr]
  refine ⟨rfl, fun _ => ⟨rfl, Nat.le_succ _, ?_, ?_⟩, fun hnot => ?_, ?_, fun b hb => ?_,
    Nat.le_add_right _ 2⟩
  · have hcap := congrArg RawMessage.Internal.cap hbuf
    exact hcap
  · have hbytes := congrArg RawMessage.Internal.buf hbuf
    exact hbytes
  · rw [hraw] at hnot
    cases hnot
  · rw [hflag]
    rfl
  · rw [Store.newBuf_buf_of_lt _ _ (Nat.lt_succ_of_lt hb), Store.newBuf_buf_of_lt _ _ hb]

theorem recvLoop_receives (ep : Internal) (q : SafeQueue Message) (st : Store) (mem : UInt64) :
    Receives ep st q mem (ep.recvLoop st q mem) := by
  induction q generalizing mem with
  | nil =>
    have hempty : Receives ep st [] mem _ := .empty fun _ h => absurd h List.not_mem_nil
    rw [capSum_nil] at hempty
    have hzero : mem - UInt64.ofNat 0 = mem := UInt64.sub_zero mem
    rwa [hzero] at hempty
  | cons entry rest ih =>
    rw [recvLoop]
    cases hp : entry.payload with
    | raw r =>
      have hraw := Message.isRaw_of_payload hp
      have hcap : (entry.onFresh st).cap (st.newBuf (st.buf entry.buf).dup).2 = entry.cap st := by
        rw [Message.cap_eq, Message.cap_eq, Message.onFresh_buf, Store.newBuf_buf_self]
        rfl
      rw [Message.dupIfok_raw hraw]
      simp only [hcap]
      refine .front (by simp [Message.isTaken, hp]) (returns_raw hraw)
    | sync s =>
      have hraw := Message.isRaw_false_of_sync hp
      rw [Message.dupIfok_of_not_raw hraw]
      simp only [hp]
      by_cases hv : st.valid s.valid = true
      · rw [Store.takeasvalid, if_pos hv]
        refine .front (by simp [Message.isTaken, hp, hv]) ⟨rfl, fun h => ?_, fun _ => rfl, ?_,
          fun _ _ => rfl, le_rfl⟩
        · rw [hraw] at h
          cases h
        · rw [Message.flag_of_sync hp]
      · rw [Store.takeasvalid, if_neg hv]
        exact (ih _).cons (by simp [Message.isTaken, hp, hv])
    | clone c =>
      have hraw := Message.isRaw_false_of_clone hp
      rw [Message.dupIfok_of_not_raw hraw]
      simp only [hp]
      refine .front (by simp [Message.isTaken, hp]) ⟨rfl, fun h => ?_, fun _ => rfl, ?_,
        fun _ _ => rfl, le_rfl⟩
      · rw [hraw] at h
        cases h
      · simp [Message.flag, hp]

/-- **One `recv` in full.** -/
theorem recv_receives (ep : Internal) (st : Store) :
    Receives ep st ep.messages ep.memoryused (ep.recv st) :=
  recvLoop_receives ep ep.messages st ep.memoryused

/-- What is left weighs the same in the cells after the call. -/
theorem capSum_returns {st st' : Store} {m msg : Message} {q : List Message}
    (h : Returns st m msg st') (hcells : ∀ x ∈ q, x.buf < st.nbuf) : capSum st' q = capSum st q :=
  capSum_congr fun x hx => h.kept x.buf (hcells x hx)

/-- What a `recv` that ends with the result `res` has to have done, in terms of the longest prefix of
the queue that consists of sync messages already taken. -/
structure RecvSpec (ep : Internal) (st : Store) (res : IoResult Message) (ep' : Internal)
    (st' : Store) : Prop where
  result : match ep.messages.dropWhile (Message.isTaken st) with
    | [] => res = .error .noMessages ∧ ep'.messages = [] ∧ st' = st
    | m :: rest => ∃ msg, res = .ok msg ∧ Returns st m msg st' ∧ ep'.messages = rest
  settings : SameSettings ep ep'
  /-- the counter wraps as the sum does -/
  memory : ep'.memoryused = UInt64.ofNat (capSum st' ep'.messages)
  /-- and is the sum itself if it was that before -/
  counted : ep.memoryused.toNat = capSum st ep.messages →
    ep'.memoryused.toNat = capSum st' ep'.messages

theorem recvSpec_of_receives {ep : Internal} {st : Store} {r : IoResult Message × Internal × Store}
    (h : Receives ep st ep.messages ep.memoryused r) (hcells : ∀ m ∈ ep.messages, m.buf < st.nbuf)
    (hmem : ep.memoryused = UInt64.ofNat (capSum st ep.messages)) :
    RecvSpec ep st r.1 r.2.1 r.2.2 := by
  cases h with
  | empty hall =>
    have hzero : ep.memoryused - UInt64.ofNat (capSum st ep.messages) = 0 := by
      rw [hmem]
      exact UInt64.sub_self _
    refine ⟨?_, ⟨rfl, rfl, rfl⟩, hzero, fun _ => ?_⟩
    · rw [List.dropWhile_eq_nil_iff.mpr hall]
      exact ⟨rfl, rfl, rfl⟩
    · exact congrArg UInt64.toNat hzero
  | @took pre rest m msg st' hq hpre hm hret =>
    have hdrop : ep.messages.dropWhile (Message.isTaken st) = m :: rest := by
      rw [hq, List.dropWhile_append_of_pos hpre, List.dropWhile_cons_of_neg]
      rw [hm]
      exact Bool.false_ne_true
    have hrest : capSum st' rest = capSum st rest := by
      refine capSum_returns hret fun x hx => hcells x ?_
      rw [hq]
      exact List.mem_append_right _ (List.mem_cons_of_mem m hx)
    have hsplit : capSum st ep.messages = capSum st (pre ++ [m]) + capSum st rest := by
      rw [hq, ← capSum_append, List.append_assoc]
      rfl
    have hleft : ep.memoryused - UInt64.ofNat (capSum st (pre ++ [m])) =
        UInt64.ofNat (capSum st' rest) := by
      rw [hmem, hsplit, hrest, UInt64.ofNat_add, UInt64.add_comm, UInt64.add_sub_cancel]
    refine ⟨?_, ⟨rfl, rfl, rfl⟩, hleft, fun hexact => ?_⟩
    · rw [hdrop]
      exact ⟨msg, rfl, hret, rfl⟩
    · -- what is left is no more than what the counter held
      have hlt := ep.memoryused.toNat_lt
      have hmod := congrArg UInt64.toNat hleft
      rw [UInt64.toNat_ofNat', Nat.mod_eq_of_lt (by omega)] at hmod
      exact hmod

/-- **The specification of `recv`**, for an endpoint whose messages are all in allocated cells and
whose counter is the sum of their capacities: its loop ends, and it does what it is to do. -/
theorem recv_spec (ep : Internal) (st : Store) (hcells : ∀ m ∈ ep.messages, m.buf < st.nbuf)
    (hmem : ep.memoryused = UInt64.ofNat (capSum st ep.messages)) :
    (∀ fuel, ep.messages.length < fuel → recvIter fuel ep st = some (ep.recv st)) ∧
    RecvSpec ep st (ep.recv st).1 (ep.recv st).2.1 (ep.recv st).2.2 :=
  ⟨fun _ hfuel => recvIter_eq ep st hfuel, recvSpec_of_receives (recv_receives ep st) hcells hmem⟩

/-- A taken sync message, a raw message and a clone message, in buffers of 3, 4 and 5 bytes. -/
def mixedStore : Store where
  buf := fun b => if b = 0 then ⟨3, 3, [1, 2, 3]⟩ else if b = 1 then ⟨4, 4, [4, 5, 6, 7]⟩ else
    ⟨5, 5, [8, 9, 10, 11, 12]⟩
  nbuf := 3
  valid := fun _ => false
  nvalid := 1

def mixedEndpoint : Internal :=
  { Endpoint.new 100 0x10000 with
    messages := [.ofPayload (.sync ⟨7, 0, ⟨0⟩⟩), .ofPayload (.raw ⟨1⟩), .ofPayload (.clone ⟨7, ⟨2⟩⟩)]
    memoryused := 12 }

theorem recv_spec_mixed :
    (∀ fuel, 3 < fuel → recvIter fuel mixedEndpoint mixedStore =
      some (mixedEndpoint.recv mixedStore)) ∧
    RecvSpec mixedEndpoint mixedStore (mixedEndpoint.recv mixedStore).1
      (mixedEndpoint.recv mixedStore).2.1 (mixedEndpoint.recv mixedStore).2.2 :=
  recv_spec mixedEndpoint mixedStore (by decide) (by decide)

end Endpoint.Internal

namespace Message

/-- `x` is a copy of the sync message `m`. -/
def isCopyOf (m x : Message) : Bool := m.flag.isSome && x.flag == m.flag

/-- A returned sync message is returned once: its copies are not receivable any more. -/
theorem receivable_returns {st st' : Store} {m msg : Message} (h : Returns st m msg st')
    (x : Message) : x.receivable st' = (x.receivable st && !m.isCopyOf x) := by
  unfold receivable isCopyOf
  rw [h.valid]
  cases hm : m.flag with
  | none => simp
  | some f =>
    cases hx : x.flag with
    | none => simp
    | some g =>
      by_cases hg : g = f
      · subst hg
        simp
      · simp [hg]

end Message

namespace Net

open Endpoint.Internal (Receives recv_receives)

/-! ### Receiving on a list of endpoints -/

/-- `endpoint::recv`, run without interruption.  The endpoints may be on any net: of a net it looks
only at the queues and the shared cells. -/
def recvList : List EpId → Net → IoResult Message × Net
  | [], net => (.error .noMessages, net)
  | ep :: list, net =>
    match net.recvAt ep with
    | (.ok msg, net) => (.ok msg, net)
    | (.error _, net) => recvList list net

/-- The receivable messages of the endpoint `e`, in the order of its queue. -/
def live (net : Net) (e : EpId) : List Message :=
  (net.eps e).messages.filter (Message.receivable · net.store)

/-- The endpoint `e` of `net` gave out its first receivable message `m`, as `msg`. -/
structure Took (net : Net) (e : EpId) (m msg : Message) (net' : Net) : Prop where
  first : ∃ rest, net.live e = m :: rest ∧ net'.live e = rest.filter (!m.isCopyOf ·)
  returns : Returns net.store m msg net'.store
  /-- every other endpoint keeps its receivable messages, but for copies of `m` -/
  others : ∀ e', e' ≠ e → net'.live e' = (net.live e').filter (!m.isCopyOf ·)
  copies : ∀ x, m.isCopyOf x = true → x.receivable net'.store = false

/-- Nothing that is receivable was lost. -/
structure Kept (net net' : Net) : Prop where
  store : net'.store = net.store
  live : net'.live = net.live

theorem filter_taken {st : Store} {q : List Message} (h : ∀ m ∈ q, m.isTaken st = true) :
    q.filter (Message.receivable · st) = [] := by
  rw [List.filter_eq_nil_iff]
  intro m hm
  rw [Message.receivable_eq, h m hm]
  exact Bool.false_ne_true

/-- What one `recv` does to the receivable messages of all endpoints. -/
theorem recvAt_live (net : Net) (e : EpId) :
    (net.live e = [] ∧ (net.recvAt e).1 = .error .noMessages ∧ Kept net (net.recvAt e).2) ∨
    ∃ m msg, (net.recvAt e).1 = .ok msg ∧ Took net e m msg (net.recvAt e).2 := by
  have hstep := recv_receives (net.eps e) net.store
  unfold recvAt
  generalize (net.eps e).recv net.store = r at hstep ⊢
  cases hstep with
  | empty hall =>
    have hlive : net.live e = [] := filter_taken hall
    refine Or.inl ⟨hlive, rfl, rfl, ?_⟩
    funext e'
    by_cases he : e' = e
    · subst he
      rw [hlive, live]
      simp
    · simp [live, Function.update_of_ne he]
  | @took pre rest m msg st' hq hpre hm hret =>
    have hfront : net.live e = m :: rest.filter (Message.receivable · net.store) := by
      have hrecv : m.receivable net.store = true := by
        rw [Message.receivable_eq, hm]
        rfl
      rw [live, hq, List.filter_append, filter_taken hpre, List.nil_append,
        List.filter_cons, if_pos hrecv]
    have hafter : ∀ q : List Message, q.filter (Message.receivable · st') =
        (q.filter (Message.receivable · net.store)).filter (!m.isCopyOf ·) := by
      intro q
      rw [List.filter_filter]
      refine List.filter_congr fun x _ => ?_
      rw [Message.receivable_returns hret, Bool.and_comm]
    refine Or.inr ⟨m, msg, rfl, ⟨⟨_, hfront, ?_⟩, hret, fun e' he => ?_, fun x hx => ?_⟩⟩
    · rw [← hafter]
      simp [live]
    · rw [live, live, ← hafter]
      simp [Function.update_of_ne he]
    · rw [Message.receivable_returns hret, hx]
      exact Bool.and_false _

/-- **Receiving on a list of endpoints loses nothing.**  It fails if and only if no endpoint of the
list holds a receivable message, and then everything receivable is still there.  Otherwise the first
endpoint that holds one gives out its first receivable message, and all receivable messages stay
where they are, in order, but for this one and, if it is a sync message, its copies. -/
theorem recvList_lossless (net : Net) (list : List EpId) :
    ((recvList list net).1 = .error .noMessages ↔ ∀ e ∈ list, net.live e = []) ∧
    (((recvList list net).1 = .error .noMessages ∧ Kept net (recvList list net).2) ∨
      ∃ before e after m msg, list = before ++ e :: after ∧ (∀ x ∈ before, net.live x = []) ∧
        (recvList list net).1 = .ok msg ∧ Took net e m msg (recvList list net).2) := by
  induction list generalizing net with
  | nil => exact ⟨by simp [recvList], Or.inl ⟨rfl, rfl, rfl⟩⟩
  | cons e list ih =>
    rw [recvList]
    rcases recvAt_live net e with ⟨hlive, hres, hkept⟩ | ⟨m, msg, hres, htook⟩
    · -- the endpoint fails, and the scan goes on over the same receivable messages
      obtain ⟨hiff, hcases⟩ := ih (net.recvAt e).2
      rw [hkept.live] at hiff hcases
      have heq : net.recvAt e = (.error .noMessages, (net.recvAt e).2) := Prod.ext hres rfl
      rw [heq]
      refine ⟨?_, ?_⟩
      · rw [List.forall_mem_cons]
        exact hiff.trans ⟨fun h => ⟨hlive, h⟩, fun h => h.2⟩
      · rcases hcases with ⟨hfail, hkept'⟩ |
          ⟨before, e', after, m, msg, hlist, hbefore, hok, htook⟩
        · exact Or.inl ⟨hfail, hkept'.store.trans hkept.store, hkept'.live.trans hkept.live⟩
        · refine Or.inr ⟨e :: before, e', after, m, msg, congrArg (e :: ·) hlist,
            List.forall_mem_cons.mpr ⟨hlive, hbefore⟩, hok, ?_⟩
          obtain ⟨hfirst, hreturns, hothers, hcopies⟩ := htook
          rw [hkept.live] at hfirst hothers
          rw [hkept.store] at hreturns
          exact ⟨hfirst, hreturns, hothers, hcopies⟩
    · have heq : net.recvAt e = (.ok msg, (net.recvAt e).2) := Prod.ext hres rfl
      obtain ⟨rest, hfirst, -⟩ := htook.first
      rw [heq]
      refine ⟨⟨fun h => ?_, fun h => ?_⟩,
        Or.inr ⟨[], e, list, m, msg, rfl, fun _ hx => absurd hx List.not_mem_nil, rfl, htook⟩⟩
      · cases h
      · rw [h e List.mem_cons_self] at hfirst
        cases hfirst

end Net

end WaterNet
