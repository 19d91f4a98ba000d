import WaterNet.Lib.BigEndian
import WaterNet.Net

/-!
# The bridge codec: `thread_tx` and `thread_rx` (`tcp/mod.rs`)

`threadTx` is the byte stream that `thread_tx` writes for what `recvorblock` returns to it, and
`threadRx` is `thread_rx` reading a stream to its end while it puts the messages onto a net.  The
stream is the list of the bytes written and not yet read; at its end reads fail.

* `rxOne_frameBytes` — **one frame**: what was written for a message is read back as that message,
  and the cursor is left at the next frame;
* `rxLoop_frames` — by induction, a sequence of frames is read back and nothing is left over;
* `threadRx_threadTx` — the round trip, from the sid preamble to the end of the stream.
-/

namespace WaterNet.Tcp

open WaterNet.Lib.BigEndian (bytes takeWord takeWord_bytes_append TakesOff takes_of_takeWord)
open WaterNet.RawMessage (storeBytes_eq)

abbrev Stream := List UInt8

/-- A raw message and the buffer behind it. -/
abbrev Carried := Message × RawMessage.Internal

/-! ### Reads and writes of `std::io` -/

def writeBeU64 (x : UInt64) : Stream := bytes 8 x.toNat

def writeU8 (b : UInt8) : Stream := [b]

def readBeU64 (s : Stream) : Option (UInt64 × Stream) :=
  (takeWord 8 s).map fun (n, s) => (UInt64.ofNat n, s)

def readU8 : Stream → Option (UInt8 × Stream)
  | [] => none
  | b :: s => some (b, s)

/-- `read_at_least(n, buf)` into a buffer of `n` bytes; past the end of the stream the buffer keeps
what it held, which is `junk`. -/
def readAtLeast (junk : ℕ → UInt8) (n : ℕ) (s : Stream) : List UInt8 × Stream :=
  (s.take n ++ (List.range (n - s.length)).map fun k => junk (s.length + k), s.drop n)

@[simp] theorem readBeU64_write (x : UInt64) (rest : Stream) :
    readBeU64 (writeBeU64 x ++ rest) = some (x, rest) := by
  have hlt : x.toNat % 256 ^ 8 = x.toNat := Nat.mod_eq_of_lt x.toNat_lt
  rw [readBeU64, writeBeU64, takeWord_bytes_append, hlt]
  simp

theorem takes_of_readBeU64 {s rest : Stream} {x : UInt64} (h : readBeU64 s = some (x, rest)) :
    TakesOff 8 s rest := by
  obtain ⟨⟨n, s'⟩, hs, hx⟩ := Option.map_eq_some_iff.mp h
  cases hx
  exact takes_of_takeWord hs

theorem takes_of_readU8 {s rest : Stream} {b : UInt8} (h : readU8 s = some (b, rest)) :
    TakesOff 1 s rest := by
  cases s with
  | nil => cases h
  | cons b' s =>
    cases h
    exact ⟨Nat.succ_le_succ (Nat.zero_le _), rfl⟩

theorem readAtLeast_append (junk : ℕ → UInt8) (vbuf rest : Stream) :
    readAtLeast junk vbuf.length (vbuf ++ rest) = (vbuf, rest) := by
  simp [readAtLeast]

/-! ### `thread_tx` -/

/-- What `thread_tx` writes for a raw message. -/
def frameBytes (x : Carried) : Stream :=
  writeBeU64 (1 + 8 * 4 + x.2.len) ++ writeU8 1 ++ writeBeU64 x.1.srcsid ++ writeBeU64 x.1.srceid ++
    writeBeU64 x.1.dstsid ++ writeBeU64 x.1.dsteid ++ x.2.asSlice

/-- The loop of `thread_tx` over what `recvorblock` returns; `terminate` is the type identity of
`TerminateMessage`. -/
def txLoop (terminate : TypeId) : List (IoResult Carried) → Stream
  | [] => []
  | .error _ :: results => txLoop terminate results
  | .ok x :: results =>
    if x.1.isType terminate then []
    else if !x.1.isRaw then txLoop terminate results
    else frameBytes x ++ txLoop terminate results

def threadTx (terminate : TypeId) (sid : ID) (results : List (IoResult Carried)) : Stream :=
  writeBeU64 sid ++ txLoop terminate results

/-! ### `thread_rx` -/

structure FrameHeader where
  msgType : UInt8
  srcsid : ID
  srceid : ID
  dstsid : ID
  dsteid : ID
  deriving DecidableEq, Repr

/-- The five reads after the size, each of them a panic at the end of the stream. -/
def readHeader (s : Stream) : Option (FrameHeader × Stream) := do
  let (msgType, s) ← readU8 s
  let (srcsid, s) ← readBeU64 s
  let (srceid, s) ← readBeU64 s
  let (dstsid, s) ← readBeU64 s
  let (dsteid, s) ← readBeU64 s
  some (⟨msgType, srcsid, srceid, dstsid, dsteid⟩, s)

/-- The raw message made of a header and the payload read after it. -/
def rxMessage (junk : ℕ → UInt8) (st : Store) (h : FrameHeader) (msgsize : UInt64)
    (vbuf : List UInt8) : Option (Message × Store) := do
  let rmsg ← (RawMessage.Internal.new junk msgsize).writeFromSlice 0 vbuf
  let (r, st) := st.newBuf rmsg
  some ({ Message.newFromraw r with
    dstsid := h.dstsid, dsteid := h.dsteid, srcsid := h.srcsid, srceid := h.srceid }, st)

inductive RxStep where
  /-- the size could not be read -/
  | returned
  | panicked
  /-- a message is ready for `sendx`, with `rest` unread -/
  | sendx (msg : Message) (st : Store) (rest : Stream)

/-- The message a pass has ready, with the store it is in. -/
def RxStep.message : RxStep → Option (Message × Store)
  | .sendx msg st _ => some (msg, st)
  | _ => none

/-- One pass of the loop of `thread_rx`, up to the `sendx`.  Allocations succeed here.  A size that has
wrapped asks for almost 2^64 bytes, at which the real thread dies; this pass goes on to read, and to
hand on a message. -/
def rxOne (junk : ℕ → UInt8) (st : Store) (s : Stream) : RxStep :=
  match readBeU64 s with
  | none => .returned
  | some (msgsize, s) =>
    match readHeader s with
    | none => .panicked
    | some (h, s) =>
      let msgsize := msgsize - (1 + 8 * 4)
      let (vbuf, s) := readAtLeast junk msgsize.toNat s
      if h.msgType != 1 then .panicked
      else
        match rxMessage junk st h msgsize vbuf with
        | none => .panicked
        | some (msg, st) => .sendx msg st s

/-- The header is a byte and four words. -/
theorem takes_of_readHeader {s rest : Stream} {h : FrameHeader}
    (hs : readHeader s = some (h, rest)) : TakesOff 33 s rest := by
  simp only [readHeader, Option.bind_eq_bind, Option.bind_eq_some_iff, Option.some.injEq,
    Prod.mk.injEq] at hs
  obtain ⟨⟨b, s₁⟩, h₁, ⟨x₂, s₂⟩, h₂, ⟨x₃, s₃⟩, h₃, ⟨x₄, s₄⟩, h₄, ⟨x₅, s₅⟩, h₅, -, rfl⟩ := hs
  have t₁ : TakesOff 1 s s₁ := takes_of_readU8 h₁
  have t₂ : TakesOff (1 + 8) s s₂ := t₁.trans (takes_of_readBeU64 h₂)
  have t₃ : TakesOff (1 + 8 + 8) s s₃ := t₂.trans (takes_of_readBeU64 h₃)
  have t₄ : TakesOff (1 + 8 + 8 + 8) s s₄ := t₃.trans (takes_of_readBeU64 h₄)
  exact t₄.trans (takes_of_readBeU64 h₅)

/-- What a pass that hands on a message has read. -/
theorem rxOne_eq_sendx {junk : ℕ → UInt8} {st st' : Store} {s rest : Stream} {msg : Message}
    (h : rxOne junk st s = .sendx msg st' rest) :
    ∃ msgsize s₁ hdr s₂, readBeU64 s = some (msgsize, s₁) ∧ readHeader s₁ = some (hdr, s₂) ∧
      hdr.msgType = 1 ∧
      rxMessage junk st hdr (msgsize - (1 + 8 * 4))
        (readAtLeast junk (msgsize - (1 + 8 * 4)).toNat s₂).1 = some (msg, st') ∧
      (readAtLeast junk (msgsize - (1 + 8 * 4)).toNat s₂).2 = rest := by
  unfold rxOne at h
  cases hsize : readBeU64 s with
  | none =>
    rw [hsize] at h
    cases h
  | some p =>
    obtain ⟨msgsize, s₁⟩ := p
    rw [hsize] at h
    cases hhdr : readHeader s₁ with
    | none =>
      simp only [hhdr] at h
      cases h
    | some p =>
      obtain ⟨hdr, s₂⟩ := p
      simp only [hhdr] at h
      by_cases htype : hdr.msgType = 1
      · rw [if_neg (by simp [htype])] at h
        cases hmsg : rxMessage junk st hdr (msgsize - (1 + 8 * 4))
            (readAtLeast junk (msgsize - (1 + 8 * 4)).toNat s₂).1 with
        | none =>
          rw [hmsg] at h
          cases h
        | some p =>
          rw [hmsg] at h
          cases h
          exact ⟨msgsize, s₁, hdr, s₂, rfl, hhdr, htype, hmsg, rfl⟩
      · rw [if_pos (by simp [htype])] at h
        cases h

/-- A pass that hands on a message has read a size, so the stream got shorter. -/
theorem length_of_rxOne {junk : ℕ → UInt8} {st st' : Store} {s rest : Stream} {msg : Message}
    (h : rxOne junk st s = .sendx msg st' rest) : rest.length < s.length := by
  obtain ⟨msgsize, s₁, hdr, s₂, hsize, hhdr, -, -, rfl⟩ := rxOne_eq_sendx h
  have hlen := ((takes_of_readBeU64 hsize).trans (takes_of_readHeader hhdr)).length
  rw [readAtLeast, List.length_drop]
  omega

inductive RxEnd where
  | returned
  | panicked
  deriving DecidableEq, Repr

/-- What came of a `thread_rx`: the net it left, the messages it handed to `sendx` with what their
buffers held, how it ended, and what it left unread. -/
structure RxResult where
  net : Net
  handed : List Carried
  ending : RxEnd
  rest : Stream

/-- The loop of `thread_rx`. -/
def rxLoop (junk : ℕ → UInt8) (net : Net) (s : Stream) : RxResult :=
  match _h : rxOne junk net.store s with
  | .returned => { net := net, handed := [], ending := .returned, rest := s }
  | .panicked => { net := net, handed := [], ending := .panicked, rest := s }
  | .sendx msg st rest =>
    match msg.clone.bind ({ net with store := st } : Net).endpointSendx with
    | none => { net := net, handed := [], ending := .panicked, rest := rest }
    | some (_, net') =>
      let r := rxLoop junk net' rest
      { r with handed := (msg, st.buf msg.buf) :: r.handed }
termination_by s.length
decreasing_by exact length_of_rxOne _h

/-- `thread_rx` of the bridge endpoint `e`, which takes the remote sid as its own. -/
def threadRx (junk : ℕ → UInt8) (net : Net) (e : EpId) (s : Stream) : RxResult :=
  match readBeU64 s with
  | none => { net := net, handed := [], ending := .panicked, rest := s }
  | some (rsid, s) =>
    rxLoop junk (net.setsid e rsid) s

/-! ### One frame -/

/-- The message `thread_rx` makes of what was written for `x`, in the next buffer of `st`. -/
def received (st : Store) (x : Carried) : Message :=
  { Message.newFromraw ⟨st.nbuf⟩ with
    dstsid := x.1.dstsid, dsteid := x.1.dsteid, srcsid := x.1.srcsid, srceid := x.1.srceid }

/-- The buffer it is in: full, with the bytes that were sent. -/
def receivedBuf (x : Carried) : RawMessage.Internal :=
  { len := x.2.len, cap := x.2.len, buf := x.2.asSlice }

/-- The payload is not empty, and lies inside its buffer. -/
def Sendable (x : Carried) : Prop := x.2.len ≠ 0 ∧ x.2.len.toNat ≤ x.2.buf.length

instance (x : Carried) : Decidable (Sendable x) :=
  inferInstanceAs (Decidable (x.2.len ≠ 0 ∧ x.2.len.toNat ≤ x.2.buf.length))

theorem Sendable.asSlice_length {x : Carried} (h : Sendable x) :
    x.2.asSlice.length = x.2.len.toNat := by
  rw [RawMessage.Internal.asSlice, List.length_take]
  exact Nat.min_eq_left h.2

theorem rxMessage_eq (junk : ℕ → UInt8) (st : Store) (h : FrameHeader) {x : Carried}
    (hx : Sendable x) :
    rxMessage junk st h x.2.len x.2.asSlice = some ({ Message.newFromraw ⟨st.nbuf⟩ with
      dstsid := h.dstsid, dsteid := h.dsteid, srcsid := h.srcsid, srceid := h.srceid },
      (st.newBuf (receivedBuf x)).2) := by
  rw [rxMessage, RawMessage.Internal.writeFromSlice_new junk hx.1 hx.asSlice_length]
  rfl

theorem readHeader_append (srcsid srceid dstsid dsteid : ID) (rest : Stream) :
    readHeader (writeU8 1 ++ (writeBeU64 srcsid ++ (writeBeU64 srceid ++ (writeBeU64 dstsid ++
      (writeBeU64 dsteid ++ rest))))) = some (⟨1, srcsid, srceid, dstsid, dsteid⟩, rest) := by
  simp [readHeader, writeU8, readU8]

/-- **One frame.**  `thread_rx` reads back the message the frame was written for, and stops right
behind the frame. -/
theorem rxOne_frameBytes (junk : ℕ → UInt8) (st : Store) {x : Carried} (hx : Sendable x)
    (rest : Stream) :
    rxOne junk st (frameBytes x ++ rest) =
      .sendx (received st x) (st.newBuf (receivedBuf x)).2 rest := by
  have hsize : 1 + 8 * 4 + x.2.len - (1 + 8 * 4) = x.2.len := by
    rw [UInt64.add_comm, UInt64.add_sub_cancel]
  have hread : readAtLeast junk x.2.len.toNat (x.2.asSlice ++ rest) = (x.2.asSlice, rest) := by
    rw [← hx.asSlice_length]
    exact readAtLeast_append junk _ rest
  rw [frameBytes]
  simp only [List.append_assoc]
  rw [rxOne, readBeU64_write]
  simp only [readHeader_append]
  rw [hsize, hread]
  simp only [bne_self_eq_false, Bool.false_eq_true, if_false]
  rw [rxMessage_eq junk st _ hx]
  rfl

/-- A frame that is read as a message at all is read as one with the addresses it was written
with, in a new buffer; this needs nothing of the payload. -/
theorem rxOne_frameBytes_header {junk : ℕ → UInt8} {st st' : Store} {x : Carried} {msg : Message}
    (h : (rxOne junk st (frameBytes x)).message = some (msg, st')) : msg = received st x := by
  obtain ⟨rest, h⟩ : ∃ rest, rxOne junk st (frameBytes x) = .sendx msg st' rest := by
    generalize rxOne junk st (frameBytes x) = r at h
    cases r with
    | returned | panicked => cases h
    | sendx msg' st'' rest =>
      cases h
      exact ⟨rest, rfl⟩
  obtain ⟨msgsize, s₁, hdr, s₂, hsize, hhdr, -, hmsg, -⟩ := rxOne_eq_sendx h
  rw [frameBytes] at hsize
  simp only [List.append_assoc, readBeU64_write, Option.some.injEq, Prod.mk.injEq] at hsize
  rw [← hsize.2, readHeader_append] at hhdr
  cases hhdr
  simp only [rxMessage, Option.bind_eq_bind, Option.bind_eq_some_iff] at hmsg
  obtain ⟨i, -, hmsg⟩ := hmsg
  cases hmsg
  rfl

/-! ### Whole streams -/

/-- A pass of the loop that hands on a raw message, and the passes after it. -/
theorem rxLoop_of_sendx {junk : ℕ → UInt8} {net : Net} {s rest : Stream} {msg : Message}
    {st : Store} (h : rxOne junk net.store s = .sendx msg st rest) (hraw : msg.isRaw = true) :
    ∃ net', (∀ e, (net'.eps e).address = (net.eps e).address) ∧
      rxLoop junk net s = { rxLoop junk net' rest with
        handed := (msg, st.buf msg.buf) :: (rxLoop junk net' rest).handed } := by
  obtain ⟨n, net', hsend, haddr⟩ := Net.send_address { net with store := st } msg
  refine ⟨net', haddr, ?_⟩
  have hsync : msg.isSync = false := by
    obtain ⟨r, hr⟩ := Message.isRaw_iff.mp hraw
    simp [Message.isSync, hr]
  have hclone : msg.clone = some msg := by simp [Message.clone_eq, hsync]
  rw [rxLoop]
  split
  · rename_i h'
    rw [h] at h'
    cases h'
  · rename_i h'
    rw [h] at h'
    cases h'
  · rename_i msg' st' rest' h'
    rw [h] at h'
    cases h'
    simp only [hclone, Option.bind_some, Net.endpointSendx, hsend]

/-- What of a message goes over the wire. -/
def wire (x : Carried) : ID × ID × ID × ID × List UInt8 :=
  (x.1.srcsid, x.1.srceid, x.1.dstsid, x.1.dsteid, x.2.asSlice)

theorem wire_received (st : Store) {x : Carried} (hx : Sendable x) :
    wire (received st x, (st.newBuf (receivedBuf x)).2.buf (received st x).buf) = wire x := by
  have hbuf : (st.newBuf (receivedBuf x)).2.buf (received st x).buf = receivedBuf x :=
    Store.newBuf_buf_self st _
  have hslice : (receivedBuf x).asSlice = x.2.asSlice := by
    rw [RawMessage.Internal.asSlice, receivedBuf, ← hx.asSlice_length, List.take_length]
  rw [wire, hbuf, hslice]
  rfl

/-- **A sequence of frames.**  Read from the first byte on, it yields the messages it was written
for, leaves nothing over, and ends with the clean return. -/
theorem rxLoop_frames (junk : ℕ → UInt8) (xs : List Carried) (hxs : ∀ x ∈ xs, Sendable x)
    (net : Net) :
    (rxLoop junk net (xs.flatMap frameBytes)).ending = .returned ∧
    (rxLoop junk net (xs.flatMap frameBytes)).rest = [] ∧
    (rxLoop junk net (xs.flatMap frameBytes)).handed.map wire = xs.map wire ∧
    (∀ y ∈ (rxLoop junk net (xs.flatMap frameBytes)).handed, y.1.isRaw = true) ∧
    ∀ e, ((rxLoop junk net (xs.flatMap frameBytes)).net.eps e).address =
      (net.eps e).address := by
  induction xs generalizing net with
  | nil =>
    have hend : rxOne junk net.store [] = .returned := rfl
    have hloop : rxLoop junk net [] = ⟨net, [], .returned, []⟩ := by
      rw [rxLoop]
      split
      · rfl
      · rename_i h'
        rw [hend] at h'
        cases h'
      · rename_i h'
        rw [hend] at h'
        cases h'
    simp [hloop]
  | cons x xs ih =>
    have hx := hxs x List.mem_cons_self
    rw [List.flatMap_cons]
    obtain ⟨net', haddr, hloop⟩ := rxLoop_of_sendx
      (rxOne_frameBytes junk net.store hx (xs.flatMap frameBytes)) rfl
    obtain ⟨hend, hrest, hhanded, hraw, hsame⟩ :=
      ih (fun y hy => hxs y (List.mem_cons_of_mem x hy)) net'
    rw [hloop]
    refine ⟨hend, hrest, ?_, fun y hy => ?_, fun e => (hsame e).trans (haddr e)⟩
    · rw [List.map_cons, List.map_cons, hhanded, wire_received net.store hx]
    · rcases List.mem_cons.mp hy with rfl | hy
      · rfl
      · exact hraw y hy

/-- What a bridge forwards of the messages its `thread_tx` dequeues: the raw ones in front of the
first `TerminateMessage`. -/
def forwarded (terminate : TypeId) (results : List (IoResult Carried)) : List Carried :=
  ((results.filterMap Except.toOption).takeWhile fun x => !x.1.isType terminate).filter
    fun x => x.1.isRaw

theorem txLoop_eq (terminate : TypeId) (results : List (IoResult Carried)) :
    txLoop terminate results = (forwarded terminate results).flatMap frameBytes := by
  induction results with
  | nil => rfl
  | cons r results ih =>
    cases r with
    | error err =>
      rw [txLoop, ih]
      rfl
    | ok x =>
      have hcons : (Except.ok x :: results : List (IoResult Carried)).filterMap Except.toOption =
          x :: results.filterMap Except.toOption := rfl
      rw [txLoop, forwarded, hcons]
      by_cases hterm : x.1.isType terminate = true
      · rw [if_pos hterm, List.takeWhile_cons_of_neg (by simp [hterm])]
        rfl
      · rw [if_neg hterm, List.takeWhile_cons_of_pos (by simp [hterm])]
        rw [List.filter_cons, ← forwarded]
        by_cases hraw : x.1.isRaw = true
        · simp [hraw, ih]
        · simp [hraw, ih]

/-- **The round trip.**  Whatever `thread_tx` dequeues, as long as the raw messages are not empty,
`thread_rx` reads the stream it writes to the end and returns; it has adopted the sid, and has
handed on the raw messages in front of the first `TerminateMessage`, in order and unchanged. -/
theorem threadRx_threadTx (junk : ℕ → UInt8) (terminate : TypeId) (sid : ID) (net : Net) (e : EpId)
    (results : List (IoResult Carried)) (hok : ∀ x ∈ forwarded terminate results, Sendable x) :
    let r := threadRx junk net e (threadTx terminate sid results)
    r.ending = .returned ∧ r.rest = [] ∧
      r.handed.map wire = (forwarded terminate results).map wire ∧
      (∀ y ∈ r.handed, y.1.isRaw = true) ∧ (r.net.eps e).address.sid = sid := by
  obtain ⟨hend, hrest, hhanded, hraw, haddr⟩ :=
    rxLoop_frames junk (forwarded terminate results) hok (net.setsid e sid)
  simp only [threadRx, threadTx, readBeU64_write, txLoop_eq]
  refine ⟨hend, hrest, hhanded, hraw, ?_⟩
  rw [haddr e, Net.setsid_eps_self]

/-- Two raw messages around a clone message and a time-out, then a `TerminateMessage`. -/
theorem threadRx_threadTx_mixed :
    let raw (b : UInt8) : Carried := (Message.newFromraw ⟨0⟩, ⟨1, 1, [b]⟩)
    let typed (ty : TypeId) : Carried := (Message.ofPayload (.clone ⟨ty, ⟨0⟩⟩), ⟨1, 1, [0]⟩)
    let results := [.ok (raw 5), .error .timedOut, .ok (typed 8), .ok (raw 6), .ok (typed 9), .ok (raw 7)]
    let r := threadRx (fun _ => 0) (Net.new 100) 0 (threadTx 9 200 results)
    r.ending = .returned ∧ r.rest = [] ∧
      r.handed.map wire = (forwarded 9 results).map wire ∧
      (∀ y ∈ r.handed, y.1.isRaw = true) ∧ (r.net.eps 0).address.sid = 200 :=
  threadRx_threadTx _ 9 200 _ 0 _ (by decide +kernel)

end WaterNet.Tcp
