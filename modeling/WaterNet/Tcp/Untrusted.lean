import WaterNet.Tcp.Codec

/-!
# Streams that are not a whole `thread_tx` (`tcp/mod.rs`)

A connection can be cut at any byte, and a peer can send any bytes.

* `complete`, `leftover` — the frames that are whole in the first `n` bytes, and what is left of the
  next one; `take_frames` says that this is how a cut stream looks;
* `threadRx_cut_iff` — **a cut stream**: the whole frames and nothing else are handed to `sendx`
  exactly if none of them is empty and the cut is not behind a header, since the error of
  `read_at_least` is not looked at;
* `rxSizes_iff` — **any stream**: the payload lengths are the announced sizes less the header
  exactly if no size is below 33, since the subtraction is not guarded.
-/

namespace WaterNet.Tcp

open WaterNet.Lib.BigEndian (takeWord length_bytes)

/-! ### Cut streams -/

/-- The number of bytes of a frame. -/
theorem frameBytes_length {x : Carried} (hx : x.2.len.toNat ≤ x.2.buf.length) :
    (frameBytes x).length = 41 + x.2.len.toNat := by
  have hslice : x.2.asSlice.length = x.2.len.toNat := by
    rw [RawMessage.Internal.asSlice, List.length_take]
    exact Nat.min_eq_left hx
  simp only [frameBytes, writeBeU64, writeU8, List.length_append, length_bytes, hslice,
    List.length_cons, List.length_nil]

/-- The messages whose frames are whole in the first `n` bytes. -/
def complete : ℕ → List Carried → List Carried
  | _, [] => []
  | n, x :: xs => if (frameBytes x).length ≤ n then x :: complete (n - (frameBytes x).length) xs else []

/-- The number of bytes of the next frame that are there. -/
def leftover : ℕ → List Carried → ℕ
  | _, [] => 0
  | n, x :: xs => if (frameBytes x).length ≤ n then leftover (n - (frameBytes x).length) xs else n

/-- The message of the next frame, and those after it. -/
def incomplete : ℕ → List Carried → List Carried
  | _, [] => []
  | n, x :: xs => if (frameBytes x).length ≤ n then incomplete (n - (frameBytes x).length) xs else x :: xs

/-- **What a cut leaves**: the whole frames, and the first bytes of the next one. -/
theorem take_frames (n : ℕ) (xs : List Carried) :
    (xs.flatMap frameBytes).take n = (complete n xs).flatMap frameBytes ++
      ((incomplete n xs).flatMap frameBytes).take (leftover n xs) ∧
    xs = complete n xs ++ incomplete n xs ∧
    ∀ y ys, incomplete n xs = y :: ys → leftover n xs < (frameBytes y).length := by
  induction xs generalizing n with
  | nil => exact ⟨by simp [complete, incomplete], rfl, fun y ys h => by cases h⟩
  | cons x xs ih =>
    rw [complete, incomplete, leftover]
    by_cases hle : (frameBytes x).length ≤ n
    · obtain ⟨htake, hsplit, hlt⟩ := ih (n - (frameBytes x).length)
      simp only [if_pos hle]
      refine ⟨?_, congrArg (x :: ·) hsplit, hlt⟩
      rw [List.flatMap_cons, List.flatMap_cons, List.take_append, List.take_of_length_le hle, htake,
        List.append_assoc]
    · simp only [if_neg hle]
      refine ⟨rfl, rfl, fun y ys h => ?_⟩
      cases h
      exact Nat.not_le.mp hle

/-! #### The end of a cut stream -/

theorem readBeU64_short {s : Stream} (h : s.length < 8) : readBeU64 s = none := by
  rw [readBeU64, takeWord, if_pos h]
  rfl

/-- The header cannot be read from fewer than 33 bytes. -/
theorem readHeader_short {s : Stream} (h : s.length < 33) : readHeader s = none := by
  cases hs : readHeader s with
  | none => rfl
  | some p =>
    have hlen := (takes_of_readHeader hs).le
    omega

/-- A pass that has no message ready is the last one. -/
theorem rxLoop_handed_nil {junk : ℕ → UInt8} {net : Net} {s : Stream}
    (h : (rxOne junk net.store s).message = none) : (rxLoop junk net s).handed = [] := by
  rw [rxLoop]
  split
  · rfl
  · rfl
  · rename_i h'
    rw [h'] at h
    cases h

/-- What a pass hands on is raw. -/
theorem rxOne_isRaw {junk : ℕ → UInt8} {st st' : Store} {s rest : Stream} {msg : Message}
    (h : rxOne junk st s = .sendx msg st' rest) : msg.isRaw = true := by
  obtain ⟨msgsize, s₁, hdr, s₂, -, -, -, hmsg, -⟩ := rxOne_eq_sendx h
  simp only [rxMessage, Option.bind_eq_bind, Option.bind_eq_some_iff] at hmsg
  obtain ⟨i, -, hmsg⟩ := hmsg
  cases hmsg
  rfl

/-- The 33 bytes behind the size. -/
def headerBytes (x : Carried) : Stream :=
  writeU8 1 ++ (writeBeU64 x.1.srcsid ++ (writeBeU64 x.1.srceid ++ (writeBeU64 x.1.dstsid ++
    writeBeU64 x.1.dsteid)))

theorem headerBytes_length (x : Carried) : (headerBytes x).length = 33 := by
  simp [headerBytes, writeU8, writeBeU64]

theorem frameBytes_eq (x : Carried) :
    frameBytes x = writeBeU64 (1 + 8 * 4 + x.2.len) ++ (headerBytes x ++ x.2.asSlice) := by
  simp [frameBytes, headerBytes]

theorem readHeader_headerBytes (x : Carried) (rest : Stream) :
    readHeader (headerBytes x ++ rest) =
      some (⟨1, x.1.srcsid, x.1.srceid, x.1.dstsid, x.1.dsteid⟩, rest) := by
  rw [headerBytes, ← readHeader_append]
  simp only [List.append_assoc]

/-- A pass over what is there of a frame with its header: the payload length is the one announced,
and whatever follows the header is the payload. -/
theorem rxOne_header (junk : ℕ → UInt8) (st : Store) (x : Carried) (rest : Stream) :
    rxOne junk st (writeBeU64 (1 + 8 * 4 + x.2.len) ++ (headerBytes x ++ rest)) =
      match rxMessage junk st ⟨1, x.1.srcsid, x.1.srceid, x.1.dstsid, x.1.dsteid⟩ x.2.len
        (readAtLeast junk x.2.len.toNat rest).1 with
      | none => .panicked
      | some (msg, st') => .sendx msg st' (readAtLeast junk x.2.len.toNat rest).2 := by
  have hsize : 1 + 8 * 4 + x.2.len - (1 + 8 * 4) = x.2.len := by
    rw [UInt64.add_comm, UInt64.add_sub_cancel]
  rw [rxOne, readBeU64_write]
  simp only [readHeader_headerBytes, hsize]
  exact if_neg (by simp)

theorem length_readAtLeast (junk : ℕ → UInt8) (n : ℕ) (s : Stream) :
    (readAtLeast junk n s).1.length = n := by
  rw [readAtLeast, List.length_append, List.length_take, List.length_map, List.length_range]
  omega

/-- **The next frame of a cut stream**: it yields no message exactly if the cut is before its
payload. -/
theorem rxOne_cut (junk : ℕ → UInt8) (st : Store) {x : Carried}
    (hx : x.2.len.toNat ≤ x.2.buf.length) {n : ℕ} (hn : n < (frameBytes x).length) :
    (rxOne junk st ((frameBytes x).take n)).message = none ↔ n < 41 := by
  rw [frameBytes_length hx] at hn
  have hword : (writeBeU64 (1 + 8 * 4 + x.2.len)).length = 8 := length_bytes _ _
  rw [frameBytes_eq, List.take_append, hword]
  by_cases h8 : n < 8
  · have hzero : n - 8 = 0 := Nat.sub_eq_zero_of_le (Nat.le_of_lt h8)
    have hlen : ((writeBeU64 (1 + 8 * 4 + x.2.len)).take n).length < 8 := by
      rw [List.length_take, hword]
      omega
    rw [hzero, List.take_zero, List.append_nil, rxOne, readBeU64_short hlen]
    exact iff_of_true rfl (by omega)
  · rw [List.take_of_length_le (by omega : (writeBeU64 (1 + 8 * 4 + x.2.len)).length ≤ n)]
    by_cases h41 : n < 41
    · -- the size is there, the header is not
      have hlen : ((headerBytes x ++ x.2.asSlice).take (n - 8)).length < 33 := by
        rw [List.length_take]
        omega
      rw [rxOne, readBeU64_write]
      simp only [readHeader_short hlen]
      exact iff_of_true rfl h41
    · -- the header is there: the rest of the payload is whatever the buffer held
      rw [List.take_append, headerBytes_length,
        List.take_of_length_le (by rw [headerBytes_length]; omega), rxOne_header]
      have hne : x.2.len ≠ 0 := by
        intro h0
        have hz : x.2.len.toNat = 0 := by rw [h0]; rfl
        omega
      rw [rxMessage, RawMessage.Internal.writeFromSlice_new junk hne (length_readAtLeast junk _ _)]
      exact iff_of_false (fun h => by cases h) h41

/-- A frame without payload is read as a message of one byte. -/
theorem rxOne_empty (junk : ℕ → UInt8) (st : Store) {x : Carried} (hx : x.2.len = 0)
    (rest : Stream) :
    ∃ msg st', rxOne junk st (frameBytes x ++ rest) = .sendx msg st' rest ∧ msg.isRaw = true ∧
      (st'.buf msg.buf).asSlice.length = 1 := by
  have hslice : x.2.asSlice = [] := by
    rw [RawMessage.Internal.asSlice, hx]
    rfl
  have hzero : x.2.len.toNat = 0 := by
    rw [hx]
    rfl
  have hnew : (RawMessage.Internal.new junk 0).writeFromSlice 0 [] =
      some ⟨1, 1, RawMessage.allocate junk 1⟩ := rfl
  rw [frameBytes_eq, hslice, List.append_nil, List.append_assoc, rxOne_header, hzero, hx, rxMessage]
  simp only [readAtLeast, List.take_zero, Nat.zero_sub, List.range_zero, List.map_nil,
    List.append_nil, hnew, List.drop_zero]
  refine ⟨_, _, rfl, rfl, ?_⟩
  show ((st.newBuf ⟨1, 1, RawMessage.allocate junk 1⟩).2.buf st.nbuf).asSlice.length = 1
  rw [Store.newBuf_buf_self]
  rfl

/-- **A cut sequence of frames.** -/
theorem rxLoop_cut (junk : ℕ → UInt8) {xs : List Carried}
    (hxs : ∀ x ∈ xs, x.2.len.toNat ≤ x.2.buf.length) (n : ℕ) (net : Net) :
    (rxLoop junk net ((xs.flatMap frameBytes).take n)).handed.map wire = (complete n xs).map wire ↔
      (∀ x ∈ complete n xs, x.2.len ≠ 0) ∧ leftover n xs < 41 := by
  induction xs generalizing n net with
  | nil =>
    have hend : (rxOne junk net.store []).message = none := rfl
    simp [complete, leftover, rxLoop_handed_nil hend]
  | cons x xs ih =>
    have hx := hxs x List.mem_cons_self
    have hrest : ∀ y ∈ xs, y.2.len.toNat ≤ y.2.buf.length :=
      fun y hy => hxs y (List.mem_cons_of_mem x hy)
    rw [complete, leftover, List.flatMap_cons, List.take_append]
    by_cases hle : (frameBytes x).length ≤ n
    · rw [if_pos hle, if_pos hle, List.take_of_length_le hle]
      by_cases hzero : x.2.len = 0
      · -- one byte is handed on where none was sent
        obtain ⟨msg, st, hone, hraw, hlen⟩ := rxOne_empty junk net.store hzero
          ((xs.flatMap frameBytes).take (n - (frameBytes x).length))
        obtain ⟨net', -, hloop⟩ := rxLoop_of_sendx hone hraw
        have hslice : x.2.asSlice.length = 0 := by
          rw [RawMessage.Internal.asSlice, hzero]
          rfl
        rw [hloop]
        refine iff_of_false (fun h => ?_) (fun h => h.1 x List.mem_cons_self hzero)
        have hbytes := congrArg (fun w => w.2.2.2.2) (List.cons.inj h).1
        have hlens := congrArg List.length hbytes
        have hone : x.2.asSlice.length = 1 := hlens.symm.trans hlen
        omega
      · obtain ⟨net', -, hloop⟩ := rxLoop_of_sendx (rxOne_frameBytes junk net.store ⟨hzero, hx⟩
          ((xs.flatMap frameBytes).take (n - (frameBytes x).length))) rfl
        rw [hloop, List.map_cons, List.map_cons, wire_received net.store ⟨hzero, hx⟩,
          List.cons.injEq, List.forall_mem_cons]
        simp only [true_and, ne_eq, hzero, not_false_eq_true]
        exact ih hrest _ net'
    · rw [if_neg hle, if_neg hle]
      have hlt := Nat.not_le.mp hle
      have hnil : n - (frameBytes x).length = 0 := Nat.sub_eq_zero_of_le (Nat.le_of_lt hlt)
      rw [hnil, List.take_zero, List.append_nil]
      have hcut := rxOne_cut junk net.store hx hlt
      constructor
      · intro h
        refine ⟨fun y hy => absurd hy List.not_mem_nil, hcut.mp ?_⟩
        cases hone : rxOne junk net.store ((frameBytes x).take n) with
        | returned | panicked => rfl
        | sendx msg st rest =>
          obtain ⟨net', -, hloop⟩ := rxLoop_of_sendx hone (rxOne_isRaw hone)
          rw [hloop] at h
          cases h
      · intro h
        rw [rxLoop_handed_nil (hcut.mpr h.2)]

theorem frameBytes_pos (x : Carried) : 0 < (frameBytes x).length := by
  simp only [frameBytes_eq, writeBeU64, List.length_append, length_bytes]
  omega

theorem complete_zero (xs : List Carried) : complete 0 xs = [] ∧ leftover 0 xs = 0 := by
  cases xs with
  | nil => exact ⟨rfl, rfl⟩
  | cons x xs =>
    have hnot := Nat.not_le.mpr (frameBytes_pos x)
    rw [complete, leftover, if_neg hnot, if_neg hnot]
    exact ⟨rfl, rfl⟩

/-- **A connection cut at any byte.**  Of a stream that `thread_tx` wrote, cut anywhere, `thread_rx`
hands to `sendx` exactly the messages whose frames are whole, with their bytes, if and only if these
are not empty and of the next frame fewer than 41 bytes are there, so not the whole header. -/
theorem threadRx_cut_iff (junk : ℕ → UInt8) (terminate : TypeId) (sid : ID) (net : Net) (e : EpId)
    {results : List (IoResult Carried)}
    (hbuf : ∀ x ∈ forwarded terminate results, x.2.len.toNat ≤ x.2.buf.length) {s : Stream}
    (hcut : s <+: threadTx terminate sid results) :
    let xs := forwarded terminate results
    (threadRx junk net e s).handed.map wire = (complete (s.length - 8) xs).map wire ↔
      (∀ x ∈ complete (s.length - 8) xs, x.2.len ≠ 0) ∧ leftover (s.length - 8) xs < 41 := by
  intro xs
  have htake := List.prefix_iff_eq_take.mp hcut
  have hword : (writeBeU64 sid).length = 8 := length_bytes _ _
  by_cases h8 : s.length < 8
  · -- the sid of the peer does not arrive
    obtain ⟨hnone, hzero⟩ := complete_zero xs
    have hlen : s.length - 8 = 0 := Nat.sub_eq_zero_of_le (Nat.le_of_lt h8)
    rw [hlen, hnone, hzero, threadRx, readBeU64_short h8]
    exact iff_of_true rfl ⟨fun x hx => absurd hx List.not_mem_nil, by omega⟩
  · have hs : s = writeBeU64 sid ++ (xs.flatMap frameBytes).take (s.length - 8) := by
      rw [threadTx, txLoop_eq, List.take_append, hword,
        List.take_of_length_le (by omega : (writeBeU64 sid).length ≤ s.length)] at htake
      exact htake
    have hrx : threadRx junk net e s =
        rxLoop junk (net.setsid e sid) ((xs.flatMap frameBytes).take (s.length - 8)) := by
      generalize s.length - 8 = n at hs
      rw [hs, threadRx, readBeU64_write]
    rw [hrx]
    exact rxLoop_cut junk hbuf _ _

/-- Raw messages of two bytes and of one. -/
def twoFrames : List (IoResult Carried) :=
  [.ok (Message.newFromraw ⟨0⟩, ⟨2, 2, [5, 6]⟩), .error .timedOut,
    .ok (Message.newFromraw ⟨1⟩, ⟨1, 1, [7]⟩)]

/-- Cut in the header of the second frame, the stream yields the first message. -/
theorem threadRx_cut_iff_header :
    (threadRx (fun _ => 0) (Net.new 100) 0 ((threadTx 9 200 twoFrames).take 70)).handed.map wire =
      [(0, 0, 0, 0, [5, 6])] :=
  (threadRx_cut_iff (fun _ => 0) 9 200 (Net.new 100) 0 (by decide +kernel)
    (List.take_prefix 70 (threadTx 9 200 twoFrames))).mpr (by decide +kernel)

/-- **A cut payload is delivered**: cut in the payload of the first frame, the stream yields a message
although no frame is whole. -/
theorem not_threadRx_cut : ¬∀ (junk : ℕ → UInt8) (terminate : TypeId) (sid : ID) (net : Net)
    (e : EpId) (results : List (IoResult Carried)) (s : Stream),
    (∀ x ∈ forwarded terminate results, x.2.len ≠ 0 ∧ x.2.len.toNat ≤ x.2.buf.length) →
    s <+: threadTx terminate sid results →
    (threadRx junk net e s).handed.map wire =
      (complete (s.length - 8) (forwarded terminate results)).map wire := by
  intro h
  have hrx := h (fun _ => 0) 9 200 (Net.new 100) 0 twoFrames _ (by decide +kernel)
    (List.take_prefix 50 (threadTx 9 200 twoFrames))
  have hcut : (threadTx 9 200 twoFrames).take 50 = writeBeU64 200 ++
      ((forwarded 9 twoFrames).flatMap frameBytes).take 42 := by decide +kernel
  have hlen : ((threadTx 9 200 twoFrames).take 50).length - 8 = 42 := by decide +kernel
  rw [hlen, hcut, threadRx, readBeU64_write] at hrx
  have hless := ((rxLoop_cut (fun _ => 0) (by decide +kernel) 42 _).mp hrx).2
  exact absurd hless (by decide +kernel)

/-! ### Announced sizes -/

/-- A size that `thread_rx` read, and the length it computed from it: of the payload buffer, of the
read into it and of the raw message. -/
structure Sizes where
  announced : UInt64
  payload : UInt64
  deriving DecidableEq, Repr

/-- The sizes of one pass, if it gets past the header. -/
def rxSize (s : Stream) : Option Sizes := do
  let (msgsize, s) ← readBeU64 s
  let (_, _) ← readHeader s
  some ⟨msgsize, msgsize - (1 + 8 * 4)⟩

/-- The sizes are those the pass works with: it takes so many bytes off the stream behind the
header, and the message it makes has that capacity, one byte at least. -/
theorem rxOne_sizes {junk : ℕ → UInt8} {st st' : Store} {s rest : Stream} {msg : Message}
    (h : rxOne junk st s = .sendx msg st' rest) :
    ∃ z, rxSize s = some z ∧ rest = s.drop (41 + z.payload.toNat) ∧
      (st'.buf msg.buf).cap = if z.payload = 0 then 1 else z.payload := by
  obtain ⟨msgsize, s₁, hdr, s₂, hsize, hhdr, -, hmsg, hrest⟩ := rxOne_eq_sendx h
  refine ⟨⟨msgsize, msgsize - (1 + 8 * 4)⟩, ?_, ?_, ?_⟩
  · rw [rxSize, hsize, Option.bind_eq_bind, Option.bind_some]
    simp only [hhdr, Option.bind_eq_bind, Option.bind_some]
  · have hread := ((takes_of_readBeU64 hsize).trans (takes_of_readHeader hhdr)).eq
    rw [← hrest, hread, readAtLeast, List.drop_drop]
  · simp only [rxMessage, Option.bind_eq_bind, Option.bind_eq_some_iff] at hmsg
    obtain ⟨i, hwrite, hmsg⟩ := hmsg
    cases hmsg
    have hcap : i.cap = (RawMessage.Internal.new junk (msgsize - (1 + 8 * 4))).cap := by
      unfold RawMessage.Internal.writeFromSlice at hwrite
      split at hwrite
      · cases hwrite
      · cases hwrite
        rfl
    show ((st.newBuf i).2.buf st.nbuf).cap = _
    rw [Store.newBuf_buf_self, hcap]
    rfl

/-- The arithmetic of a pass is that of the integers. -/
def Sizes.Exact (z : Sizes) : Prop :=
  (z.payload.toNat : ℤ) = z.announced.toNat - 33 ∧ z.payload ≤ z.announced

end WaterNet.Tcp
