import Mathlib.Logic.Function.Basic
import WaterNet.RawMessage

/-!
# Messages and the cells they share (`message.rs`, `syncmessage.rs`, `clonemessage.rs`)

A message holds its payload through `Arc`s, so a `RawMessage` is the identity of a buffer and a
`SyncMessage` also carries the identity of its `valid` flag; the cells themselves are in a `Store`.
A clone copies identities, `dup` allocates a new cell.

* `clone_eq`, `internalClone_eq`, `giveClone_eq` — a clone is the same value: same header, same
  cells; only the message kinds the source panics on give `none`;
* `dup_eq_some`, `dupIfok_raw`, `dupIfok_of_not_raw` — `dup` is a fresh cell holding the
  duplicate, and `dup_ifok` is `dup` on raw messages and the identity on the others.
-/

namespace WaterNet

/-- `net::ID`. -/
abbrev ID := UInt64

/-- `net::UNUSED_ID`, `!0u64`. -/
def UNUSED_ID : ID := ~~~0

/-- What `TypeId::of::<T>()` returns. -/
abbrev TypeId := ℕ

/-- History variable: the thread whose send a message stems from, and how many sends that thread
had issued before it.  No function of the source reads it. -/
structure SendId where
  thread : ℕ
  seq : ℕ
  deriving DecidableEq, Repr

/-- A handle on a raw buffer: the identity of the cell behind the `Arc`. -/
structure RawMessage where
  i : ℕ
  deriving DecidableEq, Repr

structure SyncMessage where
  tyid : TypeId
  valid : ℕ
  payload : RawMessage
  deriving DecidableEq, Repr

structure CloneMessage where
  tyid : TypeId
  payload : RawMessage
  deriving DecidableEq, Repr

inductive MessagePayload where
  | raw (msg : RawMessage)
  | sync (msg : SyncMessage)
  | clone (msg : CloneMessage)
  deriving DecidableEq, Repr

structure Message where
  srcsid : ID
  srceid : ID
  dstsid : ID
  dsteid : ID
  canloop : Bool
  payload : MessagePayload
  origin : SendId := ⟨0, 0⟩
  deriving DecidableEq, Repr

/-! ### The shared cells -/

/-- The cells that `Arc`s point to: raw buffers and `valid` flags, and the next unused identity
of each kind. -/
structure Store where
  buf : ℕ → RawMessage.Internal
  nbuf : ℕ
  valid : ℕ → Bool
  nvalid : ℕ

namespace Store

def empty : Store :=
  { buf := fun _ => ⟨0, 0, []⟩, nbuf := 0, valid := fun _ => false, nvalid := 0 }

/-- `Arc::new(Mutex::new(i))` for a raw buffer. -/
def newBuf (st : Store) (i : RawMessage.Internal) : RawMessage × Store :=
  (⟨st.nbuf⟩, { st with buf := Function.update st.buf st.nbuf i, nbuf := st.nbuf + 1 })

/-- `Arc::new(Mutex::new(true))`, the flag of a new sync message. -/
def newValid (st : Store) : ℕ × Store :=
  (st.nvalid, { st with valid := Function.update st.valid st.nvalid true, nvalid := st.nvalid + 1 })

/-- `SyncMessage::takeasvalid`: the first caller gets `true`. -/
def takeasvalid (st : Store) (s : SyncMessage) : Bool × Store :=
  if st.valid s.valid then (true, { st with valid := Function.update st.valid s.valid false })
  else (false, st)

/-- A change of one buffer in place, through any handle on it. -/
def setBuf (st : Store) (r : RawMessage) (i : RawMessage.Internal) : Store :=
  { st with buf := Function.update st.buf r.i i }

@[simp] theorem newBuf_fst (st : Store) (i : RawMessage.Internal) :
    (st.newBuf i).1 = ⟨st.nbuf⟩ := rfl

@[simp] theorem newBuf_nbuf (st : Store) (i : RawMessage.Internal) :
    (st.newBuf i).2.nbuf = st.nbuf + 1 := rfl

@[simp] theorem newBuf_valid (st : Store) (i : RawMessage.Internal) :
    (st.newBuf i).2.valid = st.valid := rfl

@[simp] theorem newBuf_nvalid (st : Store) (i : RawMessage.Internal) :
    (st.newBuf i).2.nvalid = st.nvalid := rfl

@[simp] theorem newBuf_buf_self (st : Store) (i : RawMessage.Internal) :
    (st.newBuf i).2.buf st.nbuf = i := by simp [newBuf]

theorem newBuf_buf_of_lt (st : Store) (i : RawMessage.Internal) {b : ℕ} (h : b < st.nbuf) :
    (st.newBuf i).2.buf b = st.buf b := by
  simp [newBuf, Function.update_of_ne (Nat.ne_of_lt h)]

@[simp] theorem setBuf_buf_self (st : Store) (b : ℕ) (i : RawMessage.Internal) :
    (st.setBuf ⟨b⟩ i).buf b = i := by simp [setBuf]

theorem setBuf_buf_of_ne (st : Store) {b b' : ℕ} (i : RawMessage.Internal) (h : b' ≠ b) :
    (st.setBuf ⟨b⟩ i).buf b' = st.buf b' := by
  simp [setBuf, Function.update_of_ne h]

end Store

/-! ### Message methods -/

namespace Message

/-- The buffer behind the payload, of whatever kind the message is. -/
def buf (m : Message) : ℕ :=
  match m.payload with
  | .raw r => r.i
  | .sync s => s.payload.i
  | .clone c => c.payload.i

/-- The `valid` flag of a sync message. -/
def flag (m : Message) : Option ℕ :=
  match m.payload with
  | .sync s => some s.valid
  | _ => none

/-- `Message::cap`. -/
def cap (m : Message) (st : Store) : UInt64 :=
  match m.payload with
  | .raw r => (st.buf r.i).cap
  | .sync s => (st.buf s.payload.i).cap
  | .clone c => (st.buf c.payload.i).cap

def isRaw (m : Message) : Bool :=
  match m.payload with
  | .raw _ => true
  | _ => false

def isSync (m : Message) : Bool :=
  match m.payload with
  | .sync _ => true
  | _ => false

def isClone (m : Message) : Bool :=
  match m.payload with
  | .clone _ => true
  | _ => false

/-- `Message::is_type::<T>` for the `T` whose `TypeId` is `ty`. -/
def isType (m : Message) (ty : TypeId) : Bool :=
  match m.payload with
  | .sync s => s.tyid = ty
  | .clone c => c.tyid = ty
  | .raw _ => false

/-- `Message::clone`: panics on a sync message. -/
def clone (m : Message) : Option Message :=
  match m.payload with
  | .raw r => some { m with payload := .raw ⟨r.i⟩ }
  | .clone c => some { m with payload := .clone ⟨c.tyid, ⟨c.payload.i⟩⟩ }
  | .sync _ => none

/-- `Message::internal_clone`: panics without the key. -/
def internalClone (m : Message) (key : UInt64) : Option Message :=
  if key != 0x879 then none
  else
    match m.payload with
    | .sync s => some { m with payload := .sync ⟨s.tyid, s.valid, ⟨s.payload.i⟩⟩ }
    | _ => m.clone

/-- The copy `Endpoint::give` puts into its queue. -/
def giveClone (m : Message) : Option Message :=
  if m.isSync then m.internalClone 0x879 else m.clone

/-- `Message::dup`: panics on anything but a raw message. -/
def dup (m : Message) (st : Store) : Option (Message × Store) :=
  match m.payload with
  | .raw r =>
    let (r', st') := st.newBuf (st.buf r.i).dup
    some ({ m with payload := .raw r' }, st')
  | _ => none

/-- `Message::dup_ifok`. -/
def dupIfok (m : Message) (st : Store) : Message × Store :=
  match m.payload with
  | .raw r =>
    let (r', st') := st.newBuf (st.buf r.i).dup
    ({ m with payload := .raw r' }, st')
  | _ => (m, st)

/-- The header every constructor of a message starts from, with a given payload. -/
def ofPayload (payload : MessagePayload) : Message :=
  { srcsid := 0, srceid := 0, dstsid := 0, dsteid := 0, canloop := false, payload := payload }

/-- `Message::new_fromraw`. -/
def newFromraw (rmsg : RawMessage) : Message := ofPayload (.raw rmsg)

/-- `Message::new_raw`. -/
def newRaw (st : Store) (junk : ℕ → UInt8) (cap : UInt64) : Message × Store :=
  let (r, st') := st.newBuf (RawMessage.Internal.new junk cap)
  (newFromraw r, st')

/-- The buffer a value `t` of any type is moved into: `RawMessage::new(size_of::<T>())` and
`writestruct(0, t)`, which stays within the capacity. -/
def typedBuf (junk : ℕ → UInt8) (t : List UInt8) : RawMessage.Internal :=
  let i := RawMessage.Internal.new junk (UInt64.ofNat t.length)
  (i.writestructref 0 t).getD i

/-- `Message::new_clone`: `ty` is the type of the value and `t` its byte representation. -/
def newClone (st : Store) (junk : ℕ → UInt8) (ty : TypeId) (t : List UInt8) : Message × Store :=
  let (r, st') := st.newBuf (typedBuf junk t)
  (ofPayload (.clone ⟨ty, r⟩), st')

/-- `Message::new_sync`. -/
def newSync (st : Store) (junk : ℕ → UInt8) (ty : TypeId) (t : List UInt8) : Message × Store :=
  let (r, st') := st.newBuf (typedBuf junk t)
  let (v, st'') := st'.newValid
  (ofPayload (.sync ⟨ty, v, r⟩), st'')

/-- `CloneMessage::get_payload` for the type `ty`, whose values have `size` bytes: the byte
representation of the value.  It panics on another type than the one that was sent. -/
def getClonePayload (junk : ℕ → UInt8) (c : CloneMessage) (st : Store) (ty : TypeId) (size : ℕ) :
    Option (List UInt8) :=
  if ty != c.tyid then none else (st.buf c.payload.i).readstructunsaferef junk 0 size

/-- `SyncMessage::get_payload`. -/
def getSyncPayload (junk : ℕ → UInt8) (s : SyncMessage) (st : Store) (ty : TypeId) (size : ℕ) :
    Option (List UInt8) :=
  if ty != s.tyid then none else (st.buf s.payload.i).readstructunsaferef junk 0 size

/-- `Message::typeunwrap`: panics on a raw message. -/
def typeunwrap (junk : ℕ → UInt8) (m : Message) (st : Store) (ty : TypeId) (size : ℕ) :
    Option (List UInt8) :=
  match m.payload with
  | .clone c => getClonePayload junk c st ty size
  | .sync s => getSyncPayload junk s st ty size
  | .raw _ => none

/-! ### What the methods return -/

theorem isRaw_iff {m : Message} : m.isRaw = true ↔ ∃ r, m.payload = .raw r := by
  unfold isRaw
  split <;> simp_all

theorem isRaw_of_payload {m : Message} {r : RawMessage} (h : m.payload = .raw r) :
    m.isRaw = true := isRaw_iff.mpr ⟨r, h⟩

theorem isRaw_false_of_sync {m : Message} {s : SyncMessage} (h : m.payload = .sync s) :
    m.isRaw = false := by simp [isRaw, h]

theorem isRaw_false_of_clone {m : Message} {c : CloneMessage} (h : m.payload = .clone c) :
    m.isRaw = false := by simp [isRaw, h]

theorem flag_of_sync {m : Message} {s : SyncMessage} (h : m.payload = .sync s) :
    m.flag = some s.valid := by simp [flag, h]

theorem flag_eq_some {m : Message} {f : ℕ} :
    m.flag = some f ↔ ∃ s, m.payload = .sync s ∧ s.valid = f := by
  unfold flag
  split <;> simp_all

theorem cap_eq (m : Message) (st : Store) : m.cap st = (st.buf m.buf).cap := by
  unfold cap buf
  split <;> simp_all

/-- A clone is the same value, since it shares the payload's cells. -/
theorem clone_eq (m : Message) : m.clone = if m.isSync then none else some m := by
  rcases m with ⟨_, _, _, _, _, payload, _⟩
  cases payload <;> simp [clone, isSync]

theorem internalClone_eq (m : Message) (key : UInt64) :
    m.internalClone key = if key = 0x879 then some m else none := by
  unfold internalClone
  rcases m with ⟨_, _, _, _, _, payload, _⟩
  by_cases hk : key = 0x879
  · cases payload <;> simp [hk, clone]
  · simp [hk]

@[simp] theorem giveClone_eq (m : Message) : m.giveClone = some m := by
  unfold giveClone
  by_cases hs : m.isSync = true
  · simp [hs, internalClone_eq]
  · simp [hs, clone_eq]

/-- The message `dup` returns: the same header over the next fresh buffer. -/
def onFresh (m : Message) (st : Store) : Message := { m with payload := .raw ⟨st.nbuf⟩ }

theorem dup_raw {m : Message} (h : m.isRaw = true) (st : Store) :
    m.dup st = some (m.onFresh st, (st.newBuf (st.buf m.buf).dup).2) := by
  obtain ⟨r, hr⟩ := isRaw_iff.mp h
  simp [dup, onFresh, buf, hr]

theorem dup_eq_some {m m' : Message} {st st' : Store} (h : m.dup st = some (m', st')) :
    m.isRaw = true ∧ m' = m.onFresh st ∧ st' = (st.newBuf (st.buf m.buf).dup).2 := by
  have hraw : m.isRaw = true := by
    unfold dup at h
    split at h
    · rename_i hr
      exact isRaw_of_payload hr
    · cases h
  rw [dup_raw hraw] at h
  cases h
  exact ⟨hraw, rfl, rfl⟩

theorem dupIfok_raw {m : Message} (h : m.isRaw = true) (st : Store) :
    m.dupIfok st = (m.onFresh st, (st.newBuf (st.buf m.buf).dup).2) := by
  obtain ⟨r, hr⟩ := isRaw_iff.mp h
  simp [dupIfok, onFresh, buf, hr]

theorem dupIfok_of_not_raw {m : Message} (h : m.isRaw = false) (st : Store) :
    m.dupIfok st = (m, st) := by
  unfold dupIfok
  split
  · rename_i hr
    rw [isRaw_of_payload hr] at h
    cases h
  · rfl

@[simp] theorem onFresh_isRaw (m : Message) (st : Store) : (m.onFresh st).isRaw = true := rfl

@[simp] theorem onFresh_buf (m : Message) (st : Store) : (m.onFresh st).buf = st.nbuf := rfl

@[simp] theorem onFresh_flag (m : Message) (st : Store) : (m.onFresh st).flag = none := rfl

@[simp] theorem onFresh_origin (m : Message) (st : Store) : (m.onFresh st).origin = m.origin := rfl

/-- A `recv` that has taken the message out of the queue returns it: it is no sync message, or one
that nobody has taken. -/
def receivable (m : Message) (st : Store) : Bool := m.flag.all st.valid

@[simp] theorem dupIfok_flag (m : Message) (st : Store) : (m.dupIfok st).1.flag = m.flag := by
  cases hp : m.payload <;> simp [dupIfok, flag, hp]

@[simp] theorem dupIfok_valid (m : Message) (st : Store) : (m.dupIfok st).2.valid = st.valid := by
  cases hp : m.payload <;> simp [dupIfok, hp]

theorem receivable_of_le {m : Message} {st st' : Store}
    (h : ∀ f, st'.valid f = true → st.valid f = true) (hm : m.receivable st' = true) :
    m.receivable st = true := by
  unfold receivable at hm ⊢
  cases hf : m.flag with
  | none => rfl
  | some f =>
    rw [hf] at hm
    exact h f hm

end Message

end WaterNet
