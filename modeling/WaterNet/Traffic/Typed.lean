import WaterNet.RawMessage.Typed
import WaterNet.Traffic.Values

/-!
# Typed messages round-trip through a net

`new_sync` and `new_clone` take a value apart: the tag of its type goes into the payload, which the
clones carry through the queues, and its bytes go into a buffer, which they share.  `is_type` looks
at the tag only, and `typeunwrap` checks the tag and reads the buffer.

* `Types` — the types of a program, of any size, with their tags;
* `typedBuf_read` — a buffer that a value was moved into gives its bytes back, also where the type
  has no bytes and the buffer has one;
* `World.intact` — the action writes nothing to a cell; `sameBytes_step` — then the cell keeps its
  bytes;
* `sendtype_sends` — what `sendsynctype` and `sendclonetype` do before the message is on its way;
* `Stored` — what is known of the value in a cell at each point of a run;
* `typed_round_trip` — **what a `recv` returns of a typed message unwraps to the value that was
  sent, at its type and at no other**.
-/

namespace WaterNet

open RawMessage (FixedSize writestructref_eq readstructunsafe_of_bytes)
open RawMessage.FixedSize (size toBytes ofBytes length_toBytes ofBytes_toBytes)

/-! ### The bytes of a value -/

namespace RawMessage.Internal

/-- Two buffers of one size with the same bytes; their lengths may differ. -/
structure SameBytes (i j : Internal) : Prop where
  cap : i.cap = j.cap
  buf : i.buf = j.buf

theorem SameBytes.refl (i : Internal) : SameBytes i i := ⟨rfl, rfl⟩

theorem SameBytes.trans {i j k : Internal} (h : SameBytes i j) (h' : SameBytes j k) :
    SameBytes i k :=
  ⟨h.cap.trans h'.cap, h.buf.trans h'.buf⟩

/-- A read does not look at the length. -/
theorem SameBytes.readstructunsaferef_eq {i j : Internal} (h : SameBytes i j) (junk : ℕ → UInt8)
    (offset : UInt64) (size : ℕ) :
    i.readstructunsaferef junk offset size = j.readstructunsaferef junk offset size := by
  rw [readstructunsaferef, readstructunsaferef, h.cap, h.buf]

theorem sameBytes_setlen {i i' : Internal} {len : UInt64} (h : i.setlen len = some i') :
    SameBytes i' i := by
  unfold setlen at h
  split at h
  next => cases h
  next =>
    cases h
    exact ⟨rfl, rfl⟩

end RawMessage.Internal

open RawMessage.Internal (SameBytes sameBytes_setlen)

namespace Message

/-- **A value comes out of its buffer as it went in**, whatever the buffer's first bytes were and
also if the value has none. -/
theorem typedBuf_read {T : Type} [FixedSize T] (hsize : size T < 2 ^ 64) (junk junk' : ℕ → UInt8)
    (t : T) :
    RawMessage.Internal.readstructunsafe T junk' (typedBuf junk (toBytes t)) 0 = some t := by
  have hlen : (toBytes t).length = size T := length_toBytes t
  have hle := RawMessage.Internal.le_new_cap junk hsize
  have hbuf := RawMessage.Internal.new_allocated junk (UInt64.ofNat (size T))
  have htyped : typedBuf junk (toBytes t) =
      let i := RawMessage.Internal.new junk (UInt64.ofNat (size T))
      { i with buf := RawMessage.storeBytes i.buf 0 (toBytes t) } := by
    have hin : (0 : UInt64).toNat + (toBytes t).length ≤
        (RawMessage.Internal.new junk (UInt64.ofNat (size T))).cap.toNat := by
      rw [hlen, UInt64.toNat_zero, Nat.zero_add]
      exact hle
    simp only [typedBuf]
    rw [hlen, writestructref_eq hin, Option.getD_some]
  rw [htyped]
  generalize RawMessage.Internal.new junk (UInt64.ofNat (size T)) = i at hle hbuf
  have hcap := i.cap.toNat_lt
  have hzero : (0 : UInt64).toNat = 0 := rfl
  rw [RawMessage.Internal.Allocated] at hbuf
  apply readstructunsafe_of_bytes junk'
  · rw [RawMessage.Internal.Allocated, RawMessage.length_storeBytes]
    exact hbuf
  · show (0 : UInt64).toNat + size T ≤ i.cap.toNat
    omega
  · intro n hn
    show (RawMessage.storeBytes i.buf 0 (toBytes t))[(0 : UInt64).toNat + n]? = _
    rw [RawMessage.getElem?_storeBytes (by omega) (by omega), if_pos (by omega),
      Nat.add_sub_cancel_left]

/-- A clone or sync message has a type and a cell. -/
theorem typed_of_not_raw {m : Message} (h : m.isRaw = false) : ∃ ty, m.typed = some (ty, m.buf) := by
  cases hp : m.payload with
  | raw r =>
    rw [isRaw_of_payload hp] at h
    cases h
  | sync s => exact ⟨s.tyid, by simp [typed, buf, hp]⟩
  | clone c => exact ⟨c.tyid, by simp [typed, buf, hp]⟩

/-- `is_type` compares the tags. -/
theorem isType_of_typed {m : Message} {ty : TypeId} {c : ℕ} (h : m.typed = some (ty, c))
    (ty' : TypeId) : m.isType ty' = true ↔ ty' = ty := by
  cases hp : m.payload with
  | raw r => simp [typed, hp] at h
  | sync s =>
    obtain ⟨rfl, -⟩ : s.tyid = ty ∧ s.payload.i = c := by simpa [typed, hp] using h
    simp [isType, hp, eq_comm]
  | clone s =>
    obtain ⟨rfl, -⟩ : s.tyid = ty ∧ s.payload.i = c := by simpa [typed, hp] using h
    simp [isType, hp, eq_comm]

/-- `typeunwrap` compares the tags and reads the cell. -/
theorem typeunwrap_of_typed {m : Message} {ty : TypeId} {c : ℕ} (h : m.typed = some (ty, c))
    (junk : ℕ → UInt8) (st : Store) (ty' : TypeId) (size : ℕ) :
    m.typeunwrap junk st ty' size =
      if ty' = ty then (st.buf c).readstructunsaferef junk 0 size else none := by
  cases hp : m.payload with
  | raw r => simp [typed, hp] at h
  | sync s =>
    obtain ⟨rfl, rfl⟩ : s.tyid = ty ∧ s.payload.i = c := by simpa [typed, hp] using h
    simp [typeunwrap, getSyncPayload, hp]
  | clone s =>
    obtain ⟨rfl, rfl⟩ : s.tyid = ty ∧ s.payload.i = c := by simpa [typed, hp] using h
    simp [typeunwrap, getClonePayload, hp]

end Message

/-! ### The types of a program -/

/-- The types of a program: the values of each with their bytes, and the tag `TypeId::of`. -/
structure Types where
  Ty : Type
  Val : Ty → Type
  fixed : ∀ T, FixedSize (Val T)
  size_lt : ∀ T, (fixed T).size < 2 ^ 64
  tyid : Ty → TypeId
  tyid_injective : Function.Injective tyid

instance (P : Types) (T : P.Ty) : FixedSize (P.Val T) := P.fixed T

namespace Message

/-- `Message::is_type::<T>`. -/
def isTypeOf (m : Message) (P : Types) (T : P.Ty) : Bool := m.isType (P.tyid T)

/-- `Message::typeunwrap::<T>`. -/
def typeunwrapOf (junk : ℕ → UInt8) (m : Message) (st : Store) (P : Types) (T : P.Ty) :
    Option (P.Val T) :=
  (m.typeunwrap junk st (P.tyid T) (size (P.Val T))).map ofBytes

section Types

variable {P : Types} {T : P.Ty} {m : Message} {c : ℕ} (h : m.typed = some (P.tyid T, c))

include h

theorem isTypeOf_iff (U : P.Ty) : m.isTypeOf P U = true ↔ U = T := by
  rw [isTypeOf, isType_of_typed h]
  exact P.tyid_injective.eq_iff

theorem typeunwrapOf_of_ne (junk : ℕ → UInt8) (st : Store) {U : P.Ty} (hU : U ≠ T) :
    m.typeunwrapOf junk st P U = none := by
  have hne : P.tyid U ≠ P.tyid T := fun heq => hU (P.tyid_injective heq)
  rw [typeunwrapOf, typeunwrap_of_typed h, if_neg hne]
  rfl

/-- A cell that holds the bytes of a value gives it back. -/
theorem typeunwrapOf_eq {st : Store} {junk : ℕ → UInt8} {t : P.Val T}
    (hst : SameBytes (st.buf c) (typedBuf junk (toBytes t))) (junk' : ℕ → UInt8) :
    m.typeunwrapOf junk' st P T = some t := by
  rw [typeunwrapOf, typeunwrap_of_typed h, if_pos rfl, hst.readstructunsaferef_eq]
  exact typedBuf_read (P.size_lt T) junk junk' t

end Types

end Message

namespace Traffic

open WaterNet.Lib.Machine (run StepsMeet run_invariant_of run_cons_eq_some)

/-! ### Cells that nobody writes to -/

namespace World

/-- The action is no call, other than `setlen`, on a held payload that is the cell `c`. -/
def intact (c : ℕ) (w : World) : Act → Bool
  | .user (.write _ (.setlen _)) => true
  | .user (.write i _) =>
    match w.held[i]? with
    | some m => m.buf != c
    | none => true
  | _ => true

section Intact

variable {w w' : World} {c : ℕ}

theorem buf_dupIfok (m : Message) {st : Store} (hc : c < st.nbuf) :
    (m.dupIfok st).2.buf c = st.buf c := by
  by_cases hraw : m.isRaw = true
  · rw [Message.dupIfok_raw hraw]
    exact Store.newBuf_buf_of_lt st _ hc
  · rw [Message.dupIfok_of_not_raw (Bool.eq_false_iff.mpr hraw)]

theorem buf_copied {net : Net} (m : Message) (hc : c < net.store.nbuf) :
    (net.copied m).2.store.buf c = net.store.buf c := by
  unfold Net.copied
  split
  · exact Store.newBuf_buf_of_lt net.store _ hc
  · rfl

/-- A thread inside a call writes to new cells only. -/
theorem buf_advance {t : ℕ} {th : Thread} (h : w.advance t th = some w')
    (hc : c < w.net.store.nbuf) : w'.net.store.buf c = w.net.store.buf c := by
  cases advance_cases h with
  | sendDup hpc => exact buf_copied _ hc
  | recvDup hpc => exact buf_dupIfok _ hc
  | retRaw hpc hraw => exact Store.newBuf_buf_of_lt w.net.store _ hc
  | sendSnap hpc | sendDone hpc | accept hpc hacc | refuse hpc hacc | put hpc hfree | add hpc
  | recvNone hpc hq | recvGet hpc hq | recvSub hpc | retSync hpc hs hv | discard hpc hs hv
  | retClone hpc hc => rfl

theorem sameBytes_user {op : UserOp} (h : w.userStep op = some w') (hc : c < w.net.store.nbuf)
    (hintact : w.intact c (.user op) = true) :
    SameBytes (w'.net.store.buf c) (w.net.store.buf c) := by
  have hsame : ∀ {i j : RawMessage.Internal}, i = j → SameBytes i j := by
    rintro i j rfl
    exact SameBytes.refl i
  cases op with
  | newRaw | newClone | newSync =>
    cases h
    exact hsame (Store.newBuf_buf_of_lt w.net.store _ hc)
  | setHeader | fromPayload =>
    simp only [userStep, Option.map_eq_some_iff] at h
    obtain ⟨m, -, rfl⟩ := h
    exact hsame rfl
  | clone i =>
    simp only [userStep, Option.bind_eq_bind, Option.bind_eq_some_iff] at h
    obtain ⟨m, -, m', -, h⟩ := h
    cases h
    exact hsame rfl
  | dup i =>
    simp only [userStep, Option.bind_eq_bind, Option.bind_eq_some_iff] at h
    obtain ⟨m, -, ⟨m', st⟩, hdup, h⟩ := h
    cases h
    obtain ⟨-, -, rfl⟩ := Message.dup_eq_some hdup
    exact hsame (Store.newBuf_buf_of_lt w.net.store _ hc)
  | write i op =>
    simp only [userStep, Option.bind_eq_bind, Option.bind_eq_some_iff] at h
    obtain ⟨m, hm, b, hb, h⟩ := h
    cases h
    show SameBytes ((w.net.store.setBuf ⟨m.buf⟩ b).buf c) _
    by_cases heq : c = m.buf
    · -- only `setlen` is called on the cell itself
      rw [heq, Store.setBuf_buf_self]
      cases op with
      | setlen len => exact sameBytes_setlen hb
      | resize | writeFromSlice | writestruct | setMutslice =>
        simp only [intact, hm, heq, bne_self_eq_false, Bool.false_eq_true] at hintact
    · exact hsame (Store.setBuf_buf_of_ne _ _ heq)
  | drop | setAddress | setLimits =>
    cases h
    exact hsame rfl

/-- **A step that writes nothing to a cell** leaves its bytes as they are. -/
theorem sameBytes_step {a : Act} (h : w.step a = some w') (hc : c < w.net.store.nbuf)
    (hintact : w.intact c a = true) : SameBytes (w'.net.store.buf c) (w.net.store.buf c) := by
  cases a with
  | user op => exact sameBytes_user h hc hintact
  | send t i how =>
    simp only [step, Option.bind_eq_bind, Option.bind_eq_some_iff, Option.ite_none_right_eq_some] at h
    obtain ⟨th, -, m, -, -, h⟩ := h
    cases h
    exact SameBytes.refl _
  | recv t e =>
    simp only [step, Option.bind_eq_bind, Option.bind_eq_some_iff, Option.ite_none_right_eq_some] at h
    obtain ⟨th, -, -, h⟩ := h
    cases h
    exact SameBytes.refl _
  | step t =>
    simp only [step, Option.bind_eq_bind, Option.bind_eq_some_iff] at h
    obtain ⟨th, -, h⟩ := h
    rw [buf_advance h hc]
    exact SameBytes.refl _

end Intact

/-- A message that was sent was in the call of some thread before. -/
theorem sent_trans {w w' : World} (h : Trans w w') {id : SendId} {m : Message}
    {content : RawMessage.Internal} (hsent : .sent id m content ∈ w'.trace) :
    .sent id m content ∈ w.trace ∨ ∃ th ∈ w.threads, m ∈ th.pc.pending := by
  cases h with
  | user h =>
    rw [(userStep_sameTraffic h).trace] at hsent
    exact Or.inl hsent
  | @sendDup t th m₀ ht hpc =>
    rcases List.mem_append.mp hsent with hold | hnew
    · exact Or.inl hold
    · cases List.mem_singleton.mp hnew
      exact Or.inr ⟨th, List.mem_of_getElem? ht, by simp [hpc, Pc.pending]⟩
  | startSend ht hpc hm => exact Or.inl hsent
  | startRecv ht hpc => exact Or.inl hsent
  | sendSnap ht hpc | sendDone ht hpc | accept ht hpc hacc | refuse ht hpc hacc | add ht hpc
  | recvNone ht hpc hq | recvDup ht hpc | recvSub ht hpc => exact Or.inl hsent
  | put ht hpc hfree | recvGet ht hpc hq | retRaw ht hpc hraw | retSync ht hpc hs hv
  | discard ht hpc hs hv | retClone ht hpc hc =>
    rcases List.mem_append.mp hsent with hold | hnew
    · exact Or.inl hold
    · cases List.mem_singleton.mp hnew

/-! ### The calls that send a value -/

/-- A message that `new` makes, addressed to everyone on the net, and its send from the endpoint `e`
up to the entry of `Net::send`. -/
def sendtype (w : World) (t : ℕ) (e : EpId) (new : UserOp) : List Act :=
  [.user new, .user (.setHeader w.held.length 0 0 1 0 false), .send t w.held.length (.send e)]

/-- `Endpoint::sendsynctype` by the thread `t`. -/
def sendsynctype (w : World) (t : ℕ) (e : EpId) (junk : ℕ → UInt8) (ty : TypeId)
    (bytes : List UInt8) : List Act :=
  w.sendtype t e (.newSync junk ty bytes)

/-- `Endpoint::sendclonetype` by the thread `t`. -/
def sendclonetype (w : World) (t : ℕ) (e : EpId) (junk : ℕ → UInt8) (ty : TypeId)
    (bytes : List UInt8) : List Act :=
  w.sendtype t e (.newClone junk ty bytes)

/-- The message that was made last gets its destination and enters `Net::send`. -/
theorem send_made {w : World} {t : ℕ} {th : Thread} (ht : w.threads[t]? = some th)
    (hidle : th.pc = .idle) (e : EpId) {held : List Message} {m₀ : Message}
    (hheld : w.held = held ++ [m₀]) :
    ∃ w₁ w' m, w.step (.user (.setHeader held.length 0 0 1 0 false)) = some w₁ ∧
      w₁.step (.send t held.length (.send e)) = some w' ∧
      w'.threads[t]? = some { th with pc := .sendDup m } ∧ m.payload = m₀.payload ∧
      m.origin = ⟨t, th.sent⟩ := by
  have hlt : t < w.threads.length := (List.getElem?_eq_some_iff.mp ht).1
  let m₁ : Message := { m₀ with
    srcsid := 0, srceid := 0, dstsid := 1, dsteid := 0, canloop := false }
  let m : Message := { (Sender.send e).stamp w.net m₁ with origin := ⟨t, th.sent⟩ }
  have hset : w.userStep (.setHeader held.length 0 0 1 0 false) = some (w.hold (held ++ [m₁])) := by
    simp only [userStep, hheld, List.getElem?_concat_length, Option.map_some,
      List.set_append_right _ _ (le_refl _), Nat.sub_self, List.set_cons_zero]
    rfl
  have hsend : (w.hold (held ++ [m₁])).step (.send t held.length (.send e)) =
      some ((w.setPc t { th with pc := .sendDup m }).hold held) := by
    simp only [step, hold, ht, List.getElem?_concat_length, Option.bind_eq_bind, Option.bind_some,
      hidle, if_true, List.eraseIdx_append_of_length_le (le_refl held.length), Nat.sub_self,
      List.eraseIdx_cons_zero, List.append_nil]
    rfl
  exact ⟨_, _, m, hset, hsend, List.getElem?_set_self hlt, rfl, rfl⟩

end World

namespace Values

/-- **`sendsynctype` and `sendclonetype`** move their value into the next cell and send a message
over it. -/
theorem sendtype_sends {x : Values} {t : ℕ} {th : Thread} (ht : x.world.threads[t]? = some th)
    (hidle : th.pc = .idle) (e : EpId) {junk : ℕ → UInt8} {ty : TypeId} {bytes : List UInt8}
    {acts : List Act} (hacts : acts = x.world.sendsynctype t e junk ty bytes ∨
      acts = x.world.sendclonetype t e junk ty bytes) :
    ∃ x' m, run step x (acts.map .act) = some x' ∧
      x'.moved = x.moved ++ [⟨ty, x.world.net.store.nbuf, bytes⟩] ∧
      x'.world.threads[t]? = some { th with pc := .sendDup m } ∧ m.origin = ⟨t, th.sent⟩ ∧
      m.isRaw = false ∧ m.buf = x.world.net.store.nbuf := by
  obtain ⟨new, w, m₀, rfl, hnew, hmoved, hthreads, hheld, hraw, hbuf⟩ : ∃ new w m₀,
      acts = x.world.sendtype t e new ∧ x.world.step (.user new) = some w ∧
      x.world.movedBy (.user new) = [⟨ty, x.world.net.store.nbuf, bytes⟩] ∧
      w.threads = x.world.threads ∧ w.held = x.world.held ++ [m₀] ∧ m₀.isRaw = false ∧
      m₀.buf = x.world.net.store.nbuf := by
    rcases hacts with rfl | rfl
    · exact ⟨.newSync junk ty bytes, _, _, rfl, rfl, rfl, rfl, rfl, rfl, rfl⟩
    · exact ⟨.newClone junk ty bytes, _, _, rfl, rfl, rfl, rfl, rfl, rfl, rfl⟩
  rw [← hthreads] at ht
  obtain ⟨w₁, w', m, hset, hsend, hth, hpayload, horigin⟩ := World.send_made ht hidle e hheld
  have hrun : run step x ((x.world.sendtype t e new).map .act) =
      some { x with world := w', moved := x.moved ++ x.world.movedBy (.user new) ++ [] ++ [] } := by
    refine run_cons_eq_some.mpr ⟨_, Option.map_eq_some_iff.mpr ⟨w, hnew, rfl⟩, ?_⟩
    refine run_cons_eq_some.mpr ⟨_, Option.map_eq_some_iff.mpr ⟨w₁, hset, rfl⟩, ?_⟩
    exact run_cons_eq_some.mpr ⟨_, Option.map_eq_some_iff.mpr ⟨w', hsend, rfl⟩, rfl⟩
  refine ⟨_, m, hrun, ?_, hth, horigin, ?_, ?_⟩
  · rw [List.append_nil, List.append_nil, hmoved]
  · rw [Message.isRaw, hpayload]
    exact hraw
  · rw [Message.buf, hpayload]
    exact hbuf

/-! ### The value in a cell, along a run -/

/-- The step writes nothing to the cell `c`. -/
def intact (c : ℕ) (x : Values) : ValueAct → Bool
  | .act a => x.world.intact c a
  | .typeunwrap .. => true

/-- A step with the values is a step of the world; `typeunwrap` drops its message. -/
theorem step_world {x x' : Values} {a : ValueAct} (h : x.step a = some x') :
    ∃ b, x.world.step b = some x'.world ∧ x'.moved = x.moved ++ x.world.movedBy b ∧
      ∀ c, x.intact c a = true → x.world.intact c b = true := by
  cases a with
  | act b =>
    obtain ⟨w', hw, rfl⟩ := Option.map_eq_some_iff.mp h
    exact ⟨b, hw, rfl, fun _ hc => hc⟩
  | typeunwrap i junk ty size =>
    simp only [step, Option.bind_eq_bind, Option.bind_eq_some_iff, Option.some.injEq] at h
    obtain ⟨m, hm, bytes, hbytes, rfl⟩ := h
    exact ⟨.user (.drop i), rfl, (List.append_nil _).symm, fun _ _ => rfl⟩

/-- **The value in the cell `c`**, and what the messages over the cells are. -/
structure Stored (c : ℕ) (x : Values) : Prop where
  good : x.world.Good
  sourced : Sourced { x with handed := [] }
  distinct : (x.moved.map Value.cell).Nodup
  sent : ∀ id m content, .sent id m content ∈ x.world.trace → Over (x.moved.map Value.key) m
  bytes : ∀ v ∈ x.moved, v.cell = c → ∃ junk,
    SameBytes (x.world.net.store.buf c) (Message.typedBuf junk v.bytes)

theorem stored_start {w : World} (h : World.Init w) (c : ℕ) : (start w).Stored c where
  good := World.good_init h
  sourced := sourced_start h
  distinct := List.nodup_nil
  sent id m content hsent := by
    rw [start, h.trace] at hsent
    cases hsent
  bytes v hv := by cases hv

/-- A value that is moved in gets the next cell, with its bytes. -/
theorem bytes_of_movedBy {w w' : World} {a : Act} (h : w.step a = some w') {v : Value}
    (hv : v ∈ w.movedBy a) : v.cell = w.net.store.nbuf ∧
      ∃ junk, w'.net.store.buf v.cell = Message.typedBuf junk v.bytes := by
  unfold World.movedBy at hv
  split at hv
  next junk ty t =>
    cases h
    obtain rfl := List.mem_singleton.mp hv
    exact ⟨rfl, junk, Store.newBuf_buf_self _ _⟩
  next junk ty t =>
    cases h
    obtain rfl := List.mem_singleton.mp hv
    exact ⟨rfl, junk, Store.newBuf_buf_self _ _⟩
  next => cases hv

/-- At most one value is moved in at a time. -/
theorem movedBy_nodup (w : World) (a : Act) : ((w.movedBy a).map Value.cell).Nodup := by
  unfold World.movedBy
  split
  · exact List.nodup_singleton _
  · exact List.nodup_singleton _
  · exact List.nodup_nil

theorem stored_step {c : ℕ} {x x' : Values} {a : ValueAct} (hi : x.Stored c)
    (hintact : x.intact c a = true) (h : x.step a = some x') : x'.Stored c := by
  obtain ⟨b, hb, hmoved, hkeeps⟩ := step_world h
  have htrans := World.step_trans hb
  have hsourced := sourced_act hi.sourced hb
  have hover : ∀ m, Over (x.moved.map Value.key) m → Over (x'.moved.map Value.key) m := by
    intro m hm k hk
    rw [hmoved, List.map_append]
    exact List.mem_append_left _ (hm k hk)
  refine ⟨World.good_trans htrans hi.good, ?_, ?_, fun id m content hsent => ?_, fun v hv hc => ?_⟩
  · rw [hmoved]
    exact hsourced
  · rw [hmoved, List.map_append, List.nodup_append]
    refine ⟨hi.distinct, movedBy_nodup _ _, fun k hk k' hk' => ?_⟩
    obtain ⟨v, hv, rfl⟩ := List.mem_map.mp hk
    obtain ⟨v', hv', rfl⟩ := List.mem_map.mp hk'
    have hlt : v.cell < x.world.net.store.nbuf := hi.sourced.bound v hv
    rw [(bytes_of_movedBy hb hv').1]
    exact Nat.ne_of_lt hlt
  · rcases World.sent_trans htrans hsent with hold | ⟨th, hth, hpend⟩
    · exact hover m (hi.sent id m content hold)
    · exact hover m (hi.sourced.typed.threads th hth m (List.mem_append_left _ hpend))
  · rw [hmoved] at hv
    rcases List.mem_append.mp hv with hold | hnew
    · have hlt : v.cell < x.world.net.store.nbuf := hi.sourced.bound v hold
      obtain ⟨junk, hbytes⟩ := hi.bytes v hold hc
      have hsame := World.sameBytes_step hb (hc ▸ hlt) (hkeeps c hintact)
      exact ⟨junk, hsame.trans hbytes⟩
    · obtain ⟨-, junk, hbuf⟩ := bytes_of_movedBy hb hnew
      rw [hc] at hbuf
      exact ⟨junk, hbuf ▸ SameBytes.refl _⟩

/-- A message over the cell of a value has the value's type. -/
theorem Stored.typed {c : ℕ} {x : Values} (h : x.Stored c) {v : Value} (hv : v ∈ x.moved)
    {id : SendId} {m : Message} {content : RawMessage.Internal}
    (hsent : .sent id m content ∈ x.world.trace) (hraw : m.isRaw = false) (hbuf : m.buf = v.cell) :
    m.typed = some v.key := by
  obtain ⟨ty, hty⟩ := Message.typed_of_not_raw hraw
  obtain ⟨v', hv', hkey⟩ := List.mem_map.mp (h.sent id m content hsent _ hty)
  have hcell : v'.cell = v.cell := (congrArg Prod.snd hkey).trans hbuf
  obtain rfl : v' = v := List.inj_on_of_nodup_map h.distinct hv' hv hcell
  rw [hty, ← hkey]

/-- What a `recv` returns of a send that was not of a raw message is what was sent. -/
theorem Stored.returned_eq {c : ℕ} {x : Values} (h : x.Stored c) {m : Message}
    {content : RawMessage.Internal} (hraw : m.isRaw = false) {e : EpId} {rid : RecvId}
    {copy msg : Message} {content' : RawMessage.Internal}
    (hret : .returned e rid copy msg content' ∈ x.world.trace)
    (hsent : .sent msg.origin m content ∈ x.world.trace) : msg = m := by
  obtain ⟨-, m₀, content₀, ⟨hs, hr, hsame⟩, -⟩ :=
    h.good.handedOut.content e rid copy msg content' hret
  obtain ⟨rfl, rfl⟩ := h.good.order.sent_unique hs hsent
  exact (hsame (hr ▸ hraw)).symm

/-- **Typed messages round-trip.**  Let a value `t` of the type `T` be moved into a clone or sync
message, and a message over its cell be sent, among any other traffic.  In every state of a run in
which nobody writes to the cell, a message that a `recv` returned of that send is of the type `T` and
of no other, it unwraps to `t` at `T`, and `typeunwrap` panics at every other type. -/
theorem typed_round_trip (P : Types) {w₀ : World} (hinit : World.Init w₀) {acts : List ValueAct}
    {x : Values} (hrun : run step (start w₀) acts = some x) {T : P.Ty} {t : P.Val T} {c : ℕ}
    (hmoved : ⟨P.tyid T, c, toBytes t⟩ ∈ x.moved)
    (hintact : StepsMeet step (fun x a => x.intact c a = true) (start w₀) acts) {id : SendId}
    {m : Message} {content : RawMessage.Internal} (hsent : .sent id m content ∈ x.world.trace)
    (hraw : m.isRaw = false) (hbuf : m.buf = c) {e : EpId} {rid : RecvId} {copy msg : Message}
    {content' : RawMessage.Internal} (hret : .returned e rid copy msg content' ∈ x.world.trace)
    (hid : msg.origin = id) (junk : ℕ → UInt8) :
    (∀ U, msg.isTypeOf P U = true ↔ U = T) ∧
    msg.typeunwrapOf junk x.world.net.store P T = some t ∧
    ∀ U, U ≠ T → msg.typeunwrapOf junk x.world.net.store P U = none := by
  have hstored : x.Stored c :=
    run_invariant_of (fun _ _ _ hi hc h => stored_step hi hc h) hintact hrun (stored_start hinit c)
  obtain rfl : msg = m := hstored.returned_eq hraw hret (hid ▸ hsent)
  have htyped : msg.typed = some (P.tyid T, c) := hstored.typed hmoved hsent hraw hbuf
  obtain ⟨junk₀, hbytes⟩ := hstored.bytes _ hmoved rfl
  exact ⟨Message.isTypeOf_iff htyped, Message.typeunwrapOf_eq htyped hbytes junk,
    fun U hU => Message.typeunwrapOf_of_ne htyped junk _ hU⟩

/-- A word and a type without bytes. -/
def wordOrUnit : Types where
  Ty := Bool
  Val T := match T with
    | true => UInt16
    | false => Unit
  fixed T := match T with
    | true => inferInstanceAs (FixedSize UInt16)
    | false => ⟨0, fun _ => [], fun _ => rfl, fun _ => (), fun _ => rfl⟩
  size_lt T := by cases T <;> decide
  tyid T := if T then 16 else 5
  tyid_injective T U h := by cases T <;> cases U <;> first | rfl | exact absurd h (by decide)

/-- The thread 0 sends a value without bytes in a clone message and a word in a sync message, and
the thread 1 receives both. -/
def typedScript : List ValueAct :=
  let acts : List Act :=
    World.pair.sendclonetype 0 0 (fun _ => 7) 5 [] ++ List.replicate 7 (Act.step 0) ++
      World.pair.sendsynctype 0 0 (fun _ => 7) 16 [1, 2] ++ List.replicate 7 (Act.step 0) ++
      [Act.recv 1 1] ++ List.replicate 4 (Act.step 1) ++ [Act.recv 1 1] ++ List.replicate 4 (Act.step 1)
  acts.map .act

/-- The clone message of that run. -/
def unitMsg : Message :=
  { srcsid := 100, srceid := 0x10000, dstsid := 1, dsteid := 0, canloop := false
    payload := .clone ⟨5, ⟨0⟩⟩ }

theorem typed_round_trip_unit :
    ∃ x, run step (start World.pair) typedScript = some x ∧
      unitMsg.typeunwrapOf (fun _ => 0) x.world.net.store wordOrUnit false = some () ∧
      unitMsg.typeunwrapOf (fun _ => 0) x.world.net.store wordOrUnit true = none := by
  have hrun : (run step (start World.pair) typedScript).map
      (fun x => (x.moved, x.world.trace[0]?, x.world.trace[5]?)) =
        some ([⟨5, 0, []⟩, ⟨16, 1, [1, 2]⟩], some (.sent ⟨0, 0⟩ unitMsg ⟨1, 1, [7]⟩),
          some (.returned 1 ⟨1, 0⟩ unitMsg unitMsg ⟨1, 1, [7]⟩)) := by
    decide +kernel
  obtain ⟨x, hx, hview⟩ := Option.map_eq_some_iff.mp hrun
  simp only [Prod.mk.injEq] at hview
  obtain ⟨hmoved, hsent, hret⟩ := hview
  have hvalue : ⟨wordOrUnit.tyid false, 0, (wordOrUnit.fixed false).toBytes ()⟩ ∈ x.moved := by
    rw [hmoved]
    exact List.mem_cons_self
  obtain ⟨-, hunwrap, hother⟩ := typed_round_trip wordOrUnit World.pair_init hx hvalue
    (by decide +kernel) (List.mem_of_getElem? hsent) rfl rfl (List.mem_of_getElem? hret) rfl
    (fun _ => 0)
  exact ⟨x, hx, hunwrap, hother true (by intro h; cases h)⟩

end Values

end Traffic

end WaterNet
