import WaterNet.Lib.Machine
import WaterNet.Receive

/-!
# The memory limit of an endpoint, over whole runs (`endpoint.rs`)

One endpoint, from `Endpoint::new` on, under calls run one at a time: `give` and `recv`, the
setters, and what goes on around it (new buffers, sync messages taken elsewhere).

* `Counted`, `step_counted` — **the counter invariant**: `memoryused` is the capacity of what is
  queued, modulo the word size;
* `capSum_le_iff` — when the limit set by `setlimitmemory` bounds what is queued: `give` compares
  the counter before the message with the limit, so exactly when every message it lets in fits.
-/

namespace WaterNet

open Lib.Machine (run StepsMeet run_invariant run_all_iff)

namespace Endpoint.Internal

/-- `Endpoint::setlimitmemory`. -/
def setlimitmemory (ep : Internal) (limit : UInt64) : Internal := { ep with limitmemory := limit }

/-- `Endpoint::setlimitpending`. -/
def setlimitpending (ep : Internal) (limit : UInt64) : Internal := { ep with limitpending := limit }

end Endpoint.Internal

namespace Limits

open Endpoint (Internal AddressData)
open Endpoint.Internal (RecvSpec recv_spec)

/-- An endpoint and the cells its messages point to. -/
structure State where
  ep : Internal
  store : Store

inductive Act where
  /-- a `give` of a message that exists -/
  | give (m : Message)
  | recv
  | setlimitpending (limit : UInt64)
  | setlimitmemory (limit : UInt64)
  /-- `setsid`, `seteid` and `setgid` -/
  | setAddress (address : AddressData)
  /-- a message of any capacity is made -/
  | newBuf (i : RawMessage.Internal)
  /-- another endpoint takes a sync message -/
  | takeElsewhere (s : SyncMessage)

namespace State

def start (sid eid : ID) (st : Store) : State := ⟨Endpoint.new sid eid, st⟩

def step (netsid : ID) (s : State) : Act → Option State
  | .give m =>
    if m.buf < s.store.nbuf then
      (s.ep.give netsid s.store m).map fun r => { s with ep := r.2 }
    else none
  | .recv =>
    let (_, ep, st) := s.ep.recv s.store
    some ⟨ep, st⟩
  | .setlimitpending limit => some { s with ep := s.ep.setlimitpending limit }
  | .setlimitmemory limit => some { s with ep := s.ep.setlimitmemory limit }
  | .setAddress address => some { s with ep := { s.ep with address := address } }
  | .newBuf i => some { s with store := (s.store.newBuf i).2 }
  | .takeElsewhere m => some { s with store := (s.store.takeasvalid m).2 }

/-- The total capacity of the messages in the queue. -/
def queued (s : State) : ℕ := capSum s.store s.ep.messages

/-! ### The counter -/

structure Counted (s : State) : Prop where
  cells : ∀ m ∈ s.ep.messages, m.buf < s.store.nbuf
  memory : s.ep.memoryused = UInt64.ofNat s.queued

theorem start_counted (sid eid : ID) (st : Store) : (start sid eid st).Counted :=
  ⟨fun _ h => absurd h List.not_mem_nil, rfl⟩

/-- Whether `give` lets the message in. -/
def Admits (netsid : ID) (s : State) (m : Message) : Prop :=
  s.ep.routes netsid m = true ∧ s.ep.underLimits = true

instance (netsid : ID) (s : State) (m : Message) : Decidable (s.Admits netsid m) := by
  unfold Admits
  infer_instance

/-- What a `give` makes of the endpoint. -/
theorem step_give {netsid : ID} {s s' : State} {m : Message}
    (h : s.step netsid (.give m) = some s') :
    m.buf < s.store.nbuf ∧
    ((s.Admits netsid m ∧
        s' = { s with ep := (s.ep.putMsg m).fetchAdd (m.cap s.store) }) ∨
      (¬s.Admits netsid m ∧ s' = s)) := by
  rw [step, Internal.give_eq] at h
  by_cases hcell : m.buf < s.store.nbuf
  · rw [if_pos hcell, Option.map_some, Option.some.injEq] at h
    refine ⟨hcell, ?_⟩
    by_cases hadm : s.Admits netsid m
    · rw [hadm.1, hadm.2] at h
      exact Or.inl ⟨hadm, h.symm⟩
    · have hno : ¬(s.ep.routes netsid m && s.ep.underLimits) = true := by
        rw [Bool.and_eq_true]
        exact hadm
      rw [if_neg hno] at h
      exact Or.inr ⟨hadm, h.symm⟩
  · rw [if_neg hcell] at h
    cases h

theorem queued_putMsg (s : State) (m : Message) :
    queued { s with ep := (s.ep.putMsg m).fetchAdd (m.cap s.store) } =
      s.queued + (m.cap s.store).toNat := by
  show capSum s.store (s.ep.messages ++ [m]) = _
  rw [capSum_append, capSum_cons, capSum_nil, Nat.add_zero]
  rfl

/-- What a `recv` leaves in the queue was there before, in the same cells. -/
theorem recv_spec_kept {ep ep' : Internal} {st st' : Store} {res : IoResult Message}
    (h : RecvSpec ep st res ep' st') :
    (∃ pre, ep.messages = pre ++ ep'.messages) ∧ st.nbuf ≤ st'.nbuf ∧
      ∀ b, b < st.nbuf → st'.buf b = st.buf b := by
  have hsplit : ep.messages = ep.messages.takeWhile (Message.isTaken st) ++
      ep.messages.dropWhile (Message.isTaken st) := List.takeWhile_append_dropWhile.symm
  have hres := h.result
  cases hdrop : ep.messages.dropWhile (Message.isTaken st) with
  | nil =>
    rw [hdrop] at hres
    obtain ⟨-, hq, rfl⟩ := hres
    exact ⟨⟨ep.messages, by rw [hq, List.append_nil]⟩, le_rfl, fun _ _ => rfl⟩
  | cons m rest =>
    rw [hdrop] at hres hsplit
    obtain ⟨msg, -, hret, rfl⟩ := hres
    exact ⟨⟨_, hsplit.trans (List.append_cons _ m _)⟩, hret.grown, hret.kept⟩

/-- What one `recv` does to what is queued. -/
theorem recv_queued {s : State} (hs : s.Counted) :
    let r := s.ep.recv s.store
    Counted ⟨r.2.1, r.2.2⟩ ∧ queued ⟨r.2.1, r.2.2⟩ ≤ s.queued ∧
      r.2.1.limitmemory = s.ep.limitmemory := by
  intro r
  have hspec := (recv_spec s.ep s.store hs.cells hs.memory).2
  obtain ⟨⟨pre, hpre⟩, hgrown, hkept⟩ := recv_spec_kept hspec
  have hcells : ∀ m ∈ r.2.1.messages, m.buf < s.store.nbuf := fun m hm =>
    hs.cells m (hpre ▸ List.mem_append_right pre hm)
  refine ⟨⟨fun m hm => (hcells m hm).trans_le hgrown, hspec.memory⟩, ?_,
    hspec.settings.limitmemory⟩
  have hsame : capSum r.2.2 r.2.1.messages = capSum s.store r.2.1.messages :=
    capSum_congr fun m hm => hkept m.buf (hcells m hm)
  calc capSum r.2.2 r.2.1.messages = capSum s.store r.2.1.messages := hsame
    _ ≤ capSum s.store pre + capSum s.store r.2.1.messages := Nat.le_add_left _ _
    _ = s.queued := by rw [← capSum_append, ← hpre]; rfl

/-- A change of the cells that keeps those of the queue. -/
theorem Counted.of_store {s : State} (hs : s.Counted) {st : Store} (hgrown : s.store.nbuf ≤ st.nbuf)
    (hkept : ∀ b, b < s.store.nbuf → st.buf b = s.store.buf b) :
    Counted ⟨s.ep, st⟩ ∧ queued ⟨s.ep, st⟩ = s.queued := by
  have hsame : queued ⟨s.ep, st⟩ = s.queued :=
    capSum_congr fun m hm => hkept m.buf (hs.cells m hm)
  refine ⟨⟨fun m hm => (hs.cells m hm).trans_le hgrown, ?_⟩, hsame⟩
  rw [hsame]
  exact hs.memory

theorem takeasvalid_cells (st : Store) (s : SyncMessage) :
    (st.takeasvalid s).2.nbuf = st.nbuf ∧ (st.takeasvalid s).2.buf = st.buf := by
  unfold Store.takeasvalid
  split <;> exact ⟨rfl, rfl⟩

/-- Of all calls, only a `give` that lets a message in makes the queue larger, and only
`setlimitmemory` changes the limit. -/
theorem step_other {netsid : ID} {s s' : State} {a : Act} (hs : s.Counted)
    (h : s.step netsid a = some s') (ha : ∀ m, a ≠ .give m) :
    s'.Counted ∧ s'.queued ≤ s.queued ∧
      ((∀ limit, a ≠ .setlimitmemory limit) → s'.ep.limitmemory = s.ep.limitmemory) := by
  cases a with
  | give m => exact absurd rfl (ha m)
  | recv =>
    cases h
    obtain ⟨hcounted, hle, hlimit⟩ := recv_queued hs
    exact ⟨hcounted, hle, fun _ => hlimit⟩
  | setlimitpending limit =>
    cases h
    exact ⟨⟨hs.cells, hs.memory⟩, le_rfl, fun _ => rfl⟩
  | setlimitmemory limit =>
    cases h
    exact ⟨⟨hs.cells, hs.memory⟩, le_rfl, fun hne => absurd rfl (hne limit)⟩
  | setAddress address =>
    cases h
    exact ⟨⟨hs.cells, hs.memory⟩, le_rfl, fun _ => rfl⟩
  | newBuf i =>
    cases h
    obtain ⟨hcounted, hsame⟩ := hs.of_store (Nat.le_succ _)
      fun b hb => Store.newBuf_buf_of_lt s.store i hb
    exact ⟨hcounted, hsame.le, fun _ => rfl⟩
  | takeElsewhere m =>
    cases h
    obtain ⟨hnbuf, hbuf⟩ := takeasvalid_cells s.store m
    obtain ⟨hcounted, hsame⟩ := hs.of_store hnbuf.ge fun b _ => congrFun hbuf b
    exact ⟨hcounted, hsame.le, fun _ => rfl⟩

/-- **The counter invariant.** -/
theorem step_counted {netsid : ID} {s s' : State} {a : Act} (hs : s.Counted)
    (h : s.step netsid a = some s') : s'.Counted := by
  by_cases hgive : ∃ m, a = .give m
  · obtain ⟨m, rfl⟩ := hgive
    obtain ⟨hcell, ⟨-, rfl⟩ | ⟨-, rfl⟩⟩ := step_give h
    · refine ⟨fun x hx => ?_, ?_⟩
      · rcases List.mem_append.mp hx with hx | hx
        · exact hs.cells x hx
        · rw [List.mem_singleton.mp hx]
          exact hcell
      · have hcap : UInt64.ofNat (m.cap s.store).toNat = m.cap s.store := UInt64.ofNat_toNat
        rw [queued_putMsg, UInt64.ofNat_add, hcap, ← hs.memory]
        rfl
    · exact hs
  · exact (step_other hs h fun m hm => hgive ⟨m, hm⟩).1

/-! ### The limit -/

/-- A message that `give` lets in fits: what the counter says and the message are together within
the limit. -/
def Fits (netsid : ID) (s : State) : Act → Prop
  | .give m => s.Admits netsid m →
      s.ep.memoryused.toNat + (m.cap s.store).toNat ≤ s.ep.limitmemory.toNat
  | _ => True

instance (netsid : ID) (s : State) : (a : Act) → Decidable (s.Fits netsid a)
  | .give m => inferInstanceAs (Decidable (s.Admits netsid m → _))
  | .recv | .setlimitpending _ | .setlimitmemory _ | .setAddress _ | .newBuf _ | .takeElsewhere _ =>
    isTrue trivial

/-- The invariant of a run that stays within the limit. -/
structure Within (limit : UInt64) (s : State) : Prop where
  counted : s.Counted
  limitmemory : s.ep.limitmemory = limit
  le : s.queued ≤ limit.toNat

/-- Within the limit the counter does not wrap. -/
theorem Within.memoryused {limit : UInt64} {s : State} (h : s.Within limit) :
    s.ep.memoryused.toNat = s.queued := by
  rw [h.counted.memory, UInt64.toNat_ofNat', Nat.mod_eq_of_lt (h.le.trans_lt limit.toNat_lt)]

theorem Within.step {netsid : ID} {limit : UInt64} {s s' : State} {a : Act} (hs : s.Within limit)
    (hset : ∀ l, a ≠ .setlimitmemory l) (hfits : s.Fits netsid a)
    (h : s.step netsid a = some s') : s'.Within limit := by
  have hcounted := step_counted hs.counted h
  by_cases hgive : ∃ m, a = .give m
  · obtain ⟨m, rfl⟩ := hgive
    obtain ⟨-, ⟨hadm, rfl⟩ | ⟨-, rfl⟩⟩ := step_give h
    · refine ⟨hcounted, hs.limitmemory, ?_⟩
      rw [queued_putMsg, ← hs.memoryused, ← hs.limitmemory]
      exact hfits hadm
    · exact hs
  · have hother := step_other hs.counted h fun m hm => hgive ⟨m, hm⟩
    exact ⟨hcounted, (hother.2.2 hset).trans hs.limitmemory, hother.2.1.trans hs.le⟩

/-- A message that does not fit and is let in breaks the limit at once. -/
theorem Within.exceeds {netsid : ID} {limit : UInt64} {s s' : State} {a : Act}
    (hs : s.Within limit) (hnot : ¬s.Fits netsid a) (h : s.step netsid a = some s') :
    ¬s'.queued ≤ limit.toNat := by
  cases a with
  | give m =>
    obtain ⟨hadm, hlarge⟩ := Classical.not_imp.mp hnot
    obtain ⟨-, ⟨-, rfl⟩ | ⟨hno, -⟩⟩ := step_give h
    · rw [queued_putMsg, ← hs.memoryused, ← hs.limitmemory]
      exact hlarge
    · exact absurd hadm hno
  | recv => exact absurd trivial hnot
  | setlimitpending limit => exact absurd trivial hnot
  | setlimitmemory limit => exact absurd trivial hnot
  | setAddress address => exact absurd trivial hnot
  | newBuf i => exact absurd trivial hnot
  | takeElsewhere m => exact absurd trivial hnot

/-- **When the memory limit is a limit.**  Take an endpoint at any point of its life with an empty
queue, set the limit, and let any calls follow that leave the limit alone: the messages in the queue
are within the limit all along exactly if every message that `give` lets in fits. -/
theorem capSum_le_iff (netsid sid eid : ID) (st : Store) (limit : UInt64) {before as : List Act}
    {s t : State} (hbefore : run (step netsid) (start sid eid st) before = some s)
    (hempty : s.ep.messages = []) (hset : ∀ a ∈ as, ∀ l, a ≠ .setlimitmemory l)
    (hrun : run (step netsid) { s with ep := s.ep.setlimitmemory limit } as = some t) :
    (∀ pre post u, as = pre ++ post →
      run (step netsid) { s with ep := s.ep.setlimitmemory limit } pre = some u →
        u.queued ≤ limit.toNat) ↔
    StepsMeet (step netsid) (Fits netsid) { s with ep := s.ep.setlimitmemory limit } as := by
  have hcounted : s.Counted := run_invariant (fun _ _ _ h h' => step_counted h h') hbefore
    (start_counted sid eid st)
  have hwithin : Within limit { s with ep := s.ep.setlimitmemory limit } := by
    refine ⟨⟨hcounted.cells, hcounted.memory⟩, rfl, ?_⟩
    show capSum s.store s.ep.messages ≤ limit.toNat
    rw [hempty]
    exact Nat.zero_le _
  exact run_all_iff (fun u h => h.le) (fun u a u' h hset hfits => h.step hset hfits)
    (fun u a u' h _ hnot => h.exceeds hnot) (StepsMeet.of_forall hset _) hrun hwithin

/-- One buffer of ten bytes. -/
def tenBytes : Store := { Store.empty with buf := fun _ => ⟨10, 10, List.replicate 10 7⟩, nbuf := 1 }

/-- Two messages of ten bytes each, a `recv`, and a third one. -/
def fittingActs : List Act :=
  [.give (.newFromraw ⟨0⟩), .give (.newFromraw ⟨0⟩), .recv, .give (.newFromraw ⟨0⟩)]

/-- A limit of 25 bytes holds along this run. -/
theorem capSum_le_iff_fitting :
    ∃ t, run (step 100) ⟨(Endpoint.new 100 0x10000).setlimitmemory 25, tenBytes⟩ fittingActs = some t ∧
      ∀ pre post u, fittingActs = pre ++ post →
        run (step 100) ⟨(Endpoint.new 100 0x10000).setlimitmemory 25, tenBytes⟩ pre = some u →
          u.queued ≤ 25 := by
  obtain ⟨t, ht⟩ : ∃ t, run (step 100)
      ⟨(Endpoint.new 100 0x10000).setlimitmemory 25, tenBytes⟩ fittingActs = some t :=
    Option.isSome_iff_exists.mp (by decide +kernel)
  exact ⟨t, ht, (capSum_le_iff 100 100 0x10000 tenBytes 25 (Lib.Machine.run_nil (step 100) _) rfl
    (by simp [fittingActs]) ht).mpr (by decide +kernel)⟩

/-- **The limit is no limit**: with a limit of one byte, a message of ten bytes is let in. -/
theorem not_capSum_le : ¬∀ (netsid sid eid : ID) (st : Store) (limit : UInt64) (as : List Act)
    (t : State), limit > 0 → (∀ a ∈ as, a = .recv ∨ ∃ m, a = .give m) →
    run (step netsid) { start sid eid st with ep := (start sid eid st).ep.setlimitmemory limit } as =
      some t → t.queued ≤ limit.toNat := by
  intro h
  have hten := h 100 100 0x10000 tenBytes 1 [.give (.newFromraw ⟨0⟩)] _ (by decide)
    (by simp) rfl
  exact absurd hten (by decide)

end State

end Limits

end WaterNet
