import WaterNet.Lib.Ledger
import WaterNet.Traffic.Delivery

/-!
# The memory counter of an endpoint

`give` puts a message and then adds its capacity to `memoryused`, under `waitmutex`; `recv` takes a
message out and then subtracts.  `Endpoint::recv` does not take `waitmutex`, so it can subtract a
message before the `give` that put it has added it.  The machine of this module carries, beside
the world, the counter of each endpoint as an integer that does not wrap.

* `World.paid` — the step is not a `recv` subtracting what its `give` still owes;
* `counter_run` — in every run `memoryused` is the integer counter modulo `2 ^ 64`;
* `never_negative` — **in every run of such steps the counter is never negative**, and a `give`
  refused by `limitmemory` is refused by an honest count;
* `not_never_negative` — a run in which a `recv` overtakes a `give`: the counter is `-1`, and a
  third message is refused by an endpoint whose queue is empty.
-/

namespace WaterNet.Traffic

open WaterNet.Lib.Machine (run StepsMeet run_invariant run_invariant_of)
open WaterNet.Lib.Ledger (Stage Books)
open WaterNet.Lib.Pool (total)

/-! ### The machine with its counters -/

/-- A call that changes the capacity of a buffer. -/
def Act.resizes : Act → Bool
  | .user (.write _ (.resize _ _)) => true
  | _ => false

/-- What the next step of a thread adds to the counter of `e`. -/
def Pc.charge (st : Store) (e : EpId) : Pc → ℤ
  | .adding m e' _ _ => if e' = e then (m.cap st).toNat else 0
  | .recvSub e' _ msg => if e' = e then -(msg.cap st).toNat else 0
  | _ => 0

/-- What an action adds to the counter of `e`. -/
def World.charge (w : World) (e : EpId) : Act → ℤ
  | .step t =>
    match w.threads[t]? with
    | some th => th.pc.charge w.net.store e
    | none => 0
  | _ => 0

/-- A world and, beside the counter of each endpoint, its value as an integer. -/
structure Metered where
  world : World
  meter : EpId → ℤ

namespace Metered

def step (x : Metered) (a : Act) : Option Metered :=
  (x.world.step a).map fun w' => ⟨w', fun e => x.meter e + x.world.charge e a⟩

/-- All counters at zero. -/
def start (w : World) : Metered := ⟨w, fun _ => 0⟩

end Metered

/-- Whether the thread has put `m` into the queue of `e` and not yet added its capacity. -/
def Pc.isAdding (e : EpId) (m : Message) : Pc → Bool
  | .adding m' e' _ _ => e' = e && m' = m
  | _ => false

/-- The step is not the subtraction of a message whose `give` has not added it yet. -/
def World.paid (w : World) : Act → Bool
  | .step t =>
    match w.threads[t]? with
    | some ⟨.recvSub e copy _, _, _⟩ => !w.threads.any fun th => th.pc.isAdding e copy
    | _ => true
  | _ => true

/-! ### Capacities -/

/-- Nothing is freed and no capacity changes. -/
structure CapsKept (st st' : Store) : Prop where
  nbuf : st.nbuf ≤ st'.nbuf
  cap : ∀ b < st.nbuf, (st'.buf b).cap = (st.buf b).cap

theorem CapsKept.refl (st : Store) : CapsKept st st := ⟨le_rfl, fun _ _ => rfl⟩

theorem CapsKept.newBuf (st : Store) (i : RawMessage.Internal) : CapsKept st (st.newBuf i).2 :=
  ⟨Nat.le_succ _, fun _ hb => by rw [Store.newBuf_buf_of_lt st i hb]⟩

theorem CapsKept.cap_eq {st st' : Store} (h : CapsKept st st') {m : Message} (hm : m.buf < st.nbuf) :
    m.cap st' = m.cap st := by
  rw [m.cap_eq, m.cap_eq, h.cap _ hm]

theorem capsKept_dupIfok (m : Message) (st : Store) : CapsKept st (m.dupIfok st).2 := by
  by_cases hraw : m.isRaw = true
  · rw [Message.dupIfok_raw hraw]
    exact CapsKept.newBuf st _
  · rw [Message.dupIfok_of_not_raw (Bool.eq_false_iff.mpr hraw)]
    exact CapsKept.refl st

theorem capsKept_copied (net : Net) (m : Message) :
    CapsKept net.store (net.copied m).2.store := by
  unfold Net.copied
  split
  · exact CapsKept.newBuf net.store _
  · exact CapsKept.refl net.store

/-- What `recv` makes of a queue entry has its capacity. -/
theorem dupIfok_cap (m : Message) (st : Store) : (m.dupIfok st).1.cap (m.dupIfok st).2 = m.cap st := by
  by_cases hraw : m.isRaw = true
  · rw [Message.dupIfok_raw hraw, m.cap_eq, Message.cap_eq, Message.onFresh_buf,
      Store.newBuf_buf_self, RawMessage.Internal.dup_cap]
  · rw [Message.dupIfok_of_not_raw (Bool.eq_false_iff.mpr hraw)]

/-- No call but `resize` changes a capacity. -/
theorem rawOp_cap {i i' : RawMessage.Internal} {op : RawMessage.RawOp} (h : op.apply i = some i')
    (hop : ∀ junk cap, op ≠ .resize junk cap) : i'.cap = i.cap := by
  cases op with
  | resize junk cap => exact absurd rfl (hop junk cap)
  | setlen len | writestruct offset t =>
    simp only [RawMessage.RawOp.apply, RawMessage.Internal.setlen,
      RawMessage.Internal.writestructref] at h
    grind
  | writeFromSlice offset f | setMutslice k b =>
    simp only [RawMessage.RawOp.apply, RawMessage.Internal.writeFromSlice,
      RawMessage.Internal.setMutslice, Option.ite_none_left_eq_some,
      Option.ite_none_right_eq_some, Option.some.injEq] at h
    rw [← h.2]

namespace World

theorem capsKept_user {w w' : World} {op : UserOp} (h : w.userStep op = some w')
    (hop : (Act.user op).resizes = false) : CapsKept w.net.store w'.net.store := by
  cases op with
  | newRaw | newClone =>
    cases h
    exact CapsKept.newBuf w.net.store _
  | newSync junk ty t =>
    cases h
    have hnew := CapsKept.newBuf w.net.store (Message.typedBuf junk t)
    exact ⟨hnew.nbuf, hnew.cap⟩
  | setHeader | fromPayload =>
    simp only [userStep, Option.map_eq_some_iff] at h
    obtain ⟨m, -, rfl⟩ := h
    exact CapsKept.refl w.net.store
  | clone i =>
    simp only [userStep, Option.bind_eq_bind, Option.bind_eq_some_iff] at h
    obtain ⟨m, -, m', -, h⟩ := h
    cases h
    exact CapsKept.refl w.net.store
  | dup i =>
    simp only [userStep, Option.bind_eq_bind, Option.bind_eq_some_iff] at h
    obtain ⟨m, -, ⟨m', st⟩, hdup, h⟩ := h
    cases h
    obtain ⟨-, -, rfl⟩ := Message.dup_eq_some hdup
    exact CapsKept.newBuf w.net.store _
  | write i op =>
    simp only [userStep, Option.bind_eq_bind, Option.bind_eq_some_iff] at h
    obtain ⟨m, -, b, hb, h⟩ := h
    cases h
    have hcap : b.cap = (w.net.store.buf m.buf).cap := by
      refine rawOp_cap hb fun junk cap heq => ?_
      rw [heq] at hop
      cases hop
    refine ⟨le_rfl, fun x _ => ?_⟩
    show ((w.net.store.setBuf ⟨m.buf⟩ b).buf x).cap = _
    by_cases hx : x = m.buf
    · rw [hx, Store.setBuf_buf_self, hcap]
    · rw [Store.setBuf_buf_of_ne _ _ hx]
  | drop | setAddress | setLimits =>
    cases h
    exact CapsKept.refl w.net.store

theorem userStep_counters {w w' : World} {op : UserOp} (h : w.userStep op = some w') :
    w'.waitmutex = w.waitmutex ∧ ∀ e, (w'.net.eps e).memoryused = (w.net.eps e).memoryused := by
  cases op with
  | newRaw | newSync | newClone | drop =>
    cases h
    exact ⟨rfl, fun _ => rfl⟩
  | setHeader | fromPayload =>
    simp only [userStep, Option.map_eq_some_iff] at h
    obtain ⟨m, -, rfl⟩ := h
    exact ⟨rfl, fun _ => rfl⟩
  | clone | dup | write =>
    simp only [userStep, Option.bind_eq_bind, Option.bind_eq_some_iff] at h
    obtain ⟨m, -, b, -, h⟩ := h
    cases h
    exact ⟨rfl, fun _ => rfl⟩
  | setAddress e₀ | setLimits e₀ =>
    cases h
    refine ⟨rfl, fun e => ?_⟩
    by_cases he : e = e₀
    · subst he
      simp
    · simp [Function.update_of_ne he]

/-! ### What a step does to the counters -/

end World

/-- Where a thread is between the queue of `e` and its counter. -/
def Pc.stage (e : EpId) : Pc → Stage Message
  | .adding m e' _ _ => if e' = e then .owes m else .outside
  | .recvDup e' copy | .recvSub e' copy _ => if e' = e then .holds copy else .outside
  | _ => .outside

namespace World

/-- **What one step does to queues and counters.**  Apart from the two steps of `give` and the
three of `recv` that concern them, a step moves a thread that is outside, or none. -/
inductive Effect (w : World) : Act → World → Prop where
  | user {op : UserOp} {w' : World} (h : w.userStep op = some w') : Effect w (.user op) w'
  | quiet {a : Act} {w' : World} {t : ℕ} {th th' : Thread} (ht : w.threads[t]? = some th)
      (hpc : ∀ e, th.pc.stage e = .outside) (hpc' : ∀ e, th'.pc.stage e = .outside)
      (hcharge : ∀ e, w.charge e a = 0) (hthreads : w'.threads = w.threads.set t th')
      (hmutex : w'.waitmutex = w.waitmutex) (heps : w'.net.eps = w.net.eps)
      (hcaps : CapsKept w.net.store w'.net.store) : Effect w a w'
  | put {t : ℕ} {th : Thread} {m : Message} {e : EpId} {todo : List EpId} {ocnt : ℕ}
      (ht : w.threads[t]? = some th) (hpc : th.pc = .putting m e todo ocnt)
      (hfree : w.waitmutex e = false) :
      Effect w (.step t) ((((w.setEp e ((w.net.eps e).putMsg m)).lock e true).setPc t
        { th with pc := .adding m e todo ocnt }).log (.put e m))
  | add {t : ℕ} {th : Thread} {m : Message} {e : EpId} {todo : List EpId} {ocnt : ℕ}
      (ht : w.threads[t]? = some th) (hpc : th.pc = .adding m e todo ocnt) :
      Effect w (.step t) (((w.setEp e ((w.net.eps e).fetchAdd (m.cap w.net.store))).lock e false).setPc
        t { th with pc := .giving m todo (ocnt + 1) })
  | get {t : ℕ} {th : Thread} {e : EpId} {copy : Message} {rest : List Message}
      (ht : w.threads[t]? = some th) (hpc : th.pc = .recvGet e)
      (hq : (w.net.eps e).messages = copy :: rest) :
      Effect w (.step t) (((w.setEp e { w.net.eps e with messages := rest }).setPc t
        { th with pc := .recvDup e copy }).log (.got e ⟨t, th.recvs⟩ copy))
  | dup {t : ℕ} {th : Thread} {e : EpId} {copy : Message} (ht : w.threads[t]? = some th)
      (hpc : th.pc = .recvDup e copy) :
      Effect w (.step t) ((w.setStore (copy.dupIfok w.net.store).2).setPc t
        { th with pc := .recvSub e copy (copy.dupIfok w.net.store).1 })
  | sub {t : ℕ} {th : Thread} {e : EpId} {copy msg : Message} (ht : w.threads[t]? = some th)
      (hpc : th.pc = .recvSub e copy msg) :
      Effect w (.step t) ((w.setEp e ((w.net.eps e).fetchSub (msg.cap w.net.store))).setPc t
        { th with pc := .recvEnd e copy msg })

theorem charge_step {w : World} {t : ℕ} {th : Thread} (ht : w.threads[t]? = some th) (e : EpId) :
    w.charge e (.step t) = th.pc.charge w.net.store e := by
  simp only [charge, ht]

/-- A step that leaves endpoints, mutexes and capacities alone, between two points outside. -/
theorem Effect.move {w w' : World} {t : ℕ} {th th' : Thread} (ht : w.threads[t]? = some th)
    (hpc : ∀ e, th.pc.stage e = .outside ∧ th.pc.charge w.net.store e = 0)
    (hpc' : ∀ e, th'.pc.stage e = .outside) (hthreads : w'.threads = w.threads.set t th')
    (hmutex : w'.waitmutex = w.waitmutex) (heps : w'.net.eps = w.net.eps)
    (hcaps : CapsKept w.net.store w'.net.store) : Effect w (.step t) w' :=
  .quiet ht (fun e => (hpc e).1) hpc' (fun e => by rw [charge_step ht, (hpc e).2]) hthreads hmutex
    heps hcaps

theorem advance_effect {w w' : World} {t : ℕ} {th : Thread} (ht : w.threads[t]? = some th)
    (h : w.advance t th = some w') : Effect w (.step t) w' := by
  cases advance_cases h with
  | sendDup hpc =>
    exact .move ht (fun e => by rw [hpc]; exact ⟨rfl, rfl⟩) (fun e => rfl) rfl rfl rfl
      (capsKept_copied w.net _)
  | sendSnap hpc | sendDone hpc | accept hpc hacc | refuse hpc hacc | recvNone hpc hq
  | discard hpc hs hv | retClone hpc hc =>
    exact .move ht (fun e => by rw [hpc]; exact ⟨rfl, rfl⟩) (fun e => rfl) rfl rfl rfl
      (CapsKept.refl w.net.store)
  | put hpc hfree => exact .put ht hpc hfree
  | add hpc => exact .add ht hpc
  | recvGet hpc hq => exact .get ht hpc hq
  | recvDup hpc => exact .dup ht hpc
  | recvSub hpc => exact .sub ht hpc
  | retRaw hpc hraw =>
    exact .move ht (fun e => by rw [hpc]; exact ⟨rfl, rfl⟩) (fun e => rfl) rfl rfl rfl
      (CapsKept.newBuf w.net.store _)
  | retSync hpc hs hv =>
    exact .move ht (fun e => by rw [hpc]; exact ⟨rfl, rfl⟩) (fun e => rfl) rfl rfl rfl
      ⟨le_rfl, fun _ _ => rfl⟩

theorem step_effect {w w' : World} {a : Act} (h : w.step a = some w') : Effect w a w' := by
  cases a with
  | user op => exact .user h
  | send t i how =>
    simp only [step, Option.bind_eq_bind, Option.bind_eq_some_iff] at h
    obtain ⟨th, ht, m, hm, h⟩ := h
    split at h
    · rename_i hpc
      cases h
      exact .quiet ht (fun e => by rw [hpc]; rfl) (fun e => rfl) (fun e => rfl) rfl rfl rfl
        (CapsKept.refl w.net.store)
    · cases h
  | recv t e =>
    simp only [step, Option.bind_eq_bind, Option.bind_eq_some_iff] at h
    obtain ⟨th, ht, h⟩ := h
    split at h
    · rename_i hpc
      cases h
      exact .quiet ht (fun e => by rw [hpc]; rfl) (fun e => rfl) (fun e => rfl) rfl rfl rfl
        (CapsKept.refl w.net.store)
    · cases h
  | step t =>
    simp only [step, Option.bind_eq_bind, Option.bind_eq_some_iff] at h
    obtain ⟨th, ht, h⟩ := h
    exact advance_effect ht h

end World

namespace Metered

open World (Owned Effect)

/-! ### The counter of the code -/

/-- `memoryused` shows the integer counter modulo the word size. -/
def Shows (x : Metered) : Prop :=
  ∀ e, ((x.world.net.eps e).memoryused.toNat : ℤ) = x.meter e % 2 ^ 64

theorem toNat_add_emod (a b : UInt64) (c : ℤ) (h : (a.toNat : ℤ) = c % 2 ^ 64) :
    ((a + b).toNat : ℤ) = (c + b.toNat) % 2 ^ 64 := by
  rw [UInt64.toNat_add]
  omega

theorem toNat_sub_emod (a b : UInt64) (c : ℤ) (h : (a.toNat : ℤ) = c % 2 ^ 64) :
    ((a - b).toNat : ℤ) = (c + -b.toNat) % 2 ^ 64 := by
  have hb := b.toNat_lt
  rw [UInt64.toNat_sub]
  omega

theorem shows_step {x x' : Metered} {a : Act} (h : x.step a = some x') (hi : x.Shows) :
    x'.Shows := by
  obtain ⟨w', hw, rfl⟩ := Option.map_eq_some_iff.mp h
  intro e
  have hie := hi e
  show ((w'.net.eps e).memoryused.toNat : ℤ) = (x.meter e + x.world.charge e a) % 2 ^ 64
  cases World.step_effect hw with
  | user h =>
    rw [(World.userStep_counters h).2 e, hie]
    show _ = (x.meter e + 0) % 2 ^ 64
    rw [add_zero]
  | quiet ht hpc hpc' hcharge hthreads hmutex heps hcaps => rw [heps, hcharge, add_zero, hie]
  | @put t th m e₀ todo ocnt ht hpc hfree =>
    rw [World.charge_step ht, hpc]
    show _ = (x.meter e + 0) % 2 ^ 64
    rw [add_zero, ← hie]
    by_cases he : e = e₀
    · subst he
      simp [Endpoint.Internal.putMsg]
    · simp [Function.update_of_ne he]
  | @add t th m e₀ todo ocnt ht hpc =>
    rw [World.charge_step ht, hpc]
    by_cases he : e = e₀
    · subst he
      simp only [Pc.charge, if_true]
      simpa [Endpoint.Internal.fetchAdd] using toNat_add_emod _ (m.cap x.world.net.store) _ hie
    · simp only [Pc.charge, if_neg (Ne.symm he), add_zero]
      simpa [Function.update_of_ne he] using hie
  | @get t th e₀ copy rest ht hpc hq =>
    rw [World.charge_step ht, hpc]
    show _ = (x.meter e + 0) % 2 ^ 64
    rw [add_zero, ← hie]
    by_cases he : e = e₀
    · subst he
      simp
    · simp [Function.update_of_ne he]
  | @dup t th e₀ copy ht hpc =>
    rw [World.charge_step ht, hpc]
    show _ = (x.meter e + 0) % 2 ^ 64
    rw [add_zero, ← hie]
    rfl
  | @sub t th e₀ copy msg ht hpc =>
    rw [World.charge_step ht, hpc]
    by_cases he : e = e₀
    · subst he
      simp only [Pc.charge, if_true]
      simpa [Endpoint.Internal.fetchSub] using toNat_sub_emod _ (msg.cap x.world.net.store) _ hie
    · simp only [Pc.charge, if_neg (Ne.symm he), add_zero]
      simpa [Function.update_of_ne he] using hie

/-- **The integer counter is the counter of the code**, in every run from a net whose counters are
zero. -/
theorem counter_run {w₀ : World} (hzero : ∀ e, (w₀.net.eps e).memoryused = 0) {acts : List Act}
    {x : Metered} (hrun : run step (start w₀) acts = some x) : x.Shows :=
  run_invariant (fun _ _ _ hi h => shows_step h hi) hrun fun e => by rw [start, hzero e]; rfl

/-! ### The books of every endpoint -/

/-- What a message weighs in the counter. -/
def size (st : Store) (m : Message) : ℕ := (m.cap st).toNat

/-- The books of the endpoints in `S` balance, and a `recv` subtracts what its queue entry weighs. -/
structure Balanced (S : EpId → Prop) (x : Metered) : Prop where
  owned : ∃ own, Owned own x.world
  made : ∀ th ∈ x.world.threads, ∀ e copy msg, th.pc = .recvSub e copy msg →
    msg.cap x.world.net.store = copy.cap x.world.net.store
  books : ∀ e, S e → Books (size x.world.net.store) (x.meter e) (x.world.waitmutex e)
    (x.world.net.eps e).messages (x.world.threads.map fun th => th.pc.stage e)

/-- The messages in the queues of `S` and in the hands of calls weigh in `st` what they weighed. -/
structure Weighs (S : EpId → Prop) (w : World) (st : Store) : Prop where
  queued : ∀ e, S e → ∀ m ∈ (w.net.eps e).messages, m.cap st = m.cap w.net.store
  carried : ∀ th ∈ w.threads, ∀ m ∈ th.pc.carried, m.cap st = m.cap w.net.store

theorem weighs_of_capsKept {own : ℕ → Bool} {w : World} {st : Store} (ho : Owned own w)
    (hcaps : CapsKept w.net.store st) (S : EpId → Prop) : Weighs S w st where
  queued e _ m hm := hcaps.cap_eq (ho.queued e m hm).buf
  carried th hth m hm := hcaps.cap_eq ((ho.threads th hth).carried m hm).buf

theorem balanced_start {w : World} (h : World.Init w) (S : EpId → Prop) :
    (start w).Balanced S where
  owned := ⟨_, World.owned_init h⟩
  made th hth e copy msg hpc := by
    rw [h.threads th hth] at hpc
    cases hpc
  books e _ := by
    show Books _ 0 (w.waitmutex e) (w.net.eps e).messages _
    rw [h.mutex, h.queues]
    refine Books.init fun s hs => ?_
    obtain ⟨th, hth, rfl⟩ := List.mem_map.mp hs
    rw [h.threads th hth]
    rfl

theorem mem_carried_of_owes {pc : Pc} {e : EpId} {m : Message} (h : pc.stage e = .owes m) :
    m ∈ pc.carried := by
  unfold Pc.stage at h
  split at h <;> try cases h
  all_goals split at h <;> cases h
  exact List.mem_singleton.mpr rfl

theorem mem_carried_of_holds {pc : Pc} {e : EpId} {m : Message} (h : pc.stage e = .holds m) :
    m ∈ pc.carried := by
  unfold Pc.stage at h
  split at h <;> try cases h
  all_goals split at h <;> cases h
  · exact List.mem_singleton.mpr rfl
  · exact List.mem_cons_self

/-- The books do not notice a change of the heap that keeps these weights. -/
theorem books_weighs {S : EpId → Prop} {w : World} {st : Store} {c : ℤ} {e : EpId}
    (hweighs : Weighs S w st) (he : S e)
    (h : Books (size w.net.store) c (w.waitmutex e) (w.net.eps e).messages
      (w.threads.map fun th => th.pc.stage e)) :
    Books (size st) c (w.waitmutex e) (w.net.eps e).messages
      (w.threads.map fun th => th.pc.stage e) := by
  refine h.congr (fun m hm => ?_) (fun m hm => ?_) fun m hm => ?_
  · rw [size, hweighs.queued e he m hm, size]
  · obtain ⟨th, hth, hs⟩ := List.mem_map.mp hm
    rw [size, hweighs.carried th hth m (mem_carried_of_owes hs), size]
  · obtain ⟨th, hth, hs⟩ := List.mem_map.mp hm
    rw [size, hweighs.carried th hth m (mem_carried_of_holds hs), size]

/-- What the other threads are about to subtract still weighs the same. -/
theorem made_weighs {S : EpId → Prop} {w : World} {st : Store} (hweighs : Weighs S w st)
    {th : Thread} (hth : th ∈ w.threads) {e : EpId} {copy msg : Message}
    (hpc : th.pc = .recvSub e copy msg) (h : msg.cap w.net.store = copy.cap w.net.store) :
    msg.cap st = copy.cap st := by
  rw [hweighs.carried th hth msg (by simp [hpc, Pc.carried]),
    hweighs.carried th hth copy (by simp [hpc, Pc.carried]), h]

/-- The books after a thread moved from a stage to another, seen from the list of threads. -/
theorem stages_set {ths : List Thread} {t : ℕ} {th' : Thread} (e : EpId) :
    (ths.set t th').map (fun th => th.pc.stage e) =
      (ths.map fun th => th.pc.stage e).set t (th'.pc.stage e) :=
  List.map_set

theorem stages_get {ths : List Thread} {t : ℕ} {th : Thread} {s : Stage Message} {e : EpId}
    (ht : ths[t]? = some th) (hs : th.pc.stage e = s) :
    (ths.map fun th => th.pc.stage e)[t]? = some s := by
  rw [List.getElem?_map, ht, Option.map_some, hs]

/-- A thread that stays at its stage of `e` leaves the books of `e` as they are. -/
theorem books_stay {cap : Message → ℕ} {c : ℤ} {b : Bool} {q : List Message} {ths : List Thread}
    {t : ℕ} {th th' : Thread} {e : EpId} (ht : ths[t]? = some th)
    (hs : th'.pc.stage e = th.pc.stage e) (h : Books cap c b q (ths.map fun th => th.pc.stage e)) :
    Books cap c b q ((ths.set t th').map fun th => th.pc.stage e) := by
  rw [stages_set, hs]
  exact h.stay (stages_get ht rfl)

/-- No thread owes a message whose subtraction is paid for. -/
theorem owes_notMem_of_paid {w : World} {t : ℕ} {th : Thread} {e : EpId} {copy msg : Message}
    (ht : w.threads[t]? = some th) (hpc : th.pc = .recvSub e copy msg)
    (hpaid : w.paid (.step t) = true) : .owes copy ∉ w.threads.map fun th => th.pc.stage e := by
  intro hmem
  obtain ⟨th₁, hth₁, hs⟩ := List.mem_map.mp hmem
  have hadding : th₁.pc.isAdding e copy = true := by
    unfold Pc.stage at hs
    split at hs <;> try cases hs
    all_goals split at hs <;> cases hs
    rename_i hpc₁ he
    simp [hpc₁, Pc.isAdding, he]
  obtain ⟨pc, sent, recvs⟩ := th
  cases hpc
  simp only [World.paid, ht, Bool.not_eq_true', List.any_eq_false] at hpaid
  exact hpaid th₁ hth₁ hadding

/-- Only the duplication brings a thread to its subtraction, with a copy of the same capacity. -/
theorem made_step {S : EpId → Prop} {own : ℕ → Bool} {x : Metered} {w' : World} {a : Act}
    (hi : x.Balanced S) (ho : Owned own x.world)
    (huser : ∀ op, a = .user op → Weighs S x.world w'.net.store) (hw : x.world.step a = some w') :
    ∀ th ∈ w'.threads, ∀ e copy msg, th.pc = .recvSub e copy msg →
      msg.cap w'.net.store = copy.cap w'.net.store := by
  cases World.step_effect hw with
  | user h =>
    intro th hth e copy msg hpc
    rw [(World.userStep_sameTraffic h).threads] at hth
    exact made_weighs (huser _ rfl) hth hpc (hi.made th hth e copy msg hpc)
  | quiet ht hpc₀ hpc' hcharge hthreads hmutex heps hcaps =>
    intro th hth e copy msg hpc
    rw [hthreads] at hth
    rcases List.mem_or_eq_of_mem_set hth with hth | rfl
    · exact made_weighs (weighs_of_capsKept ho hcaps S) hth hpc (hi.made th hth e copy msg hpc)
    · have hout := hpc' e
      rw [hpc] at hout
      simp [Pc.stage] at hout
  | put ht hpc₀ | add ht hpc₀ | get ht hpc₀ | sub ht hpc₀ =>
    intro th hth e copy msg hpc
    rcases List.mem_or_eq_of_mem_set hth with hth | rfl
    · exact hi.made th hth e copy msg hpc
    · cases hpc
  | @dup t th₀ e₀ copy₀ ht hpc₀ =>
    intro th hth e copy msg hpc
    have hcaps := capsKept_dupIfok copy₀ x.world.net.store
    rcases List.mem_or_eq_of_mem_set hth with hth | rfl
    · exact made_weighs (weighs_of_capsKept ho hcaps S) hth hpc (hi.made th hth e copy msg hpc)
    · cases hpc
      have hcar := (ho.threads _ (List.mem_of_getElem? ht)).carried
      have hbuf := (hcar copy₀ (by simp [hpc₀, Pc.carried])).buf
      show (copy₀.dupIfok x.world.net.store).1.cap (copy₀.dupIfok x.world.net.store).2 =
        copy₀.cap (copy₀.dupIfok x.world.net.store).2
      rw [dupIfok_cap, hcaps.cap_eq hbuf]

/-- One step in the books of the endpoint `e`. -/
theorem books_step {S : EpId → Prop} {own : ℕ → Bool} {x : Metered} {w' : World} {a : Act}
    (hi : x.Balanced S) (ho : Owned own x.world)
    (huser : ∀ op, a = .user op → Weighs S x.world w'.net.store) (hpaid : x.world.paid a = true)
    (hw : x.world.step a = some w') {e : EpId} (hS : S e) :
    Books (size w'.net.store) (x.meter e + x.world.charge e a) (w'.waitmutex e)
      (w'.net.eps e).messages (w'.threads.map fun th => th.pc.stage e) := by
  have hbooks := hi.books e hS
  cases World.step_effect hw with
  | user h =>
    have hs := World.userStep_sameTraffic h
    rw [hs.threads, hs.queues, (World.userStep_counters h).1]
    show Books _ (x.meter e + 0) _ _ _
    rw [add_zero]
    exact books_weighs (huser _ rfl) hS hbooks
  | quiet ht hpc hpc' hcharge hthreads hmutex heps hcaps =>
    rw [hthreads, hmutex, heps, hcharge, add_zero]
    exact books_stay ht (by rw [hpc, hpc']) (books_weighs (weighs_of_capsKept ho hcaps S) hS hbooks)
  | @put t th m e₀ todo ocnt ht hpc hfree =>
    rw [World.charge_step ht, hpc]
    show Books _ (x.meter e + 0) _ _ ((x.world.threads.set t _).map _)
    rw [add_zero]
    by_cases he : e = e₀
    · subst he
      rw [hfree] at hbooks
      have hout : th.pc.stage e = .outside := by rw [hpc]; rfl
      simpa [Pc.stage] using hbooks.put (stages_get ht hout) m
    · have hstay : Books _ _ _ _ ((x.world.threads.set t { th with pc := .adding m e₀ todo ocnt }).map
          fun th => th.pc.stage e) :=
        books_stay ht (by simp [hpc, Pc.stage, Ne.symm he]) hbooks
      simpa [Function.update_of_ne he] using hstay
  | @add t th m e₀ todo ocnt ht hpc =>
    rw [World.charge_step ht, hpc]
    by_cases he : e = e₀
    · subst he
      have howes : th.pc.stage e = .owes m := by rw [hpc]; exact if_pos rfl
      simpa [Pc.stage, Pc.charge, size] using hbooks.add (stages_get ht howes)
    · have hstay : Books _ _ _ _ ((x.world.threads.set t { th with pc := .giving m todo (ocnt + 1) }).map
          fun th => th.pc.stage e) :=
        books_stay ht (by simp [hpc, Pc.stage, Ne.symm he]) hbooks
      simpa [Pc.charge, Ne.symm he, Function.update_of_ne he] using hstay
  | @get t th e₀ copy rest ht hpc hq =>
    rw [World.charge_step ht, hpc]
    show Books _ (x.meter e + 0) _ _ ((x.world.threads.set t _).map _)
    rw [add_zero]
    by_cases he : e = e₀
    · subst he
      rw [hq] at hbooks
      have hout : th.pc.stage e = .outside := by rw [hpc]; rfl
      simpa [Pc.stage] using hbooks.get (stages_get ht hout)
    · have hstay : Books _ _ _ _ ((x.world.threads.set t { th with pc := .recvDup e₀ copy }).map
          fun th => th.pc.stage e) :=
        books_stay ht (by simp [hpc, Pc.stage, Ne.symm he]) hbooks
      simpa [Function.update_of_ne he] using hstay
  | @dup t th e₀ copy ht hpc =>
    rw [World.charge_step ht, hpc]
    show Books _ (x.meter e + 0) _ _ ((x.world.threads.set t _).map _)
    rw [add_zero]
    exact books_stay ht (by rw [hpc]; rfl)
      (books_weighs (weighs_of_capsKept ho (capsKept_dupIfok copy x.world.net.store) S) hS hbooks)
  | @sub t th e₀ copy msg ht hpc =>
    have hmade := hi.made th (List.mem_of_getElem? ht) e₀ copy msg hpc
    rw [World.charge_step ht, hpc]
    by_cases he : e = e₀
    · subst he
      have hholds : th.pc.stage e = .holds copy := by rw [hpc]; exact if_pos rfl
      have hsub := hbooks.sub (stages_get ht hholds) (owes_notMem_of_paid ht hpc hpaid)
      simpa [Pc.stage, Pc.charge, size, hmade, sub_eq_add_neg] using hsub
    · have hstay : Books _ _ _ _ ((x.world.threads.set t { th with pc := .recvEnd e₀ copy msg }).map
          fun th => th.pc.stage e) :=
        books_stay ht (by simp [hpc, Pc.stage, Ne.symm he]) hbooks
      simpa [Pc.charge, Ne.symm he, Function.update_of_ne he] using hstay

/-- **The books are kept** by every step that subtracts no message whose `give` still owes it, and,
if it is a user call, changes no weight on the net. -/
theorem balanced_step {S : EpId → Prop} {x x' : Metered} {a : Act} (hi : x.Balanced S)
    (huser : ∀ op, a = .user op → Weighs S x.world x'.world.net.store)
    (hpaid : x.world.paid a = true) (h : x.step a = some x') : x'.Balanced S := by
  obtain ⟨w', hw, rfl⟩ := Option.map_eq_some_iff.mp h
  obtain ⟨own, ho⟩ := hi.owned
  obtain ⟨own', -, ho'⟩ := World.owned_trans (World.step_trans hw) ho
  exact ⟨⟨own', ho'⟩, made_step hi ho huser hw, fun e he => books_step hi ho huser hpaid hw he⟩

/-- A user call that resizes nothing changes no weight. -/
theorem weighs_user {S : EpId → Prop} {x x' : Metered} {op : UserOp} (hi : x.Balanced S)
    (hresize : (Act.user op).resizes = false) (h : x.step (.user op) = some x') :
    Weighs S x.world x'.world.net.store := by
  obtain ⟨w', hw, rfl⟩ := Option.map_eq_some_iff.mp h
  obtain ⟨own, ho⟩ := hi.owned
  exact weighs_of_capsKept ho (World.capsKept_user hw hresize) S

/-! ### The counter of every run -/

/-- What `recv` calls have taken out of the queue of `e` and not yet subtracted. -/
def inHand (x : Metered) (e : EpId) : ℕ :=
  total (Stage.held (size x.world.net.store)) (x.world.threads.map fun th => th.pc.stage e)

/-- The counter is at most what is in the queue and in the hands of `recv` calls. -/
theorem Balanced.le_stored {S : EpId → Prop} {x : Metered} (h : x.Balanced S) {e : EpId} (he : S e) :
    x.meter e ≤ ((x.world.net.eps e).messages.map (size x.world.net.store)).sum + x.inHand e := by
  have heven := (h.books e he).even
  unfold inHand
  omega

/-- What a `give` refused by a limit found: a limit that is set, and as much as it allows. -/
theorem refused_of_shows {x : Metered} {e : EpId} (hshow : x.Shows) (hpos : 0 ≤ x.meter e)
    (h : (x.world.net.eps e).underLimits = false) :
    ((x.world.net.eps e).limitpending ≠ 0 ∧
        (x.world.net.eps e).limitpending.toNat ≤ (x.world.net.eps e).messages.length) ∨
      ((x.world.net.eps e).limitmemory ≠ 0 ∧
        ((x.world.net.eps e).limitmemory.toNat : ℤ) ≤ x.meter e) := by
  rw [Bool.eq_false_iff, ne_eq, Endpoint.Internal.underLimits_iff, not_and_or] at h
  rcases h with h | h
  · obtain ⟨hset, hfull⟩ := not_or.mp h
    exact Or.inl ⟨hset, Nat.le_of_not_lt hfull⟩
  · obtain ⟨hset, hfull⟩ := not_or.mp h
    refine Or.inr ⟨hset, ?_⟩
    have hle := UInt64.le_iff_toNat_le.mp (UInt64.not_lt.mp hfull)
    have he := hshow e
    omega

/-- **The memory counter never underflows** in a run of sends, receives and user calls that resizes
no buffer and in which no `recv` subtracts a message before its `give` has added it: seen as an
integer it is never negative, and at most what is queued or in the hands of a `recv`; the counter
of the code is that integer modulo the word size; and a message refused by a limit meets a limit that
is set and that many pending messages or that much memory. -/
theorem never_negative {w₀ : World} (hinit : World.Init w₀)
    (hzero : ∀ e, (w₀.net.eps e).memoryused = 0) {acts : List Act}
    (hresize : ∀ a ∈ acts, a.resizes = false)
    (hpaid : StepsMeet step (fun x a => x.world.paid a = true) (start w₀) acts) {x : Metered}
    (hrun : run step (start w₀) acts = some x) (e : EpId) :
    0 ≤ x.meter e ∧
    x.meter e ≤ ((x.world.net.eps e).messages.map (size x.world.net.store)).sum + x.inHand e ∧
    ((x.world.net.eps e).memoryused.toNat : ℤ) = x.meter e % 2 ^ 64 ∧
    ((x.world.net.eps e).underLimits = false →
      ((x.world.net.eps e).limitpending ≠ 0 ∧
        (x.world.net.eps e).limitpending.toNat ≤ (x.world.net.eps e).messages.length) ∨
      ((x.world.net.eps e).limitmemory ≠ 0 ∧
        ((x.world.net.eps e).limitmemory.toNat : ℤ) ≤ x.meter e)) := by
  have hstep : ∀ (x : Metered) (a : Act) (x' : Metered), x.Balanced (fun _ => True) →
      x.world.paid a = true ∧ a.resizes = false → x.step a = some x' →
      x'.Balanced (fun _ => True) := by
    intro x a x' hi hok h
    refine balanced_step hi (fun op ha => ?_) hok.1 h
    subst ha
    exact weighs_user hi hok.2 h
  have hbalanced : x.Balanced (fun _ => True) :=
    run_invariant_of hstep (hpaid.and_forall hresize) hrun (balanced_start hinit _)
  have hshow := counter_run hzero hrun
  have hpos := (hbalanced.books e trivial).nonneg
  exact ⟨hpos, hbalanced.le_stored trivial, hshow e, refused_of_shows hshow hpos⟩

theorem pair_zero (e : EpId) : (World.pair.net.eps e).memoryused = 0 := by
  by_cases h1 : e = 1
  · subst h1
    rfl
  · by_cases h0 : e = 0
    · subst h0
      rfl
    · simp [World.pair, Net.newEndpoint, Net.addEndpoint, Net.new, Function.update_of_ne h1,
        Function.update_of_ne h0, Endpoint.new]

/-- The thread 0 sends two messages of four bytes from the endpoint 0, and then the thread 1
receives one of them at the endpoint 1, which is given a limit of four bytes. -/
def orderlyScript : List Act :=
  [Act.user (.newRaw (fun _ => 7) 4), .user (.newRaw (fun _ => 8) 4), .send 0 0 (.send 0)] ++
    List.replicate 7 (Act.step 0) ++ [Act.send 0 0 (.send 0)] ++ List.replicate 7 (Act.step 0) ++
    [Act.recv 1 1] ++ List.replicate 4 (Act.step 1) ++ [Act.user (.setLimits 1 0 4)]

theorem never_negative_orderlyScript :
    ∃ x, run step (start World.pair) orderlyScript = some x ∧ x.meter 1 = 4 ∧
      (x.world.net.eps 1).underLimits = false ∧ 0 ≤ x.meter 1 ∧
      x.meter 1 ≤ ((x.world.net.eps 1).messages.map (size x.world.net.store)).sum + x.inHand 1 ∧
      ((x.world.net.eps 1).memoryused.toNat : ℤ) = x.meter 1 % 2 ^ 64 ∧
      ((x.world.net.eps 1).underLimits = false →
        ((x.world.net.eps 1).limitpending ≠ 0 ∧
          (x.world.net.eps 1).limitpending.toNat ≤ (x.world.net.eps 1).messages.length) ∨
        ((x.world.net.eps 1).limitmemory ≠ 0 ∧
          ((x.world.net.eps 1).limitmemory.toNat : ℤ) ≤ x.meter 1)) := by
  have hrun : (run step (start World.pair) orderlyScript).map
      (fun x => (x.meter 1, (x.world.net.eps 1).underLimits)) = some (4, false) := by
    decide +kernel
  obtain ⟨x, hx, hview⟩ := Option.map_eq_some_iff.mp hrun
  obtain ⟨hmeter, hlimits⟩ := Prod.mk.inj hview
  exact ⟨x, hx, hmeter, hlimits,
    never_negative World.pair_init pair_zero (by decide) (by decide +kernel) hx 1⟩

/-- Two endpoints on the net 100 and a third idle thread. -/
def trio : World := { World.pair with threads := List.replicate 3 ⟨.idle, 0, 0⟩ }

theorem trio_init : World.Init trio :=
  { World.pair_init with threads := by decide }

/-- The thread 0 has put its message into the queue of the endpoint 1, the thread 1 takes it out
and subtracts it, and the thread 2 is about to give the endpoint 1 another one. -/
def overtakingScript : List Act :=
  [Act.user (.newRaw (fun _ => 7) 4), .user (.newRaw (fun _ => 8) 4), .user (.setLimits 1 0 1000),
    .send 0 0 (.send 0), .send 2 0 (.send 0)] ++ List.replicate 5 (Act.step 0) ++ [Act.recv 1 1] ++
    List.replicate 3 (Act.step 1) ++ List.replicate 3 (Act.step 2)

/-- A `recv` overtakes the `give` of the message it returns: the counter is below zero, and an
endpoint whose queue is empty refuses the next message by its limit of a thousand bytes. -/
theorem not_never_negative :
    ∃ (w₀ : World) (acts : List Act) (x : Metered) (m : Message), World.Init w₀ ∧
      (∀ e, (w₀.net.eps e).memoryused = 0) ∧ (∀ a ∈ acts, a.resizes = false) ∧
      run step (start w₀) acts = some x ∧ x.meter 1 = -4 ∧ ¬0 ≤ x.meter 1 ∧
      (x.world.net.eps 1).memoryused = 0xfffffffffffffffc ∧
      (x.world.threads[2]?.map Thread.pc) = some (.giving m [1] 0) ∧
      (x.world.net.eps 1).routes x.world.net.sid m = true ∧ (x.world.net.eps 1).messages = [] ∧
      (x.world.net.eps 1).limitpending = 0 ∧ (x.world.net.eps 1).limitmemory = 1000 ∧
      (x.world.net.eps 1).underLimits = false := by
  have hrun : (run step (start trio) overtakingScript).map (fun x =>
      (x.meter 1, x.world.net.eps 1, x.world.net.sid, x.world.threads[2]?.map Thread.pc)) =
      some (-4, ⟨⟨0x10001, 100, UNUSED_ID⟩, [], 0xfffffffffffffffc, 0, 1000⟩, 100,
        some (.giving { World.rawMsg 4 with origin := ⟨2, 0⟩ } [1] 0)) := by
    decide +kernel
  obtain ⟨x, hx, hview⟩ := Option.map_eq_some_iff.mp hrun
  simp only [Prod.mk.injEq] at hview
  obtain ⟨hmeter, hep, hsid, hpc⟩ := hview
  refine ⟨trio, overtakingScript, x, _, trio_init, pair_zero, by decide, hx, hmeter, ?_, ?_, hpc,
    ?_, ?_, ?_, ?_, ?_⟩
  · rw [hmeter]
    decide
  · rw [hep]
  · rw [hep, hsid]
    decide
  · rw [hep]
  · rw [hep]
  · rw [hep]
  · rw [hep]
    decide

end Metered

end WaterNet.Traffic
