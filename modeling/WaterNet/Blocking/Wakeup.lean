import WaterNet.Lib.Pool
import WaterNet.Blocking.Step

/-!
# No wake-up is lost

`notify_one` comes after `waitmutex` is unlocked and is lost when nobody sleeps, receivers that do
not block take messages without the mutex, and one `recv` may throw several messages away.  What
holds through all of this is an inequality between two counts.

* `Pc.credit` — a giver between its put and its `notify_one`, or a signalled or timed-out thread
  that has not finished its `recv`: each will see to one message;
* `Pc.debit` — such a thread that has already taken a message to return;
* `Inv` — **the invariant**: while somebody sleeps, the messages to be received and those taken
  are at most as many as the credits;
* `no_lost_wakeup` — so a sleeper and a message that `recv` would return leave a credit without a debit.
-/

namespace WaterNet.Blocking

open Lib.Machine Lib.Pool

/-! ### Credits and debits -/

def Call.blocks : Call → Bool
  | .recv => false
  | .recvorblock | .recvorblockforever => true

/-- The wait ended by a signal or a time-out. -/
def Wake.counts : Wake → Bool
  | .signalled | .timedOut => true
  | .first | .spurious => false

/-- The thread holds `waitmutex`. -/
def Pc.locks : Pc → Bool
  | .givePut _ | .giveAdd _ | .unlock => true
  | .recvGet call _ | .recvDup call _ _ | .recvSub call _ _ | .recvEnd call _ _
  | .recvNone call _ => call.blocks
  | _ => false

/-- The thread is a giver between its put and its `notify_one`. -/
def Pc.notifying : Pc → Bool
  | .giveAdd _ | .giveNotify => true
  | _ => false

/-- The thread was signalled or timed out, and the `recv` it runs after that has not returned. -/
def Pc.rerunning : Pc → Bool
  | .woken _ wake | .recvGet _ wake | .recvDup _ wake _ | .recvSub _ wake _
  | .recvEnd _ wake _ => wake.counts
  | _ => false

def Pc.credit (pc : Pc) : ℕ := pc.notifying.toNat + pc.rerunning.toNat

/-- The message that a thread has taken out of the queue and not yet returned or thrown away. -/
def Pc.popped : Pc → Option Message
  | .recvDup _ _ m | .recvSub _ _ m | .recvEnd _ _ m => some m
  | _ => none

/-- 1 for a thread with a credit that has taken a message it will return, as things are. -/
def Pc.debit (st : Store) (pc : Pc) : ℕ :=
  (pc.rerunning && pc.popped.any (·.receivable st)).toNat

/-- 1 for a thread on the condition variable. -/
def Pc.asleep (pc : Pc) : ℕ := pc.isSleeping.toNat

theorem debit_le_credit (st : Store) (pc : Pc) : pc.debit st ≤ pc.credit := by
  unfold Pc.debit Pc.credit
  cases pc.rerunning with
  | false => simp
  | true =>
    have hle := Bool.toNat_le (pc.popped.any (·.receivable st))
    rw [Bool.true_and, Bool.toNat_true]
    omega

/-- Messages are only ever taken. -/
theorem debit_mono {st st' : Store} (h : ∀ f, st'.valid f = true → st.valid f = true) (pc : Pc) :
    pc.debit st' ≤ pc.debit st := by
  unfold Pc.debit
  refine Bool.toNat_le_toNat fun hd => ?_
  rw [Bool.and_eq_true] at hd ⊢
  refine ⟨hd.1, ?_⟩
  obtain ⟨m, hm, hrec⟩ := (Option.any_eq_true _ _).mp hd.2
  exact (Option.any_eq_true _ _).mpr ⟨m, hm, Message.receivable_of_le h hrec⟩

namespace World

/-- The number of messages in the queue that `recv` would return. -/
def receivables (w : World) : ℕ := w.ep.messages.countP (·.receivable w.store)

/-- The number of threads that sleep on the condition variable. -/
def sleepers (w : World) : ℕ := total Pc.asleep w.threads

/-- **The invariant.** -/
structure Inv (w : World) : Prop where
  mutex : Exclusive Pc.locks w.waitmutex w.threads
  /-- nothing is put between a blocking call's last look at the queue and its wait -/
  empty : ∀ (t : ℕ) (call : Call) (wake : Wake), w.threads[t]? = some (Pc.recvNone call wake) →
    call.blocks = true → w.ep.messages = []
  balance : 0 < w.sleepers →
    w.receivables + total (Pc.debit w.store) w.threads ≤ total Pc.credit w.threads

/-! ### One step -/

/-- Taking messages elsewhere leaves no more to receive here. -/
theorem receivables_le {w w' : World} (hq : w'.ep.messages.Sublist w.ep.messages)
    (hst : ∀ f, w'.store.valid f = true → w.store.valid f = true) :
    w'.receivables ≤ w.receivables :=
  (hq.countP_le).trans (List.countP_mono_left fun _ _ => Message.receivable_of_le hst)

section balance

variable {w w' : World} {t : ℕ} {pc pc' : Pc}

/-- A step of a thread that does not fall asleep keeps the balance if it adds no more to the one
side than to the other. -/
theorem balance_awake (h : Inv w) (ht : w.threads[t]? = some pc)
    (hth : w'.threads = w.threads.set t pc') (hsleep : pc'.isSleeping = false)
    (hst : ∀ f, w'.store.valid f = true → w.store.valid f = true)
    (hle : w'.receivables + pc'.debit w.store + pc.credit ≤
      w.receivables + pc.debit w.store + pc'.credit) :
    0 < w'.sleepers →
      w'.receivables + total (Pc.debit w'.store) w'.threads ≤ total Pc.credit w'.threads := by
  intro hpos
  have hs := total_set Pc.asleep ht pc'
  have hd := total_set (Pc.debit w.store) ht pc'
  have hc := total_set Pc.credit ht pc'
  have hmono := total_mono fun pc (_ : pc ∈ w'.threads) => debit_mono hst pc
  unfold sleepers at hpos
  rw [hth] at hpos hmono ⊢
  have hawake : pc'.asleep = 0 := by rw [Pc.asleep, hsleep, Bool.toNat_false]
  have hbal := h.balance (by unfold sleepers; omega)
  omega

/-- With nothing in the queue to receive, the balance holds: nobody takes two messages. -/
theorem balance_empty (hzero : w'.receivables = 0) :
    w'.receivables + total (Pc.debit w'.store) w'.threads ≤ total Pc.credit w'.threads := by
  rw [hzero, Nat.zero_add]
  exact total_mono fun pc _ => debit_le_credit w'.store pc

end balance

/-- **A step of one thread**, which leaves the queue empty if it was, or holds `waitmutex`. -/
theorem Inv.step_of {w w' : World} (h : Inv w) {t : ℕ} {pc pc' : Pc}
    (ht : w.threads[t]? = some pc) (hth : w'.threads = w.threads.set t pc')
    (hown : pc'.locks = true → w'.waitmutex = some t)
    (hkeep : w'.waitmutex = w.waitmutex ∨ w.waitmutex = none ∨ pc.locks = true)
    (hqueue : (w.ep.messages = [] → w'.ep.messages = []) ∨ pc.locks = true)
    (hnone : ∀ call wake, pc' = .recvNone call wake → w'.ep.messages = [])
    (hbal : 0 < w'.sleepers →
      w'.receivables + total (Pc.debit w'.store) w'.threads ≤ total Pc.credit w'.threads) :
    Inv w' := by
  refine ⟨hth ▸ h.mutex.set ht hown hkeep, fun j call wake hj hcall => ?_, hbal⟩
  rw [hth] at hj
  rcases getElem?_set_eq_some hj with ⟨rfl, hpc'⟩ | ⟨hne, hj⟩
  · exact hnone call wake hpc'.symm
  · rcases hqueue with hq | hpc
    · exact hq (h.empty j call wake hj hcall)
    · exact absurd (h.mutex.eq_of_inside ht hj hpc hcall) hne

/-- A step that changes nothing but where the thread is. -/
theorem Inv.setPc {w : World} (h : Inv w) {t : ℕ} {pc pc' : Pc} (ht : w.threads[t]? = some pc)
    (hlocks : pc'.locks = true → pc.locks = true)
    (hnone : ∀ call wake, pc' = .recvNone call wake → w.ep.messages = [])
    (hsleep : pc'.isSleeping = false)
    (hle : pc'.debit w.store + pc.credit ≤ pc.debit w.store + pc'.credit) :
    Inv (w.setPc t pc') :=
  h.step_of ht rfl (fun hl => h.mutex t pc ht (hlocks hl)) (.inl rfl) (.inl id) hnone
    (balance_awake h ht rfl hsleep (fun _ hf => hf)
      (by rw [Nat.add_assoc, Nat.add_assoc]; exact Nat.add_le_add_left hle _))

theorem sleepers_eq_zero {threads : List Pc} (h : threads.any Pc.isSleeping = false) :
    total Pc.asleep threads = 0 :=
  total_eq_zero fun pc hpc => by
    rw [Pc.asleep, Bool.toNat_eq_zero]
    exact Bool.eq_false_iff.mpr (List.any_eq_false.mp h pc hpc)

/-- A signal moves the credit of the giver to the sleeper it wakes. -/
theorem Inv.notify {w : World} (h : Inv w) {t j : ℕ} {call : Call}
    (ht : w.threads[t]? = some .giveNotify)
    (hj : (w.threads.set t .idle)[j]? = some (.sleeping call)) :
    Inv ((w.setPc t .idle).setPc j (.woken call .signalled)) := by
  refine ⟨?_, fun i call' wake hi hcall => ?_, fun _ => ?_⟩
  · exact (h.mutex.set ht (fun hl => by cases hl) (.inl rfl)).set hj (fun hl => by cases hl)
      (.inl rfl)
  · rcases getElem?_set_eq_some hi with ⟨-, hpc⟩ | ⟨-, hi⟩
    · cases hpc
    · rcases getElem?_set_eq_some hi with ⟨-, hpc⟩ | ⟨-, hi⟩
      · cases hpc
      · exact h.empty i call' wake hi hcall
  · have hs := total_set Pc.asleep ht .idle
    have hd := total_set (Pc.debit w.store) ht .idle
    have hc := total_set Pc.credit ht .idle
    have hs' := total_set Pc.asleep hj (.woken call .signalled)
    have hd' := total_set (Pc.debit w.store) hj (.woken call .signalled)
    have hc' := total_set Pc.credit hj (.woken call .signalled)
    have hone : Pc.credit .giveNotify = 1 := rfl
    have hone' : Pc.credit (.woken call .signalled) = 1 := rfl
    have hzero : Pc.credit .idle = 0 ∧ Pc.credit (.sleeping call) = 0 := ⟨rfl, rfl⟩
    have hdebit : Pc.debit w.store .giveNotify = 0 ∧ Pc.debit w.store .idle = 0 ∧
      Pc.debit w.store (.sleeping call) = 0 ∧ Pc.debit w.store (.woken call .signalled) = 0 :=
      ⟨rfl, rfl, rfl, rfl⟩
    have hasleep : Pc.asleep .idle = 0 ∧ Pc.asleep (.sleeping call) = 1 ∧
      Pc.asleep .giveNotify = 0 ∧ Pc.asleep (.woken call .signalled) = 0 := ⟨rfl, rfl, rfl, rfl⟩
    have hbal := h.balance (by unfold sleepers; omega)
    show w.receivables + total (Pc.debit w.store) ((w.threads.set t .idle).set j _) ≤
      total Pc.credit ((w.threads.set t .idle).set j _)
    omega

theorem Inv.step {w w' : World} (h : Inv w) (hw : Trans w w') : Inv w' := by
  cases hw with
  | @outside ep st hep hst =>
    refine ⟨h.mutex, fun j call wake hj hcall => hep.trans (h.empty j call wake hj hcall), ?_⟩
    intro hpos
    have hbal := h.balance hpos
    have hr : ((w.setEp ep).setStore st).receivables ≤ w.receivables :=
      receivables_le (hep ▸ List.Sublist.refl _) hst
    have hd := total_mono fun pc (_ : pc ∈ w.threads) => debit_mono hst pc
    simp only [setStore, setEp] at hr ⊢
    omega
  | startGive ht =>
    exact h.setPc ht (fun hl => by cases hl) (fun _ _ hpc => by cases hpc) rfl (Nat.le_refl _)
  | startRecv ht =>
    exact h.setPc ht (fun hl => by cases hl) (fun _ _ hpc => by cases hpc) rfl (Nat.le_refl _)
  | startBlocking ht hcall =>
    exact h.setPc ht (fun hl => by cases hl) (fun _ _ hpc => by cases hpc) rfl (Nat.le_refl _)
  | accept ht =>
    exact h.setPc ht (fun hl => by cases hl) (fun _ _ hpc => by cases hpc) rfl (Nat.le_refl _)
  | refuse ht =>
    exact h.setPc ht (fun hl => by cases hl) (fun _ _ hpc => by cases hpc) rfl (Nat.le_refl _)
  | giveLock ht hl =>
    exact h.step_of ht rfl (fun _ => rfl) (.inr (.inl hl)) (.inl id) (fun _ _ hpc => by cases hpc)
      (balance_awake h ht rfl rfl (fun _ hf => hf) (Nat.le_refl _))
  | @put t m ht =>
    refine h.step_of ht rfl (fun _ => h.mutex t _ ht rfl) (.inl rfl) (.inr rfl)
      (fun _ _ hpc => by cases hpc) (balance_awake h ht rfl rfl (fun _ hf => hf) ?_)
    show (w.ep.messages ++ [m]).countP _ ≤ w.receivables + 1
    rw [List.countP_append]
    exact Nat.add_le_add_left List.countP_le_length _
  | add ht =>
    exact h.step_of ht rfl (fun hl => by cases hl) (.inr (.inr rfl)) (.inl id)
      (fun _ _ hpc => by cases hpc) (balance_awake h ht rfl rfl (fun _ hf => hf) (Nat.le_refl _))
  | @notifyLost t ht hnone =>
    refine h.step_of ht rfl (fun hl => by cases hl) (.inl rfl) (.inl id)
      (fun _ _ hpc => by cases hpc) (fun hpos => ?_)
    have hs := total_set Pc.asleep ht .idle
    have hzero := sleepers_eq_zero hnone
    have hasleep : Pc.asleep .idle = 0 ∧ Pc.asleep .giveNotify = 0 := ⟨rfl, rfl⟩
    have hpos : 0 < total Pc.asleep (w.threads.set t .idle) := hpos
    omega
  | notify ht hj => exact h.notify ht hj
  | recvLock ht hl =>
    exact h.step_of ht rfl (fun _ => rfl) (.inr (.inl hl)) (.inl id) (fun _ _ hpc => by cases hpc)
      (balance_awake h ht rfl rfl (fun _ hf => hf) (Nat.le_refl _))
  | @recvNone t call wake ht hq =>
    refine h.step_of ht rfl (fun hl => h.mutex t _ ht hl) (.inl rfl) (.inl id)
      (fun _ _ _ => hq) (fun _ => balance_empty ?_)
    simp only [receivables, World.setPc, hq, List.countP_nil]
  | @recvGet t call wake copy rest ht hq =>
    refine h.step_of ht rfl (fun hl => h.mutex t _ ht hl) (.inl rfl)
      (.inl fun hnil => by rw [hq] at hnil; cases hnil) (fun _ _ hpc => by cases hpc)
      (balance_awake h ht rfl rfl (fun _ hf => hf) ?_)
    have hr : w.receivables = rest.countP (·.receivable w.store) + (copy.receivable w.store).toNat := by
      rw [receivables, hq, List.countP_cons]
      cases copy.receivable w.store <;> rfl
    have hd : Pc.debit w.store (.recvDup call wake copy) ≤ (copy.receivable w.store).toNat :=
      Bool.toNat_le_toNat fun hd => (Bool.and_eq_true _ _ ▸ hd).2
    have hr' : (((w.setEp { w.ep with messages := rest }).setPc t
      (.recvDup call wake copy))).receivables = rest.countP (·.receivable w.store) := rfl
    have hc : Pc.credit (.recvGet call wake) = Pc.credit (.recvDup call wake copy) := rfl
    omega
  | @recvDup t call wake copy ht =>
    have hst : ∀ f, (copy.dupIfok w.store).2.valid f = true → w.store.valid f = true := by
      simp
    refine h.step_of ht rfl (fun hl => h.mutex t _ ht hl) (.inl rfl) (.inl id)
      (fun _ _ hpc => by cases hpc) (balance_awake h ht rfl rfl hst ?_)
    have hr : ((w.setStore (copy.dupIfok w.store).2).setPc t
        (.recvSub call wake (copy.dupIfok w.store).1)).receivables ≤ w.receivables :=
      receivables_le (List.Sublist.refl _) hst
    have hd : Pc.debit w.store (.recvSub call wake (copy.dupIfok w.store).1) =
        Pc.debit w.store (.recvDup call wake copy) := by
      simp [Pc.debit, Pc.rerunning, Pc.popped, Message.receivable]
    have hc : Pc.credit (.recvSub call wake (copy.dupIfok w.store).1) =
        Pc.credit (.recvDup call wake copy) := rfl
    omega
  | @recvSub t call wake msg ht =>
    exact h.step_of ht rfl (fun hl => h.mutex t _ ht hl) (.inl rfl) (.inl id)
      (fun _ _ hpc => by cases hpc) (balance_awake h ht rfl rfl (fun _ hf => hf) (Nat.le_refl _))
  | @took t call wake msg st ht hmsg hst =>
    have hlocks : call.done.locks = true → (Pc.recvEnd call wake msg).locks = true := by
      cases call <;> simp [Call.done, Pc.locks, Call.blocks]
    have hnone : ∀ call' wake', call.done ≠ .recvNone call' wake' := by
      cases call <;> simp [Call.done]
    have hdone : call.done.isSleeping = false ∧ call.done.debit w.store = 0 := by
      cases call <;> exact ⟨rfl, rfl⟩
    refine h.step_of ht rfl (fun hl => h.mutex t _ ht (hlocks hl)) (.inl rfl) (.inl id)
      (fun call' wake' hpc => absurd hpc (hnone call' wake'))
      (balance_awake h ht rfl hdone.1 hst ?_)
    have hr : ((w.setStore st).setPc t call.done).receivables ≤ w.receivables :=
      receivables_le (List.Sublist.refl _) hst
    -- the message it had taken was its debit
    have hd : Pc.debit w.store (.recvEnd call wake msg) = Pc.credit (.recvEnd call wake msg) := by
      simp [Pc.debit, Pc.credit, Pc.rerunning, Pc.notifying, Pc.popped, hmsg]
    omega
  | @discard t call wake msg ht hmsg =>
    refine h.setPc ht id (fun _ _ hpc => by cases hpc) rfl ?_
    have hd : Pc.debit w.store (.recvGet call wake) = 0 := by
      simp [Pc.debit, Pc.popped]
    have hc : Pc.credit (.recvGet call wake) = Pc.credit (.recvEnd call wake msg) := rfl
    omega
  | noMessages ht =>
    exact h.setPc ht (fun hl => by cases hl) (fun _ _ hpc => by cases hpc) rfl (Nat.le_refl _)
  | expired ht =>
    exact h.setPc ht (fun _ => rfl) (fun _ _ hpc => by cases hpc) rfl (Nat.le_refl _)
  | @sleep t call wake ht hcall =>
    have hblocks : call.blocks = true := by
      cases call with
      | recv => exact absurd rfl hcall
      | _ => rfl
    have hq := h.empty t call wake ht hblocks
    refine h.step_of ht rfl (fun hl => by cases hl) (.inr (.inr hblocks)) (.inl id)
      (fun _ _ hpc => by cases hpc) (fun _ => balance_empty ?_)
    simp only [receivables, World.setPc, setLock, hq, List.countP_nil]
  | unlock ht =>
    exact h.step_of ht rfl (fun hl => by cases hl) (.inr (.inr rfl)) (.inl id)
      (fun _ _ hpc => by cases hpc) (balance_awake h ht rfl rfl (fun _ hf => hf) (Nat.le_refl _))
  | @relock t call wake ht hl =>
    exact h.step_of ht rfl (fun _ => rfl) (.inr (.inl hl)) (.inl id) (fun _ _ hpc => by cases hpc)
      (balance_awake h ht rfl rfl (fun _ hf => hf) (Nat.le_refl _))
  | timeout ht =>
    exact h.setPc ht (fun hl => by cases hl) (fun _ _ hpc => by cases hpc) rfl (Nat.zero_le _)
  | spurious ht =>
    exact h.setPc ht (fun hl => by cases hl) (fun _ _ hpc => by cases hpc) rfl (Nat.le_refl _)

/-! ### Runs -/

theorem Init.inv {w : World} (h : Init w) : Inv w := by
  refine ⟨fun t pc ht hl => ?_, fun t call wake ht => ?_, fun hpos => ?_⟩
  · rw [h.idle pc (List.mem_of_getElem? ht)] at hl
    cases hl
  · cases h.idle _ (List.mem_of_getElem? ht)
  · have hzero : w.sleepers = 0 := total_eq_zero fun pc hpc => by rw [h.idle pc hpc]; rfl
    omega

theorem run_inv {w₀ w : World} {as : List Act} (hinit : Init w₀) (hrun : run step w₀ as = some w) :
    Inv w :=
  run_invariant (fun _ _ _ hu hs => hu.step (step_trans hs)) hrun hinit.inv

/-- **No lost wake-up.**  In every reachable state in which a thread sleeps on the condition
variable and `recv` would return a message, some giver is between its put and its `notify_one`, or
some signalled or timed-out thread has not finished running `recv` again and has taken no message that
it will return, so that it has yet to look at the queue. -/
theorem no_lost_wakeup {w₀ w : World} {as : List Act} (hinit : Init w₀)
    (hrun : run step w₀ as = some w) {t : ℕ} {call : Call}
    (hsleep : w.threads[t]? = some (.sleeping call)) {msg : Message}
    (hmsg : (w.ep.recv w.store).1 = .ok msg) :
    (∃ pc ∈ w.threads, pc.notifying = true) ∨ ∃ pc ∈ w.threads, pc.rerunning = true ∧
      pc.popped.any (·.receivable w.store) = false := by
  have hinv := run_inv hinit hrun
  have hpos : 0 < w.sleepers := by
    have hle := le_total Pc.asleep (List.mem_of_getElem? hsleep)
    exact Nat.lt_of_lt_of_le Nat.one_pos hle
  have hrec : 0 < w.receivables :=
    List.countP_pos_iff.mpr ((Endpoint.Internal.recv_ok_iff w.ep w.store).mp ⟨msg, hmsg⟩)
  have hbal := hinv.balance hpos
  -- somebody has a credit and not yet a message for it
  obtain ⟨pc, hpc, hlt⟩ : ∃ pc ∈ w.threads, pc.debit w.store < pc.credit :=
    List.exists_lt_of_sum_lt _ _ (show total (Pc.debit w.store) w.threads < total Pc.credit w.threads by
      omega)
  unfold Pc.debit Pc.credit at hlt
  cases hn : pc.notifying with
  | true => exact .inl ⟨pc, hpc, hn⟩
  | false =>
    cases hr : pc.rerunning with
    | true =>
      refine .inr ⟨pc, hpc, hr, Bool.eq_false_iff.mpr fun hp => ?_⟩
      simp [hn, hr, hp] at hlt
    | false => simp [hn, hr] at hlt

/-- An endpoint of the net 234 and three idle threads. -/
def three : World :=
  { netsid := 234, ep := Endpoint.new 234 0x10000, store := Store.empty, waitmutex := none
    threads := [.idle, .idle, .idle] }

def cloneMsg : Message :=
  { srcsid := 0, srceid := 0, dstsid := 0, dsteid := 0, canloop := true, payload := .clone ⟨0, ⟨0⟩⟩ }

/-- Two threads fall asleep, the third gives the endpoint a message and signals the first. -/
def signalScript : List Act :=
  [.recv 0 .recvorblockforever, .step 0, .step 0, .step 0,
   .recv 1 .recvorblock, .step 1, .step 1, .step 1,
   .give 2 cloneMsg, .step 2, .step 2, .step 2, .step 2, .notify 2 0]

theorem no_lost_wakeup_three :
    ∃ w, run step three signalScript = some w ∧ w.threads[1]? = some (.sleeping .recvorblock) ∧
      ((∃ pc ∈ w.threads, pc.notifying = true) ∨ ∃ pc ∈ w.threads, pc.rerunning = true ∧
        pc.popped.any (·.receivable w.store) = false) := by
  have hend : (run step three signalScript).map (fun w =>
      (w.threads[1]?, (w.ep.recv w.store).1.toOption)) =
        some (some (.sleeping .recvorblock), some cloneMsg) := by
    decide +kernel
  obtain ⟨w, hw, hobs⟩ := Option.map_eq_some_iff.mp hend
  obtain ⟨hsleep, hrecv⟩ := Prod.mk.inj hobs
  have hmsg : (w.ep.recv w.store).1 = .ok cloneMsg := by
    cases hres : (w.ep.recv w.store).1 with
    | error e => rw [hres] at hrecv; cases hrecv
    | ok m => rw [hres] at hrecv; cases hrecv; rfl
  exact ⟨w, hw, hsleep, no_lost_wakeup ⟨by decide⟩ hw hsleep hmsg⟩

end World

end WaterNet.Blocking
