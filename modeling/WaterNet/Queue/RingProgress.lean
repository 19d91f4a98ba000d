import Mathlib.Data.Nat.Count
import WaterNet.Queue.RingSafe

/-!
# Blocking consumers and the values in the ring (`queue.rs`)

A failed attempt of `maybeget(true)` gives its position back by `rx.fetch_sub(1)`.  As long as it
is the last position that was handed out, or one of the same item, every position below `rx` is
one that a consumer won or is still trying, and the item at `rx` is the next to be filled or holds
the next value.

* `Balance`, `balance_step` — per item: the puts sent there, the attempts sent there, the state;
* `Obtains` — the next complete attempt of a consumer that runs alone wins an undelivered value;
* `never_strands` — **no value is stranded** in runs of blocking consumers whose steps are in turn.
-/

namespace WaterNet.Queue.Ring

open Lib Lib.Pool Lib.Machine

variable {α : Type*}

namespace Pc

/-- Has a ticket for item `pos` and has not yet set its state to 2. -/
def putsAt (pos : ℕ) : Pc α → ℕ
  | .putSpin p .. | .putCopy p _ | .putStore p => if p = pos then 1 else 0
  | _ => 0

/-- Has a position at item `pos`, neither won nor given back. -/
def attempts (pos : ℕ) : Pc α → ℕ
  | .getSwap _ p | .getBack p => if p = pos then 1 else 0
  | _ => 0

/-- In no `maybeget(false)`. -/
def blocking : Pc α → Bool
  | .getRx false | .getSwap false _ => false
  | _ => true

def inPut : Pc α → Bool
  | .putTx _ | .putSpin .. | .putCopy .. | .putStore _ | .putLen => true
  | _ => false

/-- Between `rx.fetch_add` and what ends the attempt. -/
def attempting : Pc α → Bool
  | .getSwap .. | .getBack _ => true
  | _ => false

end Pc

/-- How many of the first `n` positions fall on item `pos`. -/
def turns (bsize pos n : ℕ) : ℕ := Nat.count (fun k => k % 2 ^ bsize = pos) n

theorem turns_succ (bsize pos n : ℕ) :
    turns bsize pos (n + 1) = turns bsize pos n + if n % 2 ^ bsize = pos then 1 else 0 :=
  Nat.count_succ _ n

theorem turns_mono (bsize pos : ℕ) {m n : ℕ} (h : m ≤ n) : turns bsize pos m ≤ turns bsize pos n :=
  Nat.count_monotone _ h

/-- **The balance of an item**: what was sent to it to be put there, and what was sent to it to
take from there. -/
structure Balance (bsize : ℕ) (w : World α) : Prop where
  blocking : ∀ pc ∈ w.threads, pc.blocking = true
  even : ∀ (pos : ℕ) (item : SizedRingQueueItem (Tagged α)), w.q.block[pos]? = some item →
    turns bsize pos w.q.tx + total (Pc.attempts pos) w.threads =
      total (Pc.putsAt pos) w.threads + turns bsize pos w.q.rx + if item.state = 2 then 1 else 0
  behind : ∀ pos, total (Pc.attempts pos) w.threads ≤ turns bsize pos w.q.rx

/-- A consumer gives its position back while the last one handed out falls on the same item. -/
def givesBackLast (w : World α) : Act α → Bool
  | .step t =>
    match w.threads[t]? with
    | some (.getBack pos) => (w.q.rx - 1) &&& w.q.mask == pos
    | _ => true
  | _ => true

/-- The runs the property is about have no non-blocking gets. -/
def onlyBlocking : Act α → Bool
  | .maybeget _ block => block
  | _ => true

section Balance

variable {bsize t pos : ℕ} {w : World α} {pc pc' : Pc α} {item item' : SizedRingQueueItem (Tagged α)}

/-- A step of one thread, with what it does to both sides of the balance of every item. -/
theorem Balance.change (h : Balance bsize w) (ht : w.threads[t]? = some pc) {w' : World α}
    (hthreads : w'.threads = w.threads.set t pc')
    (heven : ∀ (p : ℕ) (i' : SizedRingQueueItem (Tagged α)), w'.q.block[p]? = some i' →
      ∃ i, w.q.block[p]? = some i ∧
        turns bsize p w'.q.tx + pc'.attempts p +
            (pc.putsAt p + turns bsize p w.q.rx + if i.state = 2 then 1 else 0) =
          turns bsize p w.q.tx + pc.attempts p +
            (pc'.putsAt p + turns bsize p w'.q.rx + if i'.state = 2 then 1 else 0))
    (hbehind : ∀ p, pc'.attempts p + turns bsize p w.q.rx ≤ pc.attempts p + turns bsize p w'.q.rx)
    (hblocking : pc'.blocking = true) : Balance bsize w' := by
  constructor
  · rw [hthreads]
    exact forall_mem_set h.blocking hblocking
  · intro p i' hi'
    obtain ⟨i, hi, hsides⟩ := heven p i' hi'
    have e1 := total_set (Pc.attempts p) ht pc'
    have e2 := total_set (Pc.putsAt p) ht pc'
    have hold := h.even p i hi
    rw [hthreads]
    omega
  · intro p
    have e1 := total_set (Pc.attempts p) ht pc'
    have hold := h.behind p
    have hnew := hbehind p
    rw [hthreads]
    omega

/-- A step that moves neither cursor nor any item in or out of state 2, by a thread that stays at
its item. -/
theorem Balance.move (h : Balance bsize w) (ht : w.threads[t]? = some pc) {w' : World α}
    (hthreads : w'.threads = w.threads.set t pc') (htx : w'.q.tx = w.q.tx)
    (hrx : w'.q.rx = w.q.rx)
    (hblock : ∀ (p : ℕ) (i' : SizedRingQueueItem (Tagged α)), w'.q.block[p]? = some i' →
      ∃ i, w.q.block[p]? = some i ∧ (i'.state = 2 ↔ i.state = 2))
    (hputs : ∀ p, pc'.putsAt p = pc.putsAt p) (hattempts : ∀ p, pc'.attempts p = pc.attempts p)
    (hblocking : pc'.blocking = true) : Balance bsize w' := by
  refine h.change ht hthreads ?_ ?_ hblocking
  · intro p i' hi'
    obtain ⟨i, hi, hstate⟩ := hblock p i' hi'
    refine ⟨i, hi, ?_⟩
    simp only [htx, hrx, hputs p, hattempts p, hstate]
  · intro p
    rw [hrx, hattempts p]

/-- A step of a thread that is done with item `pos` in state 2, or comes to be. -/
theorem Balance.setItem (h : Balance bsize w) (ht : w.threads[t]? = some pc)
    (hitem : w.q.block[pos]? = some item)
    (hpos : pc'.attempts pos + (pc.putsAt pos + if item.state = 2 then 1 else 0) =
      pc.attempts pos + (pc'.putsAt pos + if item'.state = 2 then 1 else 0))
    (hne : ∀ p, p ≠ pos → pc'.attempts p = pc.attempts p ∧ pc'.putsAt p = pc.putsAt p)
    (hle : pc'.attempts pos ≤ pc.attempts pos) (hblocking : pc'.blocking = true) :
    Balance bsize ((w.setItem pos item').setPc t pc') := by
  refine h.change ht rfl ?_ ?_ hblocking
  · intro p i' hi'
    rcases getElem?_set_eq_some hi' with ⟨rfl, rfl⟩ | ⟨hp, hi'⟩
    · refine ⟨item, hitem, ?_⟩
      simp only [World.setItem, World.setPc]
      omega
    · refine ⟨i', hi', ?_⟩
      obtain ⟨h1, h2⟩ := hne p hp
      simp only [World.setItem, World.setPc, h1, h2]
  · intro p
    by_cases hp : p = pos
    · rw [hp]
      simp only [World.setItem, World.setPc]
      omega
    · rw [(hne p hp).1]
      exact Nat.le_refl _

/-- Rewriting an item without taking it in or out of state 2. -/
theorem block_set_iff (hitem : w.q.block[pos]? = some item) (hstate : item'.state = 2 ↔ item.state = 2) :
    ∀ (p : ℕ) (i' : SizedRingQueueItem (Tagged α)), (w.q.block.set pos item')[p]? = some i' →
      ∃ i, w.q.block[p]? = some i ∧ (i'.state = 2 ↔ i.state = 2) := by
  intro p i' hi'
  rcases getElem?_set_eq_some hi' with ⟨rfl, rfl⟩ | ⟨-, hi'⟩
  · exact ⟨item, hitem, hstate⟩
  · exact ⟨i', hi', Iff.rfl⟩

end Balance

/-- **The balance is kept** by every step of a run of blocking consumers in which positions are
given back in turn. -/
theorem balance_step {bsize : ℕ} {w w' : World α} {a : Act α} (hinv : Inv bsize w)
    (h : Balance bsize w) (honly : onlyBlocking a = true) (hback : givesBackLast w a = true)
    (hstep : w.step a = some w') : Balance bsize w' := by
  have hsame : ∀ (p : ℕ) (i : SizedRingQueueItem (Tagged α)), w.q.block[p]? = some i →
      ∃ i', w.q.block[p]? = some i' ∧ (i.state = 2 ↔ i'.state = 2) :=
    fun p i hi => ⟨i, hi, Iff.rfl⟩
  cases World.step_trans hstep with
  | startPut ht => exact h.move ht rfl rfl rfl hsame (fun p => rfl) (fun p => rfl) rfl
  | startGet ht =>
    refine h.move ht rfl rfl rfl hsame (fun p => rfl) (fun p => rfl) ?_
    simp only [onlyBlocking] at honly
    rw [honly]
    rfl
  | @putTx t v ht =>
    have hpos : w.q.tx &&& w.q.mask = w.q.tx % 2 ^ bsize := by
      rw [hinv.mask, SizedRingQueue.and_mask]
    refine h.change ht rfl ?_ ?_ rfl
    · intro p i hi
      refine ⟨i, hi, ?_⟩
      have hturns := turns_succ bsize p w.q.tx
      simp only [World.setPc, World.setQ, Pc.attempts, Pc.putsAt, hpos]
      omega
    · intro p
      exact Nat.le_refl _
  | @claim t pos v claimed item ht hitem hstate =>
    refine h.move ht rfl rfl rfl (block_set_iff hitem ?_) (fun p => rfl) (fun p => rfl) rfl
    simp [hstate]
  | leave ht hitem hstate => exact h.move ht rfl rfl rfl hsame (fun p => rfl) (fun p => rfl) rfl
  | putCopy ht hitem =>
    exact h.move ht rfl rfl rfl (block_set_iff hitem Iff.rfl) (fun p => rfl) (fun p => rfl) rfl
  | @putStore t pos item ht hitem =>
    obtain ⟨l, ph, hl, hslot⟩ := hinv.exists_live hitem
    obtain rfl := hslot.eq_filled ht (by simp [Pc.storing])
    have hstate : item.state = 1 := hslot.state
    refine h.setItem ht hitem ?_ ?_ (Nat.le_refl _) rfl
    · simp [Pc.attempts, Pc.putsAt, hstate]
    · intro p hp
      simp [Pc.attempts, Pc.putsAt, hp.symm]
  | putLen ht => exact h.move ht rfl rfl rfl hsame (fun p => rfl) (fun p => rfl) rfl
  | @getRx t block ht =>
    have hpos : w.q.rx &&& w.q.mask = w.q.rx % 2 ^ bsize := by
      rw [hinv.mask, SizedRingQueue.and_mask]
    have hblock : block = true := by
      have := h.blocking _ (List.mem_of_getElem? ht)
      cases block with
      | true => rfl
      | false => cases this
    refine h.change ht rfl ?_ ?_ (by rw [hblock]; rfl)
    · intro p i hi
      refine ⟨i, hi, ?_⟩
      have hturns := turns_succ bsize p w.q.rx
      simp only [World.setPc, World.setQ, Pc.attempts, Pc.putsAt, hpos]
      omega
    · intro p
      have hturns := turns_succ bsize p w.q.rx
      simp only [World.setPc, World.setQ, Pc.attempts, hpos]
      omega
  | @take t block pos item ht hitem hstate =>
    refine h.setItem ht hitem ?_ ?_ (Nat.zero_le _) rfl
    · simp [Pc.attempts, Pc.putsAt, hstate]
    · intro p hp
      simp [Pc.attempts, Pc.putsAt, hp.symm]
  | @miss t block pos item ht hitem hstate =>
    cases block with
    | true => exact h.move ht rfl rfl rfl hsame (fun p => rfl) (fun p => rfl) rfl
    | false => cases h.blocking _ (List.mem_of_getElem? ht)
  | @getBack t pos ht =>
    -- the position that is given back was handed out, so the cursor is not at its start
    have hpos : (w.q.rx - 1) % 2 ^ bsize = pos := by
      rw [← SizedRingQueue.and_mask, ← hinv.mask]
      simpa [givesBackLast, ht] using hback
    have hle := le_total (Pc.attempts pos) (List.mem_of_getElem? ht)
    have hbehind := h.behind pos
    have hone : Pc.attempts pos (.getBack pos : Pc α) = 1 := by simp [Pc.attempts]
    have hrx : w.q.rx ≠ 0 := by
      intro h0
      rw [h0] at hbehind
      have hzero : turns bsize pos 0 = 0 := Nat.count_zero _
      omega
    have hturns : ∀ p, turns bsize p w.q.rx =
        turns bsize p (w.q.rx - 1) + if pos = p then 1 else 0 := by
      intro p
      have hsucc := turns_succ bsize p (w.q.rx - 1)
      rw [Nat.sub_add_cancel (Nat.pos_of_ne_zero hrx), hpos] at hsucc
      exact hsucc
    refine h.change ht rfl ?_ ?_ rfl
    · intro p i hi
      refine ⟨i, hi, ?_⟩
      have := hturns p
      simp only [World.setPc, World.setQ, Pc.attempts, Pc.putsAt]
      omega
    · intro p
      have := hturns p
      simp only [World.setPc, World.setQ, Pc.attempts]
      omega
  | getCopy ht hitem hv => exact h.move ht rfl rfl rfl hsame (fun p => rfl) (fun p => rfl) rfl
  | @getStore t pos v item ht hitem =>
    obtain ⟨l, ph, hl, hslot⟩ := hinv.exists_live hitem
    obtain rfl := hslot.eq_emptied ht (by simp [Pc.emptying])
    have hstate : item.state = 3 := hslot.state
    refine h.move ht rfl rfl rfl (block_set_iff hitem ?_) (fun p => rfl) (fun p => rfl) rfl
    simp [hstate]
  | getLen ht => exact h.move ht rfl rfl rfl hsame (fun p => rfl) (fun p => rfl) rfl

theorem balance_init (α : Type*) (bsize n : ℕ) : Balance bsize (World.init α bsize n) := by
  have hidle : ∀ pc ∈ (World.init α bsize n).threads, pc = .idle := by
    intro pc hpc
    exact (List.mem_replicate.mp hpc).2
  have hzero : ∀ weight : Pc α → ℕ, weight .idle = 0 →
      total weight (World.init α bsize n).threads = 0 := by
    intro weight hw
    apply total_eq_zero
    intro pc hpc
    rw [hidle pc hpc, hw]
  constructor
  · intro pc hpc
    rw [hidle pc hpc]
    rfl
  · intro pos item hitem
    obtain ⟨-, rfl⟩ := List.mem_replicate.mp (List.mem_of_getElem? hitem)
    rw [hzero _ rfl, hzero _ rfl]
    show turns bsize pos 0 + 0 = 0 + turns bsize pos 0 + 0
    omega
  · intro pos
    rw [hzero _ rfl]
    exact Nat.zero_le _

/-! ### A consumer that runs alone -/

/-- The next complete attempt of the consumer `t`, `fetch_add` and `compare_and_swap`, wins an item
whose value no get has taken. -/
def World.Obtains (w : World α) (t : ℕ) : Prop :=
  ∃ w' pos v, run World.step w [.step t, .step t] = some w' ∧
    w'.threads[t]? = some (.getCopy pos) ∧
    w'.q.block[pos]? = some { state := 3, value := some v } ∧
    v ∉ w'.returned ∧ ∀ pc ∈ w'.threads, pc.takes ≠ some v

/-- A value that is live in an item has not been taken. -/
theorem Values.not_taken {threads : List (Pc α)} {live : List (Option (Tagged α))}
    {returned : List (Tagged α)} {puts : List α} (h : Values threads live returned puts)
    {v : Tagged α} (hv : some v ∈ live) :
    v ∉ returned ∧ ∀ pc ∈ threads, pc.takes ≠ some v := by
  have honce := h.once v.origin
  have hlive := le_total (liveAs v.origin) hv
  have hone : ofPut v.origin v = 1 := if_pos rfl
  have hweight : liveAs v.origin (some v) = 1 := hone
  constructor
  · intro hmem
    have := le_total (ofPut v.origin) hmem
    split at honce <;> omega
  · intro pc hpc htakes
    have hle := le_total (Pc.taking v.origin) hpc
    rw [Pc.taking, htakes, Option.elim_some, hone] at hle
    split at honce <;> omega

/-- **The item at `rx` holds a value**, when nobody is in the middle of anything and some item
does. -/
theorem Balance.written_at_rx {bsize : ℕ} {w : World α} (hinv : Inv bsize w) (h : Balance bsize w)
    (hput : ∀ pc ∈ w.threads, pc.inPut = false) (hatt : ∀ pc ∈ w.threads, pc.attempting = false)
    (hring : ∃ item ∈ w.q.block, item.state = 2) :
    ∃ item, w.q.block[w.q.rx &&& w.q.mask]? = some item ∧ item.state = 2 := by
  have hnoput : ∀ pos, total (Pc.putsAt pos) w.threads = 0 := by
    intro pos
    apply total_eq_zero
    intro pc hpc
    have := hput pc hpc
    cases pc <;> simp_all [Pc.putsAt, Pc.inPut]
  have hnoatt : ∀ pos, total (Pc.attempts pos) w.threads = 0 := by
    intro pos
    apply total_eq_zero
    intro pc hpc
    have := hatt pc hpc
    cases pc <;> simp_all [Pc.attempts, Pc.attempting]
  have heven : ∀ (pos : ℕ) (item : SizedRingQueueItem (Tagged α)), w.q.block[pos]? = some item →
      turns bsize pos w.q.tx = turns bsize pos w.q.rx + if item.state = 2 then 1 else 0 := by
    intro pos item hitem
    have := h.even pos item hitem
    rw [hnoput pos, hnoatt pos] at this
    omega
  -- more positions were filled than handed out
  have hlt : w.q.rx < w.q.tx := by
    obtain ⟨item, hitem, hstate⟩ := hring
    obtain ⟨pos, hpos⟩ := List.mem_iff_getElem?.mp hitem
    have hturns := heven pos item hpos
    rw [if_pos hstate] at hturns
    by_contra hge
    have := turns_mono bsize pos (Nat.not_lt.mp hge)
    omega
  have hpos : w.q.rx &&& w.q.mask = w.q.rx % 2 ^ bsize := by
    rw [hinv.mask, SizedRingQueue.and_mask]
  have hbound : w.q.rx % 2 ^ bsize < w.q.block.length := by
    rw [hinv.block]
    exact Nat.mod_lt _ (Nat.two_pow_pos bsize)
  rw [hpos]
  refine ⟨_, List.getElem?_eq_getElem hbound, ?_⟩
  have hturns := heven _ _ (List.getElem?_eq_getElem hbound)
  have hmono := turns_mono bsize (w.q.rx % 2 ^ bsize) (show w.q.rx + 1 ≤ w.q.tx from hlt)
  rw [turns_succ, if_pos rfl] at hmono
  by_contra hstate
  rw [if_neg hstate] at hturns
  omega

theorem Balance.obtains {bsize t : ℕ} {w : World α} (hinv : Inv bsize w) (h : Balance bsize w)
    (hput : ∀ pc ∈ w.threads, pc.inPut = false) (hatt : ∀ pc ∈ w.threads, pc.attempting = false)
    (hring : ∃ item ∈ w.q.block, item.state = 2) (ht : w.threads[t]? = some (.getRx true)) :
    w.Obtains t := by
  obtain ⟨item, hitem, hstate⟩ := h.written_at_rx hinv hput hatt hring
  obtain ⟨l, ph, hl, hslot⟩ := hinv.exists_live hitem
  obtain rfl := hslot.eq_written hstate
  obtain ⟨v, rfl⟩ := Option.isSome_iff_exists.mp (show l.isSome = true from hslot.isLive)
  obtain ⟨hreturned, htakes⟩ := hinv.values.not_taken (List.mem_of_getElem? hl)
  have htlt := (List.getElem?_eq_some_iff.mp ht).1
  have hposlt := (List.getElem?_eq_some_iff.mp hitem).1
  have hfirst : w.step (.step t) = some ((w.setQ { w.q with rx := w.q.rx + 1 }).setPc t
      (.getSwap true (w.q.rx &&& w.q.mask))) := by
    rw [World.step, ht]
    rfl
  have hsecond : ((w.setQ { w.q with rx := w.q.rx + 1 }).setPc t
      (.getSwap true (w.q.rx &&& w.q.mask))).step (.step t) =
      some ((((w.setQ { w.q with rx := w.q.rx + 1 }).setPc t
        (.getSwap true (w.q.rx &&& w.q.mask))).setItem (w.q.rx &&& w.q.mask)
          { item with state := 3 }).setPc t (.getCopy (w.q.rx &&& w.q.mask))) := by
    simp [World.step, World.advance, htlt, hitem, SizedRingQueueItem.compareAndSwap, hstate]
  refine ⟨_, w.q.rx &&& w.q.mask, v,
    run_cons_eq_some.mpr ⟨_, hfirst, run_cons_eq_some.mpr ⟨_, hsecond, rfl⟩⟩, ?_, ?_, hreturned, ?_⟩
  · simp [htlt]
  · simp [hposlt, hslot.value v rfl]
  · intro pc hpc
    simp only [World.setPc, World.setItem, World.setQ, List.set_set] at hpc
    exact forall_mem_set htakes (by simp [Pc.takes]) pc hpc

/-- In `maybeget`, before an attempt that succeeds. -/
def Pc.seeking : Pc α → Bool
  | .getRx _ | .getSwap .. | .getBack _ => true
  | _ => false

/-- A step of `t` moves no other thread; if it leaves `t` without a value, then `t` had none
before, and no item has changed. -/
theorem step_alone {w w' : World α} {t : ℕ} (hstep : w.step (.step t) = some w') :
    (∀ t', t' ≠ t → w'.threads[t']? = w.threads[t']?) ∧
    ((w'.threads[t]?).any Pc.seeking = true →
      (w.threads[t]?).any Pc.seeking = true ∧ w'.q.block = w.q.block) := by
  have hset : ∀ (pc : Pc α) (t' : ℕ), t' ≠ t → (w.threads.set t pc)[t']? = w.threads[t']? :=
    fun pc t' hne => List.getElem?_set_ne (Ne.symm hne)
  have hself : ∀ {old pc : Pc α}, w.threads[t]? = some old →
      (w.threads.set t pc)[t]? = some pc :=
    fun ht => List.getElem?_set_self (List.getElem?_eq_some_iff.mp ht).1
  cases World.step_trans hstep with
  | getRx ht => exact ⟨hset _, fun _ => ⟨by rw [ht]; rfl, rfl⟩⟩
  | miss ht hitem hstate => exact ⟨hset _, fun _ => ⟨by rw [ht]; rfl, rfl⟩⟩
  | getBack ht => exact ⟨hset _, fun _ => ⟨by rw [ht]; rfl, rfl⟩⟩
  | putTx ht | claim ht | leave ht | putCopy ht | putStore ht | putLen ht | take ht | getCopy ht
  | getStore ht | getLen ht =>
    refine ⟨hset _, fun hseek => ?_⟩
    simp only [World.setPc, World.setQ, World.setItem, World.setLive, hself ht] at hseek
    cases hseek

/-- **Running alone.**  While `t` has not won a value, no item changes and no other thread moves. -/
theorem run_alone {t : ℕ} {own : List (Act α)} (hown : ∀ a ∈ own, a = .step t) {w w₁ : World α}
    (hrun : run World.step w own = some w₁) (hseek : (w₁.threads[t]?).any Pc.seeking = true) :
    (∀ t', t' ≠ t → w₁.threads[t']? = w.threads[t']?) ∧
    (w.threads[t]?).any Pc.seeking = true ∧ w₁.q.block = w.q.block := by
  induction own generalizing w with
  | nil =>
    cases hrun
    exact ⟨fun t' _ => rfl, hseek, rfl⟩
  | cons a own ih =>
    obtain ⟨w', hstep, hrest⟩ := run_cons_eq_some.mp hrun
    obtain ⟨hothers, hseek', hblock⟩ := ih (fun b hb => hown b (List.mem_cons_of_mem a hb)) hrest
    rw [hown a List.mem_cons_self] at hstep
    obtain ⟨hothers', hback⟩ := step_alone hstep
    obtain ⟨hseek₀, hblock'⟩ := hback hseek'
    exact ⟨fun t' hne => (hothers t' hne).trans (hothers' t' hne), hseek₀, hblock.trans hblock'⟩

/-- A step of a put finds its item free, and a position is given back while it is the last one. -/
def inTurn (w : World α) (a : Act α) : Bool := spinsFree w a && givesBackLast w a

theorem balanced_step {bsize : ℕ} {w w' : World α} {a : Act α} (h : Inv bsize w ∧ Balance bsize w)
    (hok : onlyBlocking a = true ∧ inTurn w a = true) (hstep : w.step a = some w') :
    Inv bsize w' ∧ Balance bsize w' := by
  obtain ⟨hfree, hback⟩ := Bool.and_eq_true_iff.mp hok.2
  exact ⟨inv_step h.1 hfree hstep, balance_step h.1 h.2 hok.1 hback hstep⟩

/-- **No value is stranded.**  For every `bsize` and any number of producers and blocking
consumers: in every state that a run in turn reaches with no put in progress and a value in the
ring, if the consumer `t` runs alone while no other is in the middle of an attempt, then whenever
it comes to its next complete attempt, that attempt wins an undelivered value. -/
theorem World.never_strands (bsize n : ℕ) {acts : List (Act α)} {w : World α}
    (hturn : StepsMeet step (fun w a => onlyBlocking a = true ∧ inTurn w a = true)
      (init α bsize n) acts)
    (hrun : run step (init α bsize n) acts = some w)
    (hput : ∀ pc ∈ w.threads, pc.inPut = false) {t : ℕ}
    (hpaused : ∀ t' pc, t' ≠ t → w.threads[t']? = some pc → pc.attempting = false)
    (hring : ∃ item ∈ w.q.block, item.state = 2)
    {own : List (Act α)} (hown : ∀ a ∈ own, a = .step t) {w₁ : World α}
    (hturn₁ : StepsMeet step (fun w a => onlyBlocking a = true ∧ inTurn w a = true) w own)
    (hrun₁ : run step w own = some w₁) (ht : w₁.threads[t]? = some (.getRx true)) :
    w₁.Obtains t := by
  have hw : Inv bsize w ∧ Balance bsize w :=
    run_invariant_of (fun _ _ _ h => balanced_step h) hturn hrun
      ⟨inv_init α bsize n, balance_init α bsize n⟩
  obtain ⟨hinv, hbal⟩ := run_invariant_of (fun _ _ _ h => balanced_step h) hturn₁ hrun₁ hw
  obtain ⟨hothers, -, hblock⟩ := run_alone hown hrun₁ (by rw [ht]; rfl)
  -- every thread but `t` is where it was, and `t` is between two attempts
  have hthread : ∀ pc ∈ w₁.threads, pc = .getRx true ∨
      ∃ t', t' ≠ t ∧ w.threads[t']? = some pc := by
    intro pc hpc
    obtain ⟨t', ht'⟩ := List.mem_iff_getElem?.mp hpc
    by_cases hne : t' = t
    · rw [hne, ht] at ht'
      exact Or.inl (Option.some.inj ht').symm
    · exact Or.inr ⟨t', hne, (hothers t' hne).symm.trans ht'⟩
  refine hbal.obtains hinv ?_ ?_ (hblock ▸ hring) ht
  · intro pc hpc
    rcases hthread pc hpc with rfl | ⟨t', -, ht'⟩
    · rfl
    · exact hput pc (List.mem_of_getElem? ht')
  · intro pc hpc
    rcases hthread pc hpc with rfl | ⟨t', hne, ht'⟩
    · rfl
    · exact hpaused t' pc hne ht'

/-- A consumer whose attempt failed before the value came, and another that has yet to try. -/
def lateValueRun : List (Act ℕ) :=
  [.maybeget 0 true, .maybeget 1 true, .step 0, .step 0,
    .put 2 7, .step 2, .step 2, .step 2, .step 2, .step 2, .step 2]

theorem never_strands_lateValueRun : ∃ w w₁, run World.step (World.init ℕ 1 3) lateValueRun = some w ∧
    run World.step w [.step 0] = some w₁ ∧ w₁.Obtains 0 := by
  obtain ⟨w, hrun, hobs⟩ : ∃ w, run World.step (World.init ℕ 1 3) lateValueRun = some w ∧
      w = { q := { block := [⟨2, some ⟨0, 7⟩⟩, ⟨0, none⟩], mask := 1, len := 1, tx := 1, rx := 1 }
            threads := [.getBack 0, .getRx true, .idle]
            puts := [7], returned := [], live := [some ⟨0, 7⟩, none] } := ⟨_, rfl, rfl⟩
  obtain ⟨w₁, hrun₁, ht⟩ : ∃ w₁, run World.step w [.step 0] = some w₁ ∧
      w₁.threads[0]? = some (.getRx true) := by
    rw [hobs]
    exact ⟨_, rfl, rfl⟩
  have hown : ∀ a ∈ [(.step 0 : Act ℕ)], a = .step 0 := fun a ha => List.mem_singleton.mp ha
  refine ⟨w, w₁, hrun, hrun₁,
    World.never_strands 1 3 (by decide +kernel) hrun ?_ ?_ ?_ hown ?_ hrun₁ ht⟩
  · rw [hobs]
    decide
  · intro t' pc hne hpc
    rw [hobs] at hpc
    match t' with
    | 1 | 2 =>
      cases hpc
      rfl
    | t' + 3 => cases hpc
  · rw [hobs]
    exact ⟨_, List.mem_cons_self, rfl⟩
  · rw [hobs]
    decide +kernel

/-- Two consumers have positions 0 and 1; the second wins its value, and then the first gives a
position back, which is not its own. -/
def overtakenRun : List (Act ℕ) :=
  [.maybeget 0 true, .maybeget 1 true, .step 0, .step 1, .step 0,
    .put 2 7, .step 2, .step 2, .step 2, .step 2, .step 2, .step 2,
    .put 2 8, .step 2, .step 2, .step 2, .step 2, .step 2, .step 2,
    .step 1, .step 1, .step 1, .step 1, .step 0]

/-- At most `2 ^ bsize` values are undelivered. -/
def World.InBounds (bsize : ℕ) (w : World α) : Prop :=
  w.puts.length ≤ w.returned.length + 2 ^ bsize

instance (bsize : ℕ) (w : World α) : Decidable (w.InBounds bsize) :=
  inferInstanceAs (Decidable (_ ≤ _))

theorem not_never_strands : ¬ ∀ (bsize n : ℕ) (acts : List (Act ℕ)) (w : World ℕ) (t : ℕ),
    StepsMeet World.step (fun w a => onlyBlocking a = true ∧ w.InBounds bsize)
      (World.init ℕ bsize n) acts →
    run World.step (World.init ℕ bsize n) acts = some w → w.InBounds bsize →
    (∀ pc ∈ w.threads, pc.inPut = false) →
    (∀ t' pc, t' ≠ t → w.threads[t']? = some pc → pc.attempting = false) →
    (∃ item ∈ w.q.block, item.state = 2) → w.threads[t]? = some (.getRx true) → w.Obtains t := by
  intro hall
  obtain ⟨w, hrun, hobs⟩ : ∃ w, run World.step (World.init ℕ 1 3) overtakenRun = some w ∧
      w = { q := { block := [⟨2, some ⟨0, 7⟩⟩, ⟨0, some ⟨1, 8⟩⟩], mask := 1, len := 1, tx := 2
                   rx := 1 }
            threads := [.getRx true, .idle, .idle]
            puts := [7, 8], returned := [⟨1, 8⟩], live := [some ⟨0, 7⟩, none] } := ⟨_, rfl, rfl⟩
  obtain ⟨w', pos, v, hrun', ht', -⟩ : w.Obtains 0 := by
    refine hall 1 3 overtakenRun w 0 (by decide +kernel) hrun ?_ ?_ ?_ ?_ ?_
    · rw [hobs]
      decide
    · rw [hobs]
      decide
    · intro t' pc hne hpc
      rw [hobs] at hpc
      match t' with
      | 1 | 2 =>
        cases hpc
        rfl
      | t' + 3 => cases hpc
    · rw [hobs]
      exact ⟨_, List.mem_cons_self, rfl⟩
    · rw [hobs]
      rfl
  -- the attempt looks at the item after the one that holds the value
  have hmiss : (run World.step w [.step 0, .step 0]).map World.threads =
      some [.getBack 1, .idle, .idle] := by
    rw [hobs]
    rfl
  rw [hrun', Option.map_some, Option.some.injEq] at hmiss
  rw [hmiss] at ht'
  cases ht'

end WaterNet.Queue.Ring
