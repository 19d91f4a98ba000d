import WaterNet.Lib.Machine
import WaterNet.Queue.Ring
import WaterNet.Queue.Tagged

/-!
# `SizedRingQueue` under any number of threads (`queue.rs`)

Each thread is at a program point `Pc` of `put` or `maybeget`; one action moves one thread by one
atomic operation on the cursors, on a state word or on `len`, or by one copy of a value.

* `World.step` — the machine; `World.advance` is one atomic step of a thread inside a call;
* `Trans`, `step_trans` — **inversion**: what one step can do, with the guards it passed.

A value carries the number of the put that brought it.  That number, the list of the values put,
the list of those returned and `live` (for each item the value that a put stored there and no get
has copied out) are history variables: no guard reads them.
-/

namespace WaterNet.Queue

open Lib

variable {α : Type*}

namespace Ring

/-- Where a thread is. -/
inductive Pc (α : Type*) where
  | idle
  /-- `put` entered -/
  | putTx (t : Tagged α)
  /-- at the `compare_and_swap` of `put`; `claimed` records that an earlier round of the loop set
  the state from 0 to 1 -/
  | putSpin (pos : ℕ) (t : Tagged α) (claimed : Bool)
  | putCopy (pos : ℕ) (t : Tagged α)
  | putStore (pos : ℕ)
  | putLen
  /-- at the `rx.fetch_add` of `maybeget` -/
  | getRx (block : Bool)
  | getSwap (block : Bool) (pos : ℕ)
  /-- the attempt has failed, `rx` is about to be given back -/
  | getBack (pos : ℕ)
  | getCopy (pos : ℕ)
  | getStore (pos : ℕ) (t : Tagged α)
  | getLen (t : Tagged α)
  deriving DecidableEq, Repr

structure World (α : Type*) where
  q : SizedRingQueue (Tagged α)
  threads : List (Pc α)
  puts : List α
  returned : List (Tagged α)
  live : List (Option (Tagged α))

inductive Act (α : Type*) where
  | put (t : ℕ) (v : α)
  | maybeget (t : ℕ) (block : Bool)
  | step (t : ℕ)
  deriving DecidableEq, Repr

namespace World

@[simp] def setPc (w : World α) (t : ℕ) (pc : Pc α) : World α :=
  { w with threads := w.threads.set t pc }

@[simp] def setQ (w : World α) (q : SizedRingQueue (Tagged α)) : World α := { w with q := q }

@[simp] def setLive (w : World α) (pos : ℕ) (v : Option (Tagged α)) : World α :=
  { w with live := w.live.set pos v }

/-- A change of one item of the block. -/
@[simp] def setItem (w : World α) (pos : ℕ) (item : SizedRingQueueItem (Tagged α)) : World α :=
  { w with q := { w.q with block := w.q.block.set pos item } }

/-- One atomic step of the thread `t`, which is at `pc`. -/
def advance (w : World α) (t : ℕ) : Pc α → Option (World α)
  | .idle => none
  | .putTx v =>
    some ((w.setQ { w.q with tx := w.q.tx + 1 }).setPc t
      (.putSpin (w.q.tx &&& w.q.mask) v false))
  | .putSpin pos v _ => do
    let item ← w.q.block[pos]?
    let (old, item) := item.compareAndSwap 0 1
    some ((w.setItem pos item).setPc t (if old == 0 then .putSpin pos v true else .putCopy pos v))
  | .putCopy pos v => do
    let item ← w.q.block[pos]?
    some (((w.setItem pos { item with value := some v }).setLive pos (some v)).setPc t
      (.putStore pos))
  | .putStore pos => do
    let item ← w.q.block[pos]?
    some ((w.setItem pos { item with state := 2 }).setPc t .putLen)
  | .putLen => some ((w.setQ { w.q with len := w.q.len + 1 }).setPc t .idle)
  | .getRx block =>
    some ((w.setQ { w.q with rx := w.q.rx + 1 }).setPc t (.getSwap block (w.q.rx &&& w.q.mask)))
  | .getSwap block pos => do
    let item ← w.q.block[pos]?
    let (old, item) := item.compareAndSwap 2 3
    some ((w.setItem pos item).setPc t
      (if old == 2 then .getCopy pos else if block then .getBack pos else .idle))
  | .getBack _ => some ((w.setQ { w.q with rx := w.q.rx - 1 }).setPc t (.getRx true))
  | .getCopy pos => do
    let item ← w.q.block[pos]?
    let v ← item.value
    some ((w.setLive pos none).setPc t (.getStore pos v))
  | .getStore pos v => do
    let item ← w.q.block[pos]?
    some ((w.setItem pos { item with state := 0 }).setPc t (.getLen v))
  | .getLen v =>
    some ({ w.setQ { w.q with len := w.q.len - 1 } with returned := w.returned ++ [v] }.setPc t
      .idle)

/-- A call can be started by a thread that is in none. -/
def start (w : World α) (t : ℕ) (pc : Pc α) : Option (World α) :=
  if w.threads[t]? matches some .idle then some (w.setPc t pc) else none

def step (w : World α) : Act α → Option (World α)
  | .put t v => { w with puts := w.puts ++ [v] }.start t (.putTx ⟨w.puts.length, v⟩)
  | .maybeget t block => w.start t (.getRx block)
  | .step t => (w.threads[t]?).bind (w.advance t)

/-- A new ring and `n` threads. -/
def init (α : Type*) (bsize n : ℕ) : World α where
  q := SizedRingQueue.new bsize
  threads := List.replicate n .idle
  puts := []
  returned := []
  live := List.replicate (2 ^ bsize) none

/-! ### Inversion -/

/-- **What one step can do.**  One constructor for each atomic step, with what is known there. -/
inductive Trans (w : World α) : Act α → World α → Prop where
  | startPut {t v} (ht : w.threads[t]? = some .idle) :
      Trans w (.put t v) ({ w with puts := w.puts ++ [v] }.setPc t (.putTx ⟨w.puts.length, v⟩))
  | startGet {t block} (ht : w.threads[t]? = some .idle) :
      Trans w (.maybeget t block) (w.setPc t (.getRx block))
  | putTx {t v} (ht : w.threads[t]? = some (.putTx v)) :
      Trans w (.step t) ((w.setQ { w.q with tx := w.q.tx + 1 }).setPc t
        (.putSpin (w.q.tx &&& w.q.mask) v false))
  | claim {t pos v claimed item} (ht : w.threads[t]? = some (.putSpin pos v claimed))
      (hitem : w.q.block[pos]? = some item) (hstate : item.state = 0) :
      Trans w (.step t) ((w.setItem pos { item with state := 1 }).setPc t (.putSpin pos v true))
  | leave {t pos v claimed item} (ht : w.threads[t]? = some (.putSpin pos v claimed))
      (hitem : w.q.block[pos]? = some item) (hstate : item.state ≠ 0) :
      Trans w (.step t) (w.setPc t (.putCopy pos v))
  | putCopy {t pos v item} (ht : w.threads[t]? = some (.putCopy pos v))
      (hitem : w.q.block[pos]? = some item) :
      Trans w (.step t) (((w.setItem pos { item with value := some v }).setLive pos (some v)).setPc t
        (.putStore pos))
  | putStore {t pos item} (ht : w.threads[t]? = some (.putStore pos))
      (hitem : w.q.block[pos]? = some item) :
      Trans w (.step t) ((w.setItem pos { item with state := 2 }).setPc t .putLen)
  | putLen {t} (ht : w.threads[t]? = some .putLen) :
      Trans w (.step t) ((w.setQ { w.q with len := w.q.len + 1 }).setPc t .idle)
  | getRx {t block} (ht : w.threads[t]? = some (.getRx block)) :
      Trans w (.step t) ((w.setQ { w.q with rx := w.q.rx + 1 }).setPc t
        (.getSwap block (w.q.rx &&& w.q.mask)))
  | take {t block pos item} (ht : w.threads[t]? = some (.getSwap block pos))
      (hitem : w.q.block[pos]? = some item) (hstate : item.state = 2) :
      Trans w (.step t) ((w.setItem pos { item with state := 3 }).setPc t (.getCopy pos))
  | miss {t block pos item} (ht : w.threads[t]? = some (.getSwap block pos))
      (hitem : w.q.block[pos]? = some item) (hstate : item.state ≠ 2) :
      Trans w (.step t) (w.setPc t (if block then .getBack pos else .idle))
  | getBack {t pos} (ht : w.threads[t]? = some (.getBack pos)) :
      Trans w (.step t) ((w.setQ { w.q with rx := w.q.rx - 1 }).setPc t (.getRx true))
  | getCopy {t pos item v} (ht : w.threads[t]? = some (.getCopy pos))
      (hitem : w.q.block[pos]? = some item) (hv : item.value = some v) :
      Trans w (.step t) ((w.setLive pos none).setPc t (.getStore pos v))
  | getStore {t pos v item} (ht : w.threads[t]? = some (.getStore pos v))
      (hitem : w.q.block[pos]? = some item) :
      Trans w (.step t) ((w.setItem pos { item with state := 0 }).setPc t (.getLen v))
  | getLen {t v} (ht : w.threads[t]? = some (.getLen v)) :
      Trans w (.step t) ({ w.setQ { w.q with len := w.q.len - 1 } with
        returned := w.returned ++ [v] }.setPc t .idle)

theorem start_eq_some {w w' : World α} {t : ℕ} {pc : Pc α} (h : w.start t pc = some w') :
    w.threads[t]? = some .idle ∧ w' = w.setPc t pc := by
  unfold start at h
  split at h
  · rename_i hidle
    refine ⟨?_, (Option.some.inj h).symm⟩
    revert hidle
    rcases w.threads[t]? with _ | pc
    · intro hidle
      cases hidle
    · cases pc <;> simp
  · cases h

/-- A swap that fails writes nothing. -/
theorem setItem_self {w : World α} {pos : ℕ} {item : SizedRingQueueItem (Tagged α)}
    (hitem : w.q.block[pos]? = some item) : w.setItem pos item = w := by
  obtain ⟨hlt, hget⟩ := List.getElem?_eq_some_iff.mp hitem
  have hset : w.q.block.set pos item = w.q.block := by
    rw [← hget]
    exact List.set_getElem_self hlt
  rw [setItem, hset]

theorem advance_trans {w w' : World α} {t : ℕ} {pc : Pc α} (ht : w.threads[t]? = some pc)
    (h : w.advance t pc = some w') : Trans w (.step t) w' := by
  cases pc with
  | idle => cases h
  | putTx v =>
    cases h
    exact .putTx ht
  | putSpin pos v claimed =>
    obtain ⟨item, hitem, h⟩ := Option.bind_eq_some_iff.mp h
    by_cases hstate : item.state = 0
    · simp only [SizedRingQueueItem.compareAndSwap, hstate, if_true, beq_self_eq_true] at h
      cases h
      exact .claim ht hitem hstate
    · simp only [SizedRingQueueItem.compareAndSwap, hstate, if_false, beq_iff_eq,
        setItem_self hitem] at h
      cases h
      exact .leave ht hitem hstate
  | putCopy pos v =>
    obtain ⟨item, hitem, h⟩ := Option.bind_eq_some_iff.mp h
    cases h
    exact .putCopy ht hitem
  | putStore pos =>
    obtain ⟨item, hitem, h⟩ := Option.bind_eq_some_iff.mp h
    cases h
    exact .putStore ht hitem
  | putLen =>
    cases h
    exact .putLen ht
  | getRx block =>
    cases h
    exact .getRx ht
  | getSwap block pos =>
    obtain ⟨item, hitem, h⟩ := Option.bind_eq_some_iff.mp h
    by_cases hstate : item.state = 2
    · simp only [SizedRingQueueItem.compareAndSwap, hstate, if_true, beq_self_eq_true] at h
      cases h
      exact .take ht hitem hstate
    · simp only [SizedRingQueueItem.compareAndSwap, hstate, if_false, beq_iff_eq,
        setItem_self hitem] at h
      cases h
      exact .miss ht hitem hstate
  | getBack pos =>
    cases h
    exact .getBack ht
  | getCopy pos =>
    obtain ⟨item, hitem, h⟩ := Option.bind_eq_some_iff.mp h
    obtain ⟨v, hv, h⟩ := Option.bind_eq_some_iff.mp h
    cases h
    exact .getCopy ht hitem hv
  | getStore pos v =>
    obtain ⟨item, hitem, h⟩ := Option.bind_eq_some_iff.mp h
    cases h
    exact .getStore ht hitem
  | getLen v =>
    cases h
    exact .getLen ht

/-- **Inversion of a step.** -/
theorem step_trans {w w' : World α} {a : Act α} (h : w.step a = some w') : Trans w a w' := by
  cases a with
  | put t v =>
    obtain ⟨ht, rfl⟩ := start_eq_some h
    exact .startPut ht
  | maybeget t block =>
    obtain ⟨ht, rfl⟩ := start_eq_some h
    exact .startGet ht
  | step t =>
    obtain ⟨pc, ht, h⟩ := Option.bind_eq_some_iff.mp h
    exact advance_trans ht h

end World

end Ring

end WaterNet.Queue
