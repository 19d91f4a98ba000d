import WaterNet.Lib.Machine
import WaterNet.Queue.Link
import WaterNet.Queue.Tagged

/-!
# `InfiniteLinkQueue` under any number of threads (`queue.rs`)

Each thread is at a program point `Pc` of `put` or `get`; one action moves one thread by one atomic
operation (a load, a store, a `swap`, a `compare_and_swap`, a `fetch_add` or a `fetch_sub`), by one
copy of a payload, or by one allocation or deallocation of an item.

* `World.step` — the machine; `World.advance` is one atomic step of a thread inside a call;
* `Local`, `Trans`, `step_trans` — **inversion**: the steps that move only their thread and the
  counters, and the others, with the guards they passed.

The number of the put in a value, the list of the values put, that of the values returned, and the
value at a program point before its payload was copied in, or out, are history variables: no guard
reads them.
-/

namespace WaterNet.Queue.Link

open Lib

variable {α : Type*}

/-- The stores of `put` into an item from the cache, in their order. -/
inductive Field where
  | claimed
  | needrel
  | next
  | prev
  | payload
  deriving DecidableEq, Repr

namespace Field

def store : Field → α → Item α → Item α
  | .claimed, _, i => { i with claimed := false }
  | .needrel, _, i => { i with needrel := false }
  | .next, _, i => { i with next := 0 }
  | .prev, _, i => { i with prev := 0 }
  | .payload, v, i => { i with payload := v }

/-- The store after this one. -/
def after : Field → Option Field
  | .claimed => some .needrel
  | .needrel => some .next
  | .next => some .prev
  | .prev => some .payload
  | .payload => none

end Field

/-- Where a thread is; `cur` is the variable of `get`. -/
inductive Pc (α : Type*) where
  | idle
  /-- `put` entered, at the `pos.fetch_sub` of `PointerCache::pop` -/
  | popPos (v : Tagged α)
  | popSwap (slot : ℕ) (v : Tagged α)
  | boxNew (v : Tagged α)
  | reset (f : Field) (item : Ptr) (v : Tagged α)
  | bumpSent (item : Ptr) (v : Tagged α)
  | swapPtr (item : Ptr) (v : Tagged α)
  | linkNext (item oldhead : Ptr)
  /-- at `(*oldhead).prev.store(item)`, or at `self.lst.store(item)` when there is no old head -/
  | linkPrev (item oldhead : Ptr)
  | bumpLen
  /-- `get` entered -/
  | enter
  | loadLst
  | testRel (cur : Ptr)
  | casRel (cur : Ptr)
  /-- `taildealloc(cur)` entered -/
  | tailFirst (cur : Ptr)
  /-- in the loop of `taildealloc`, at the item `tail` -/
  | tailNext (cur tail : Ptr)
  /-- at the `pos.fetch_add` of `PointerCache::push(tail)` -/
  | pushPos (cur tail ncur : Ptr)
  | pushSwap (slot : ℕ) (cur tail ncur : Ptr)
  /-- about to deallocate what the push displaced -/
  | pushFree (cur old ncur : Ptr)
  | tailClear (cur : Ptr)
  | endRel (cur : Ptr)
  | testAgain (cur : Ptr)
  /-- at `nlst = (*cur).prev.load()`: before the loop, or in it with the value that was claimed -/
  | loadPrev (cur : Ptr) (v : Option (Tagged α))
  /-- at `lst.compare_and_swap(cur, nlst)` -/
  | advance (cur nlst : Ptr) (v : Option (Tagged α))
  | claim (cur : Ptr) (first : Bool)
  | dropLen (cur : Ptr) (first : Bool) (v : Tagged α)
  | copy (cur : Ptr) (v : Tagged α)
  | markRel (cur : Ptr) (v : Tagged α)
  | bumpRel (v : Tagged α)
  | leave (v : Tagged α)
  /-- at `cur = (*cur).prev.load()` -/
  | next (cur : Ptr)
  /-- the loop has ended without a claim -/
  | leaveNone
  deriving DecidableEq, Repr

structure World (α : Type*) where
  q : InfiniteLinkQueue (Tagged α)
  threads : List (Pc α)
  puts : List α
  returned : List (Tagged α)

/-- `box` is the step of a put that allocates its item; it names the address. -/
inductive Act (α : Type*) where
  | put (t : ℕ) (v : α)
  | get (t : ℕ)
  | step (t : ℕ)
  | box (t : ℕ) (item : Ptr)
  deriving DecidableEq, Repr

namespace World

@[simp] def setPc (w : World α) (t : ℕ) (pc : Pc α) : World α :=
  { w with threads := w.threads.set t pc }

@[simp] def setQ (w : World α) (q : InfiniteLinkQueue (Tagged α)) : World α := { w with q := q }

@[simp] def setCells (w : World α) (cells : Cells (Tagged α)) : World α :=
  { w with q := { w.q with cells := cells } }

@[simp] def setRecycle (w : World α) (recycle : PointerCache) : World α :=
  { w with q := { w.q with recycle := recycle } }

/-- A store through a pointer. -/
def modify (w : World α) (p : Ptr) (f : Item (Tagged α) → Item (Tagged α)) : Option (World α) :=
  (w.q.cells.modify p f).map w.setCells

/-- Where the loop of `taildealloc` goes on. -/
def tailLoop (cur tail : Ptr) : Pc α := if tail = 0 then .tailClear cur else .tailNext cur tail

/-- Where `get` goes on once `lst` was moved on, or not. -/
def afterLst (cur nlst : Ptr) : Option (Tagged α) → Pc α
  | none => if nlst = 0 then .leaveNone else .claim nlst true
  | some v => .copy cur v

/-- One atomic step of the thread `t`, which is at `pc`. -/
def advance (w : World α) (t : ℕ) : Pc α → Option (World α)
  | .idle | .boxNew _ => none
  | .popPos v =>
    let (slot, recycle) := w.q.recycle.popPos
    some ((w.setRecycle recycle).setPc t (.popSwap slot v))
  | .popSwap slot v =>
    let (old, recycle) := w.q.recycle.swap slot 0
    some ((w.setRecycle recycle).setPc t (if old ≠ 0 then .reset .claimed old v else .boxNew v))
  | .reset f item v => do
    let w ← w.modify item (f.store v)
    some (w.setPc t (match f.after with
      | some f => .reset f item v
      | none => .bumpSent item v))
  | .bumpSent item v =>
    some ((w.setQ { w.q with sent := w.q.sent + 1 }).setPc t (.swapPtr item v))
  | .swapPtr item _ => some ((w.setQ { w.q with ptr := item }).setPc t (.linkNext item w.q.ptr))
  | .linkNext item oldhead => do
    let w ← w.modify item fun i => { i with next := oldhead }
    some (w.setPc t (.linkPrev item oldhead))
  | .linkPrev item oldhead =>
    if oldhead ≠ 0 then do
      let w ← w.modify oldhead fun i => { i with prev := item }
      some (w.setPc t .bumpLen)
    else some ((w.setQ { w.q with lst := item }).setPc t .bumpLen)
  | .bumpLen => some ((w.setQ { w.q with len := w.q.len + 1 }).setPc t .idle)
  | .enter => some ((w.setQ { w.q with rinside := w.q.rinside + 1 }).setPc t .loadLst)
  | .loadLst => some (w.setPc t (if w.q.lst = 0 then .idle else .testRel w.q.lst))
  | .testRel cur => do
    let i ← w.q.cells cur
    some (w.setPc t (if i.needrel then .casRel cur else .testAgain cur))
  | .casRel cur =>
    if w.q.doingrel then some (w.setPc t (.testAgain cur))
    else some ((w.setQ { w.q with doingrel := true }).setPc t (.tailFirst cur))
  | .tailFirst cur => do
    let i ← w.q.cells cur
    some (w.setPc t (tailLoop cur i.next))
  | .tailNext cur tail => do
    let i ← w.q.cells tail
    some (w.setPc t (.pushPos cur tail i.next))
  | .pushPos cur tail ncur =>
    let (slot, recycle) := w.q.recycle.pushPos
    some ((w.setRecycle recycle).setPc t (.pushSwap slot cur tail ncur))
  | .pushSwap slot cur tail ncur =>
    let (old, recycle) := w.q.recycle.swap slot tail
    some ((w.setRecycle recycle).setPc t
      (if old ≠ 0 then .pushFree cur old ncur else tailLoop cur ncur))
  | .pushFree cur old ncur =>
    some ((w.setCells (Function.update w.q.cells old none)).setPc t (tailLoop cur ncur))
  | .tailClear cur => do
    let w ← w.modify cur fun i => { i with next := 0 }
    some (w.setPc t (.endRel cur))
  | .endRel cur => some ((w.setQ { w.q with doingrel := false }).setPc t (.testAgain cur))
  | .testAgain cur => do
    let i ← w.q.cells cur
    some (w.setPc t (if i.needrel then .loadPrev cur none else .claim cur true))
  | .loadPrev cur v => do
    let i ← w.q.cells cur
    some (w.setPc t (if i.prev ≠ 0 then .advance cur i.prev v else afterLst cur 0 v))
  | .advance cur nlst v =>
    some ((if w.q.lst = cur then w.setQ { w.q with lst := nlst } else w).setPc t
      (afterLst cur nlst v))
  | .claim cur first => do
    let i ← w.q.cells cur
    if i.claimed then some (w.setPc t (.next cur))
    else some ((w.setCells (Function.update w.q.cells cur (some { i with claimed := true }))).setPc t
      (.dropLen cur first i.payload))
  | .dropLen cur first v =>
    some ((w.setQ { w.q with len := w.q.len - 1 }).setPc t
      (if first then .loadPrev cur (some v) else .copy cur v))
  | .copy cur _ => do
    let i ← w.q.cells cur
    some (w.setPc t (.markRel cur i.payload))
  | .markRel cur v => do
    let w ← w.modify cur fun i => { i with needrel := true }
    some (w.setPc t (.bumpRel v))
  | .bumpRel v => some ((w.setQ { w.q with needrel := w.q.needrel + 1 }).setPc t (.leave v))
  | .leave v =>
    some ({ w.setQ { w.q with rinside := w.q.rinside - 1 } with
      returned := w.returned ++ [v] }.setPc t .idle)
  | .next cur => do
    let i ← w.q.cells cur
    some (w.setPc t (if i.prev = 0 then .leaveNone else .claim i.prev false))
  | .leaveNone => some ((w.setQ { w.q with rinside := w.q.rinside - 1 }).setPc t .idle)

/-- A call can be started by a thread that is in none. -/
def start (w : World α) (t : ℕ) (pc : Pc α) : Option (World α) :=
  if w.threads[t]? matches some .idle then some (w.setPc t pc) else none

/-- The allocation of an item, at an address that is free. -/
def alloc (w : World α) (t : ℕ) (item : Ptr) : Pc α → Option (World α)
  | .boxNew v =>
    if item ≠ 0 ∧ w.q.cells item = none then
      some ((w.setQ { w.q with
        cells := Function.update w.q.cells item (some (Item.new v))
        asked := w.q.asked + 1 }).setPc t (.bumpSent item v))
    else none
  | _ => none

def step (w : World α) : Act α → Option (World α)
  | .put t v => { w with puts := w.puts ++ [v] }.start t (.popPos ⟨w.puts.length, v⟩)
  | .get t => w.start t .enter
  | .step t => (w.threads[t]?).bind (w.advance t)
  | .box t item => (w.threads[t]?).bind (w.alloc t item)

/-- A new queue and `n` threads. -/
def init (α : Type*) (n : ℕ) : World α where
  q := InfiniteLinkQueue.new
  threads := List.replicate n .idle
  puts := []
  returned := []

/-! ### Inversion -/

/-- **The steps that move only their thread and the counters**, with what they read. -/
inductive Local (q : InfiniteLinkQueue (Tagged α)) : Pc α → Pc α → Prop where
  | popPos {v slot} : Local q (.popPos v) (.popSwap slot v)
  | bumpSent {item v} : Local q (.bumpSent item v) (.swapPtr item v)
  | bumpLen : Local q .bumpLen .idle
  | enter : Local q .enter .loadLst
  | empty (h : q.lst = 0) : Local q .loadLst .idle
  | loadLst (h : q.lst ≠ 0) : Local q .loadLst (.testRel q.lst)
  | marked {cur} : Local q (.testRel cur) (.casRel cur)
  | unmarked {cur} : Local q (.testRel cur) (.testAgain cur)
  | busy {cur} : Local q (.casRel cur) (.testAgain cur)
  | tailFirst {cur i} (hi : q.cells cur = some i) : Local q (.tailFirst cur) (tailLoop cur i.next)
  | pushPos {slot cur tail ncur} : Local q (.pushPos cur tail ncur) (.pushSwap slot cur tail ncur)
  | testAgain {cur i} (hi : q.cells cur = some i) :
      Local q (.testAgain cur) (if i.needrel then .loadPrev cur none else .claim cur true)
  | loadPrev {cur v i} (hi : q.cells cur = some i) :
      Local q (.loadPrev cur v) (if i.prev ≠ 0 then .advance cur i.prev v else afterLst cur 0 v)
  | keepLst {cur nlst v} : Local q (.advance cur nlst v) (afterLst cur nlst v)
  | taken {cur first i} (hi : q.cells cur = some i) (hclaimed : i.claimed = true) :
      Local q (.claim cur first) (.next cur)
  | dropLen {cur first v} :
      Local q (.dropLen cur first v) (if first then .loadPrev cur (some v) else .copy cur v)
  | copy {cur v i} (hi : q.cells cur = some i) : Local q (.copy cur v) (.markRel cur i.payload)
  | bumpRel {v} : Local q (.bumpRel v) (.leave v)
  | next {cur i} (hi : q.cells cur = some i) :
      Local q (.next cur) (if i.prev = 0 then .leaveNone else .claim i.prev false)
  | leaveNone : Local q .leaveNone .idle

/-- **What one step can do.** -/
inductive Trans (w : World α) : Act α → World α → Prop where
  | startPut {t v} (ht : w.threads[t]? = some .idle) :
      Trans w (.put t v) ({ w with puts := w.puts ++ [v] }.setPc t (.popPos ⟨w.puts.length, v⟩))
  | startGet {t} (ht : w.threads[t]? = some .idle) : Trans w (.get t) (w.setPc t .enter)
  | stay {t pc pc'} (ht : w.threads[t]? = some pc) (hl : Local w.q pc pc')
      (rinside len sent needrel pos : UInt64) :
      Trans w (.step t) ((w.setQ { w.q with
        rinside := rinside, len := len, sent := sent, needrel := needrel
        recycle := { w.q.recycle with pos := pos } }).setPc t pc')
  | popSwap {t slot v} (ht : w.threads[t]? = some (.popSwap slot v)) :
      Trans w (.step t) ((w.setRecycle (w.q.recycle.swap slot 0).2).setPc t
        (if (w.q.recycle.swap slot 0).1 ≠ 0 then .reset .claimed (w.q.recycle.swap slot 0).1 v
         else .boxNew v))
  | box {t item v} (ht : w.threads[t]? = some (.boxNew v)) (hne : item ≠ 0)
      (hfree : w.q.cells item = none) :
      Trans w (.box t item) ((w.setQ { w.q with
        cells := Function.update w.q.cells item (some (Item.new v))
        asked := w.q.asked + 1 }).setPc t (.bumpSent item v))
  | reset {t f item v i} (ht : w.threads[t]? = some (.reset f item v))
      (hi : w.q.cells item = some i) :
      Trans w (.step t) ((w.setCells (Function.update w.q.cells item (some (f.store v i)))).setPc t
        (match f.after with
          | some f => .reset f item v
          | none => .bumpSent item v))
  | swapPtr {t item v} (ht : w.threads[t]? = some (.swapPtr item v)) :
      Trans w (.step t) ((w.setQ { w.q with ptr := item }).setPc t (.linkNext item w.q.ptr))
  | linkNext {t item oldhead i} (ht : w.threads[t]? = some (.linkNext item oldhead))
      (hi : w.q.cells item = some i) :
      Trans w (.step t) ((w.setCells
        (Function.update w.q.cells item (some { i with next := oldhead }))).setPc t
          (.linkPrev item oldhead))
  | linkPrev {t item oldhead i} (ht : w.threads[t]? = some (.linkPrev item oldhead))
      (hne : oldhead ≠ 0) (hi : w.q.cells oldhead = some i) :
      Trans w (.step t) ((w.setCells
        (Function.update w.q.cells oldhead (some { i with prev := item }))).setPc t .bumpLen)
  | linkLst {t item} (ht : w.threads[t]? = some (.linkPrev item 0)) :
      Trans w (.step t) ((w.setQ { w.q with lst := item }).setPc t .bumpLen)
  | casRel {t cur} (ht : w.threads[t]? = some (.casRel cur)) (hrel : w.q.doingrel = false) :
      Trans w (.step t) ((w.setQ { w.q with doingrel := true }).setPc t (.tailFirst cur))
  | tailNext {t cur tail i} (ht : w.threads[t]? = some (.tailNext cur tail))
      (hi : w.q.cells tail = some i) :
      Trans w (.step t) (w.setPc t (.pushPos cur tail i.next))
  | pushSwap {t slot cur tail ncur} (ht : w.threads[t]? = some (.pushSwap slot cur tail ncur)) :
      Trans w (.step t) ((w.setRecycle (w.q.recycle.swap slot tail).2).setPc t
        (if (w.q.recycle.swap slot tail).1 ≠ 0 then .pushFree cur (w.q.recycle.swap slot tail).1 ncur
         else tailLoop cur ncur))
  | pushFree {t cur old ncur} (ht : w.threads[t]? = some (.pushFree cur old ncur)) :
      Trans w (.step t) ((w.setCells (Function.update w.q.cells old none)).setPc t
        (tailLoop cur ncur))
  | tailClear {t cur i} (ht : w.threads[t]? = some (.tailClear cur))
      (hi : w.q.cells cur = some i) :
      Trans w (.step t) ((w.setCells
        (Function.update w.q.cells cur (some { i with next := 0 }))).setPc t (.endRel cur))
  | endRel {t cur} (ht : w.threads[t]? = some (.endRel cur)) :
      Trans w (.step t) ((w.setQ { w.q with doingrel := false }).setPc t (.testAgain cur))
  | moveLst {t nlst v} (ht : w.threads[t]? = some (.advance w.q.lst nlst v)) :
      Trans w (.step t) ((w.setQ { w.q with lst := nlst }).setPc t (afterLst w.q.lst nlst v))
  | claim {t cur first i} (ht : w.threads[t]? = some (.claim cur first))
      (hi : w.q.cells cur = some i) (hclaimed : i.claimed = false) :
      Trans w (.step t) ((w.setCells
        (Function.update w.q.cells cur (some { i with claimed := true }))).setPc t
          (.dropLen cur first i.payload))
  | markRel {t cur v i} (ht : w.threads[t]? = some (.markRel cur v))
      (hi : w.q.cells cur = some i) :
      Trans w (.step t) ((w.setCells
        (Function.update w.q.cells cur (some { i with needrel := true }))).setPc t (.bumpRel v))
  | leave {t v} (ht : w.threads[t]? = some (.leave v)) :
      Trans w (.step t) ({ w.setQ { w.q with rinside := w.q.rinside - 1 } with
        returned := w.returned ++ [v] }.setPc t .idle)

theorem start_eq_some {w w' : World α} {t : ℕ} {pc : Pc α} (h : w.start t pc = some w') :
    w.threads[t]? = some .idle ∧ w' = w.setPc t pc := by
  unfold start at h
  split at h
  · rename_i hidle
    refine ⟨?_, (Option.some.inj h).symm⟩
    revert hidle
    rcases w.threads[t]? with _ | pc
    · intro hidle
      cases hidle
    · cases pc <;> simp
  · cases h

/-- A store through a pointer, and what is done after it. -/
theorem modify_bind_eq_some {w w' : World α} {p : Ptr} {f : Item (Tagged α) → Item (Tagged α)}
    {k : World α → Option (World α)} (h : (w.modify p f).bind k = some w') :
    ∃ i, w.q.cells p = some i ∧
      k (w.setCells (Function.update w.q.cells p (some (f i)))) = some w' := by
  obtain ⟨w₁, hmodify, hrest⟩ := Option.bind_eq_some_iff.mp h
  obtain ⟨cells, hcells, rfl⟩ := Option.map_eq_some_iff.mp hmodify
  obtain ⟨i, hi, rfl⟩ := Option.map_eq_some_iff.mp hcells
  exact ⟨i, hi, hrest⟩

theorem advance_trans {w w' : World α} {t : ℕ} {pc : Pc α} (ht : w.threads[t]? = some pc)
    (h : w.advance t pc = some w') : Trans w (.step t) w' := by
  cases pc with
  | idle | boxNew v => cases h
  | popPos v =>
    cases h
    exact .stay ht .popPos _ _ _ _ _
  | popSwap slot v =>
    cases h
    exact .popSwap ht
  | reset f item v =>
    obtain ⟨i, hi, h⟩ := modify_bind_eq_some h
    cases h
    exact .reset ht hi
  | bumpSent item v =>
    cases h
    exact .stay ht .bumpSent _ _ _ _ _
  | swapPtr item v =>
    cases h
    exact .swapPtr ht
  | linkNext item oldhead =>
    obtain ⟨i, hi, h⟩ := modify_bind_eq_some h
    cases h
    exact .linkNext ht hi
  | linkPrev item oldhead =>
    by_cases hne : oldhead = 0
    · subst hne
      cases h
      exact .linkLst ht
    · simp only [advance, ne_eq, hne, not_false_eq_true, if_true] at h
      obtain ⟨i, hi, h⟩ := modify_bind_eq_some h
      cases h
      exact .linkPrev ht hne hi
  | bumpLen =>
    cases h
    exact .stay ht .bumpLen _ _ _ _ _
  | enter =>
    cases h
    exact .stay ht .enter _ _ _ _ _
  | loadLst =>
    cases h
    by_cases h0 : w.q.lst = 0
    · rw [if_pos h0]
      exact .stay ht (.empty h0) _ _ _ _ _
    · rw [if_neg h0]
      exact .stay ht (.loadLst h0) _ _ _ _ _
  | testRel cur =>
    obtain ⟨i, hi, h⟩ := Option.bind_eq_some_iff.mp h
    cases h
    split
    · exact .stay ht .marked _ _ _ _ _
    · exact .stay ht .unmarked _ _ _ _ _
  | casRel cur =>
    cases hrel : w.q.doingrel with
    | true =>
      simp only [advance, hrel, if_true] at h
      cases h
      exact .stay ht .busy _ _ _ _ _
    | false =>
      simp only [advance, hrel] at h
      cases h
      exact .casRel ht hrel
  | tailFirst cur =>
    obtain ⟨i, hi, h⟩ := Option.bind_eq_some_iff.mp h
    cases h
    exact .stay ht (.tailFirst hi) _ _ _ _ _
  | tailNext cur tail =>
    obtain ⟨i, hi, h⟩ := Option.bind_eq_some_iff.mp h
    cases h
    exact .tailNext ht hi
  | pushPos cur tail ncur =>
    cases h
    exact .stay ht .pushPos _ _ _ _ _
  | pushSwap slot cur tail ncur =>
    cases h
    exact .pushSwap ht
  | pushFree cur old ncur =>
    cases h
    exact .pushFree ht
  | tailClear cur =>
    obtain ⟨i, hi, h⟩ := modify_bind_eq_some h
    cases h
    exact .tailClear ht hi
  | endRel cur =>
    cases h
    exact .endRel ht
  | testAgain cur =>
    obtain ⟨i, hi, h⟩ := Option.bind_eq_some_iff.mp h
    cases h
    exact .stay ht (.testAgain hi) _ _ _ _ _
  | loadPrev cur v =>
    obtain ⟨i, hi, h⟩ := Option.bind_eq_some_iff.mp h
    cases h
    exact .stay ht (.loadPrev hi) _ _ _ _ _
  | advance cur nlst v =>
    cases h
    by_cases hlst : w.q.lst = cur
    · subst hlst
      rw [if_pos rfl]
      exact .moveLst ht
    · rw [if_neg hlst]
      exact .stay ht .keepLst _ _ _ _ _
  | claim cur first =>
    obtain ⟨i, hi, h⟩ := Option.bind_eq_some_iff.mp h
    cases hclaimed : i.claimed with
    | true =>
      simp only [hclaimed, if_true] at h
      cases h
      exact .stay ht (.taken hi hclaimed) _ _ _ _ _
    | false =>
      simp only [hclaimed] at h
      cases h
      exact .claim ht hi hclaimed
  | dropLen cur first v =>
    cases h
    exact .stay ht .dropLen _ _ _ _ _
  | copy cur v =>
    obtain ⟨i, hi, h⟩ := Option.bind_eq_some_iff.mp h
    cases h
    exact .stay ht (.copy hi) _ _ _ _ _
  | markRel cur v =>
    obtain ⟨i, hi, h⟩ := modify_bind_eq_some h
    cases h
    exact .markRel ht hi
  | bumpRel v =>
    cases h
    exact .stay ht .bumpRel _ _ _ _ _
  | leave v =>
    cases h
    exact .leave ht
  | next cur =>
    obtain ⟨i, hi, h⟩ := Option.bind_eq_some_iff.mp h
    cases h
    exact .stay ht (.next hi) _ _ _ _ _
  | leaveNone =>
    cases h
    exact .stay ht .leaveNone _ _ _ _ _

theorem alloc_trans {w w' : World α} {t : ℕ} {item : Ptr} {pc : Pc α} (ht : w.threads[t]? = some pc)
    (h : w.alloc t item pc = some w') : Trans w (.box t item) w' := by
  cases pc with
  | boxNew v =>
    by_cases hfree : item ≠ 0 ∧ w.q.cells item = none
    · rw [alloc, if_pos hfree] at h
      cases h
      exact .box ht hfree.1 hfree.2
    · rw [alloc, if_neg hfree] at h
      cases h
  | _ => cases h

/-- **Inversion of a step.** -/
theorem step_trans {w w' : World α} {a : Act α} (h : w.step a = some w') : Trans w a w' := by
  cases a with
  | put t v =>
    obtain ⟨ht, rfl⟩ := start_eq_some h
    exact .startPut ht
  | get t =>
    obtain ⟨ht, rfl⟩ := start_eq_some h
    exact .startGet ht
  | step t =>
    obtain ⟨pc, ht, h⟩ := Option.bind_eq_some_iff.mp h
    exact advance_trans ht h
  | box t item =>
    obtain ⟨pc, ht, h⟩ := Option.bind_eq_some_iff.mp h
    exact alloc_trans ht h

end World

end WaterNet.Queue.Link
