import Mathlib.Logic.Function.Basic
import WaterNet.Lib.Fifo

/-!
# `InfiniteLinkQueue` (`queue.rs`)

The queue is a list of heap cells.  `next` of a cell is the one put before it and `prev` the one put
after it; `ptr` is the newest cell, and `lst` a cell from which the oldest value can be reached by
way of `prev`.  A get claims a cell, and the cells behind `lst` are recycled by `taildealloc`, which
pushes them into a `PointerCache` that put pops its cells from.  A method that dereferences an
address without a cell returns `none`.

* `PointerCache.pop`, `PointerCache.push` — the cache, each made of its two atomic operations;
* `InfiniteLinkQueue.put`, `get`, `taildealloc` — the calls, run without interruption;
  `get_cases` — what a get that is not stuck did;
* `PointerCache.Caches` — what a cache in use looks like; `Caches.pop`, `Caches.push` keep it.
-/

namespace WaterNet.Queue

open Lib
open Lib.Fifo (Call)

variable {α : Type*}

/-- An address; 0 is the null pointer. -/
abbrev Ptr := ℕ

/-- `Item`. -/
structure Item (α : Type*) where
  next : Ptr
  prev : Ptr
  claimed : Bool
  needrel : Bool
  payload : α
  deriving DecidableEq, Repr

/-- The item of a put, before it is linked. -/
def Item.new (t : α) : Item α :=
  { next := 0, prev := 0, claimed := false, needrel := false, payload := t }

/-- The heap, as far as items go: the item at each address that is allocated. -/
abbrev Cells (α : Type*) := Ptr → Option (Item α)

/-- A store through a pointer. -/
def Cells.modify (cells : Cells α) (p : Ptr) (f : Item α → Item α) : Option (Cells α) :=
  (cells p).map fun i => Function.update cells p (some (f i))

/-- The allocator: asked the `n`-th time, it returns the address of a free cell if there is one. -/
structure Allocator (α : Type*) where
  alloc : ℕ → Cells α → Ptr
  fresh : ∀ n cells p, p ≠ 0 → cells p = none →
    alloc n cells ≠ 0 ∧ cells (alloc n cells) = none

open Classical in
/-- There are allocators. -/
noncomputable instance : Inhabited (Allocator α) :=
  ⟨{ alloc := fun _ cells => if h : ∃ p, p ≠ 0 ∧ cells p = none then h.choose else 0
     fresh := fun _ cells p hp hfree => by
      have h : ∃ p, p ≠ 0 ∧ cells p = none := ⟨p, hp, hfree⟩
      rw [dif_pos h]
      exact h.choose_spec }⟩

/-! ### The cache -/

structure PointerCache where
  block : List Ptr
  mask : UInt64
  pos : UInt64
  deriving DecidableEq, Repr

namespace PointerCache

/-- `PointerCache::new`. -/
def new (bsize : UInt64) : PointerCache :=
  let mask : UInt64 := ~~~(~~~0 <<< bsize)
  { block := List.replicate (mask.toNat + 1) 0, mask := mask, pos := 0 }

/-- The `pos.fetch_sub` of `pop`, and the slot it leads to. -/
def popPos (c : PointerCache) : ℕ × PointerCache :=
  (((c.pos - 1) &&& c.mask).toNat, { c with pos := c.pos - 1 })

/-- The `pos.fetch_add` of `push`, and the slot it leads to. -/
def pushPos (c : PointerCache) : ℕ × PointerCache :=
  ((c.pos &&& c.mask).toNat, { c with pos := c.pos + 1 })

/-- `swap` on a slot: the address that was there, and the cache after it. -/
def swap (c : PointerCache) (slot : ℕ) (new : Ptr) : Ptr × PointerCache :=
  (c.block.getD slot 0, { c with block := c.block.set slot new })

/-- `PointerCache::pop`; 0 is `None`. -/
def pop (c : PointerCache) : Ptr × PointerCache :=
  let (slot, c) := c.popPos
  c.swap slot 0

/-- `PointerCache::push`: what it displaces is deallocated. -/
def push (c : PointerCache) (cells : Cells α) (new : Ptr) : PointerCache × Cells α :=
  let (slot, c) := c.pushPos
  let (old, c) := c.swap slot new
  (c, if old ≠ 0 then Function.update cells old none else cells)

/-- **A cache in use**: its slots hold different cells, which are allocated and none of `nodes`. -/
structure Caches (c : PointerCache) (cells : Cells α) (nodes : List Ptr) : Prop where
  length : c.block.length = c.mask.toNat + 1
  apart : ∀ slot p : ℕ, c.block[slot]? = some p → p ≠ 0 → p ∉ nodes ∧ (cells p).isSome = true
  distinct : ∀ slot slot' p : ℕ, c.block[slot]? = some p → c.block[slot']? = some p → p ≠ 0 →
    slot = slot'

theorem and_toNat_lt (x mask : UInt64) : (x &&& mask).toNat < mask.toNat + 1 := by
  rw [UInt64.toNat_and]
  exact Nat.lt_succ_of_le Nat.and_le_right

theorem new_caches (bsize : UInt64) (cells : Cells α) (nodes : List Ptr) :
    (new bsize).Caches cells nodes := by
  have hzero : ∀ slot p : ℕ, (new bsize).block[slot]? = some p → p = 0 := by
    intro slot p h
    exact List.eq_of_mem_replicate (List.mem_of_getElem? h)
  refine ⟨by simp [new], fun slot p h hp => ?_, fun slot slot' p h _ hp => ?_⟩
  · exact absurd (hzero slot p h) hp
  · exact absurd (hzero slot p h) hp

namespace Caches

variable {c : PointerCache} {cells cells' : Cells α} {nodes nodes' : List Ptr}

/-- The cache does not notice changes to other cells. -/
theorem congr (h : c.Caches cells nodes)
    (happart : ∀ slot p : ℕ, c.block[slot]? = some p → p ≠ 0 →
      p ∉ nodes' ∧ (cells' p).isSome = true) : c.Caches cells' nodes' :=
  ⟨h.length, happart, h.distinct⟩

/-- A cell that is in no slot may be filled and join the list. -/
theorem update {item : Ptr} (h : c.Caches cells nodes) (i : Item α)
    (hnot : ∀ slot p : ℕ, c.block[slot]? = some p → p ≠ 0 → p ∉ nodes' ++ [item]) :
    c.Caches (Function.update cells item (some i)) (nodes' ++ [item]) := by
  refine h.congr fun slot p hslot hp => ?_
  have hne : p ≠ item := fun heq => hnot slot p hslot hp (by simp [heq])
  refine ⟨hnot slot p hslot hp, ?_⟩
  rw [Function.update_of_ne hne]
  exact (h.apart slot p hslot hp).2

/-- What a slot holds after another address was swapped into one. -/
theorem getElem?_set {block : List Ptr} {slot slot' : ℕ} {new p : Ptr}
    (h : (block.set slot new)[slot']? = some p) :
    slot' = slot ∧ p = new ∨ slot' ≠ slot ∧ block[slot']? = some p := by
  rw [List.getElem?_set] at h
  split at h
  · rename_i heq
    split at h
    · exact Or.inl ⟨heq.symm, (Option.some.inj h).symm⟩
    · cases h
  · rename_i hne
    exact Or.inr ⟨Ne.symm hne, h⟩

/-- **A pop** finds nothing, or a cell that is in no list and leaves the cache. -/
theorem pop (h : c.Caches cells nodes) :
    (c.pop.1 ≠ 0 → c.pop.1 ∉ nodes ∧ (cells c.pop.1).isSome = true) ∧
      c.pop.2.Caches cells (nodes ++ [c.pop.1]) := by
  have hlt : ((c.pos - 1) &&& c.mask).toNat < c.block.length := by
    rw [h.length]
    exact and_toNat_lt _ _
  have hget : c.block[((c.pos - 1) &&& c.mask).toNat]? = some c.pop.1 := by
    show _ = some (c.block.getD _ 0)
    rw [List.getD_eq_getElem?_getD, List.getElem?_eq_getElem hlt, Option.getD_some]
  refine ⟨fun hp => h.apart _ _ hget hp, ⟨?_, fun slot p hslot hp => ?_, fun i j p hi hj hp => ?_⟩⟩
  · show (c.block.set _ 0).length = _
    rw [List.length_set]
    exact h.length
  · rcases getElem?_set hslot with ⟨-, rfl⟩ | ⟨hne, hold⟩
    · exact absurd rfl hp
    · obtain ⟨hnot, hsome⟩ := h.apart slot p hold hp
      refine ⟨fun hmem => ?_, hsome⟩
      rcases List.mem_append.mp hmem with hmem | hmem
      · exact hnot hmem
      · -- the cell that left the cache was in one slot only
        rw [List.mem_singleton] at hmem
        exact hne (h.distinct slot _ p hold (hmem ▸ hget) hp)
  · rcases getElem?_set hi with ⟨-, rfl⟩ | ⟨-, hi⟩
    · exact absurd rfl hp
    · rcases getElem?_set hj with ⟨-, rfl⟩ | ⟨-, hj⟩
      · exact absurd rfl hp
      · exact h.distinct i j p hi hj hp

/-- **A push** takes a cell out of the list and deallocates at most a cell that was in no list. -/
theorem push {l₁ l₂ : List Ptr} {new : Ptr} (h : c.Caches cells (l₁ ++ new :: l₂))
    (hnd : (l₁ ++ new :: l₂).Nodup) (hnew : (cells new).isSome = true) :
    (c.push cells new).1.Caches (c.push cells new).2 (l₁ ++ l₂) ∧
      (∀ p ∈ l₁ ++ new :: l₂, (c.push cells new).2 p = cells p) ∧
      ∀ p, (c.push cells new).2 p = cells p ∨ (c.push cells new).2 p = none := by
  have hlt : (c.pos &&& c.mask).toNat < c.block.length := by
    rw [h.length]
    exact and_toNat_lt _ _
  obtain ⟨old, hold⟩ : ∃ old, c.block[(c.pos &&& c.mask).toNat]? = some old :=
    ⟨_, List.getElem?_eq_getElem hlt⟩
  have hgetD : c.block.getD (c.pos &&& c.mask).toNat 0 = old := by
    rw [List.getD_eq_getElem?_getD, hold, Option.getD_some]
  have hpush : c.push cells new = ({ c with
      block := c.block.set (c.pos &&& c.mask).toNat new, pos := c.pos + 1 },
      if old ≠ 0 then Function.update cells old none else cells) := by
    simp only [PointerCache.push, pushPos, swap, hgetD]
  rw [hpush]
  have hsame : ∀ p, p ≠ old → (if old ≠ 0 then Function.update cells old none else cells) p =
      cells p := by
    intro p hp
    split
    · exact Function.update_of_ne hp _ _
    · rfl
  have hnotnew : new ∉ l₁ ++ l₂ :=
    (List.nodup_cons.mp (List.perm_middle.nodup_iff.mp hnd)).1
  have hkept : ∀ p ∈ l₁ ++ new :: l₂,
      (if old ≠ 0 then Function.update cells old none else cells) p = cells p := by
    intro p hp
    by_cases h0 : old = 0
    · rw [if_neg (not_not.mpr h0)]
    · exact hsame p fun heq => (h.apart _ old hold h0).1 (heq ▸ hp)
  refine ⟨⟨?_, fun slot p hslot hp => ?_, fun i j p hi hj hp => ?_⟩, hkept, fun p => ?_⟩
  · show (c.block.set _ new).length = _
    rw [List.length_set]
    exact h.length
  · rcases getElem?_set hslot with ⟨-, rfl⟩ | ⟨hne, hslot⟩
    · exact ⟨hnotnew, (congrArg Option.isSome (hkept p (by simp))).trans hnew⟩
    · obtain ⟨hnot, hsome⟩ := h.apart slot p hslot hp
      refine ⟨fun hmem => hnot ?_, ?_⟩
      · simp only [List.mem_append, List.mem_cons] at hmem ⊢
        tauto
      · have hother : p ≠ old := fun heq => hne (h.distinct slot _ p hslot (heq ▸ hold) hp)
        exact (congrArg Option.isSome (hsame p hother)).trans hsome
  · have hout : ∀ slot : ℕ, c.block[slot]? = some new → new ≠ 0 → False := by
      intro slot hslot hne
      exact (h.apart slot new hslot hne).1 (by simp)
    rcases getElem?_set hi with ⟨hslot, rfl⟩ | ⟨-, hin⟩
    · rcases getElem?_set hj with ⟨hslot', -⟩ | ⟨-, hin'⟩
      · exact hslot.trans hslot'.symm
      · exact absurd hp (hout j hin')
    · rcases getElem?_set hj with ⟨-, rfl⟩ | ⟨-, hin'⟩
      · exact absurd hp (hout i hin)
      · exact h.distinct i j p hin hin' hp
  · by_cases hp : p = old
    · by_cases h0 : old = 0
      · exact Or.inl (congrFun (if_neg (not_not.mpr h0)) p)
      · refine Or.inr ?_
        show (if old ≠ 0 then Function.update cells old none else cells) p = none
        rw [if_pos h0, hp, Function.update_self]
    · exact Or.inl (hsame p hp)

end Caches

end PointerCache

/-! ### The queue -/

/-- `asked` is a history variable: how often the allocator was asked. -/
structure InfiniteLinkQueue (α : Type*) where
  cells : Cells α
  asked : ℕ
  ptr : Ptr
  lst : Ptr
  rinside : UInt64
  len : UInt64
  sent : UInt64
  needrel : UInt64
  doingrel : Bool
  recycle : PointerCache

namespace InfiniteLinkQueue

/-- `InfiniteLinkQueue::new`. -/
def new : InfiniteLinkQueue α :=
  { cells := fun _ => none, asked := 0, ptr := 0, lst := 0, rinside := 0, len := 0, sent := 0
    needrel := 0, doingrel := false, recycle := PointerCache.new 10 }

/-- The item of a put: one from the cache with all its fields stored anew, or a new one. -/
def newItem (al : Allocator α) (q : InfiniteLinkQueue α) (t : α) :
    Option (Ptr × InfiniteLinkQueue α) :=
  match q.recycle.pop with
  | (0, recycle) =>
    let item := al.alloc q.asked q.cells
    some (item, { q with
      recycle := recycle, asked := q.asked + 1
      cells := Function.update q.cells item (some (Item.new t)) })
  | (item, recycle) => do
    let cells ← q.cells.modify item fun i =>
      { i with claimed := false, needrel := false, next := 0, prev := 0, payload := t }
    some (item, { q with recycle := recycle, cells := cells })

/-- `put` from its `sent.fetch_add` on. -/
def link (q : InfiniteLinkQueue α) (item : Ptr) : Option (InfiniteLinkQueue α) := do
  let q := { q with sent := q.sent + 1 }
  let oldhead := q.ptr
  let q := { q with ptr := item }
  let cells ← q.cells.modify item fun i => { i with next := oldhead }
  let q := { q with cells := cells }
  let q ←
    if oldhead ≠ 0 then do
      let cells ← q.cells.modify oldhead fun i => { i with prev := item }
      some { q with cells := cells }
    else some { q with lst := item }
  some { q with len := q.len + 1 }

/-- `InfiniteLinkQueue::put`. -/
def put (al : Allocator α) (q : InfiniteLinkQueue α) (t : α) : Option (InfiniteLinkQueue α) := do
  let (item, q) ← q.newItem al t
  q.link item

/-- The loop of `taildealloc`; `none` is also more rounds than `fuel`. -/
def taildeallocLoop : ℕ → InfiniteLinkQueue α → Ptr → Option (InfiniteLinkQueue α)
  | 0, _, _ => none
  | fuel + 1, q, cur =>
    if cur = 0 then some q
    else do
      let i ← q.cells cur
      let (recycle, cells) := q.recycle.push q.cells cur
      taildeallocLoop fuel { q with recycle := recycle, cells := cells } i.next

/-- `InfiniteLinkQueue::taildealloc`; there are never more items than were allocated. -/
def taildealloc (q : InfiniteLinkQueue α) (after : Ptr) : Option (InfiniteLinkQueue α) := do
  let i ← q.cells after
  let q ← taildeallocLoop (q.asked + 1) q i.next
  let cells ← q.cells.modify after fun i => { i with next := 0 }
  some { q with cells := cells }

/-- `lst.compare_and_swap(cur, nlst)`, unless `nlst` is null. -/
def advanceLst (q : InfiniteLinkQueue α) (cur nlst : Ptr) : InfiniteLinkQueue α :=
  if nlst ≠ 0 ∧ q.lst = cur then { q with lst := nlst } else q

/-- The loop of `get`, which follows `prev` to an item that nobody has claimed. -/
def claimLoop : ℕ → InfiniteLinkQueue α → Ptr → Bool → Option (Option α × InfiniteLinkQueue α)
  | 0, _, _, _ => none
  | fuel + 1, q, cur, first =>
    if cur = 0 then some (none, { q with rinside := q.rinside - 1 })
    else do
      let i ← q.cells cur
      if i.claimed then claimLoop fuel q i.prev false
      else
        let q := { q with
          cells := Function.update q.cells cur (some { i with claimed := true })
          len := q.len - 1 }
        let q := if first then q.advanceLst cur i.prev else q
        some (some i.payload, { q with
          cells := Function.update q.cells cur (some { i with claimed := true, needrel := true })
          needrel := q.needrel + 1, rinside := q.rinside - 1 })

/-- The release at the head of `get`, when the item at `lst` was consumed: nobody else releases. -/
def release (q : InfiniteLinkQueue α) (cur : Ptr) : Option (InfiniteLinkQueue α) :=
  if q.doingrel then some q
  else do
    let q ← { q with doingrel := true }.taildealloc cur
    some { q with doingrel := false }

/-- `InfiniteLinkQueue::get`. -/
def get (q : InfiniteLinkQueue α) : Option (Option α × InfiniteLinkQueue α) := do
  let q := { q with rinside := q.rinside + 1 }
  let cur := q.lst
  if cur = 0 then some (none, q)
  else do
    let i ← q.cells cur
    let q ← if i.needrel then q.release cur else some q
    let i ← q.cells cur
    if i.needrel then (q.advanceLst cur i.prev).claimLoop (q.asked + 1) i.prev true
    else q.claimLoop (q.asked + 1) cur true

/-- **What a get does**: it leaves at once, or it releases the node at `lst` if that is marked, and
then claims a node. -/
theorem get_cases {q q' : InfiniteLinkQueue α} {t : Option α} (h : q.get = some (t, q')) :
    (q.lst = 0 ∧ t = none ∧ q' = { q with rinside := q.rinside + 1 }) ∨
      (q.lst ≠ 0 ∧ ∃ i q₁ i₁, q.cells q.lst = some i ∧
        (if i.needrel then { q with rinside := q.rinside + 1 }.release q.lst
          else some { q with rinside := q.rinside + 1 }) = some q₁ ∧
        q₁.cells q.lst = some i₁ ∧
        (if i₁.needrel then (q₁.advanceLst q.lst i₁.prev).claimLoop (q₁.asked + 1) i₁.prev true
          else q₁.claimLoop (q₁.asked + 1) q.lst true) = some (t, q')) := by
  by_cases h0 : q.lst = 0
  · simp only [get, h0, if_true] at h
    cases h
    exact Or.inl ⟨h0, rfl, by rw [h0]⟩
  · simp only [get, h0, if_false] at h
    obtain ⟨i, hi, h⟩ := Option.bind_eq_some_iff.mp h
    refine Or.inr ⟨h0, i, ?_⟩
    cases hrel : i.needrel with
    | true =>
      rw [if_pos hrel] at h
      obtain ⟨q₁, hq₁, h⟩ := Option.bind_eq_some_iff.mp h
      obtain ⟨i₁, hi₁, h⟩ := Option.bind_eq_some_iff.mp h
      exact ⟨q₁, i₁, hi, hq₁, hi₁, h⟩
    | false =>
      rw [if_neg (by simp [hrel])] at h
      obtain ⟨q₁, hq₁, h⟩ := Option.bind_eq_some_iff.mp h
      obtain ⟨i₁, hi₁, h⟩ := Option.bind_eq_some_iff.mp h
      exact ⟨q₁, i₁, hi, hq₁, hi₁, h⟩

/-- One call and its answer; a put answers nothing. -/
def call (al : Allocator α) (q : InfiniteLinkQueue α) :
    Call α → Option (Option α × InfiniteLinkQueue α)
  | .put t => (q.put al t).map fun q => (none, q)
  | .get => q.get

end InfiniteLinkQueue

end WaterNet.Queue
