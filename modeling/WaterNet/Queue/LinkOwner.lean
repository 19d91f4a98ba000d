import Mathlib.Data.List.Range
import WaterNet.Queue.Cache
import WaterNet.Queue.LinkFifo

/-!
# Who owns the nodes of `InfiniteLinkQueue` (`queue.rs`)

The calls once more, with a check before every read and write of a node: the node is allocated and
in no slot of the cache.  A call that fails the check gets stuck.  The calls also report the nodes
they allocate and deallocate, from which a history is kept: a node is identified by the number of
its allocation, so an address that is allocated again is another node.

* `Watched.put`, `Watched.get`, `Watched.deallocall` — the calls with the check;
  `Holds.put_watched`, `Holds.get_watched` — such a call is not stuck, and it is the call;
* `reachable` — the list that starts at `ptr`;
* `Owned` — every node is linked, cached or deallocated;
* `nodes_owned_once` — **no call is ever stuck, each node is in one of the three places between the
  calls, and dropping the queue deallocates each node once**.
-/

namespace WaterNet.Queue.InfiniteLinkQueue

open Lib
open Lib.Fifo (Call)

variable {α : Type*}

/-! ### The checked calls -/

namespace Watched

/-- The item at an address, which must be allocated and not cached. -/
def deref (q : InfiniteLinkQueue α) (p : Ptr) : Option (Item α) :=
  if p ∈ q.recycle.block then none else q.cells p

/-- A store through a pointer to such an item. -/
def store (q : InfiniteLinkQueue α) (p : Ptr) (f : Item α → Item α) :
    Option (InfiniteLinkQueue α) := do
  let i ← deref q p
  some { q with cells := Function.update q.cells p (some (f i)) }

/-- The item of a put, and what was allocated for it. -/
def newItem (al : Allocator α) (q : InfiniteLinkQueue α) (t : α) :
    Option (Ptr × InfiniteLinkQueue α × List Ptr) :=
  match q.recycle.pop with
  | (0, recycle) =>
    let item := al.alloc q.asked q.cells
    some (item, { q with
      recycle := recycle, asked := q.asked + 1
      cells := Function.update q.cells item (some (Item.new t)) }, [item])
  | (item, recycle) => do
    let q ← store { q with recycle := recycle } item fun i =>
      { i with claimed := false, needrel := false, next := 0, prev := 0, payload := t }
    some (item, q, [])

def link (q : InfiniteLinkQueue α) (item : Ptr) : Option (InfiniteLinkQueue α) := do
  let q := { q with sent := q.sent + 1 }
  let oldhead := q.ptr
  let q := { q with ptr := item }
  let q ← store q item fun i => { i with next := oldhead }
  let q ←
    if oldhead ≠ 0 then store q oldhead fun i => { i with prev := item }
    else some { q with lst := item }
  some { q with len := q.len + 1 }

/-- `put`, and what it allocates. -/
def put (al : Allocator α) (q : InfiniteLinkQueue α) (t : α) :
    Option (InfiniteLinkQueue α × List Ptr) := do
  let (item, q, allocated) ← newItem al q t
  let q ← link q item
  some (q, allocated)

/-- The loop of `taildealloc`, and what it deallocates. -/
def taildeallocLoop : ℕ → InfiniteLinkQueue α → Ptr → Option (InfiniteLinkQueue α × List Ptr)
  | 0, _, _ => none
  | fuel + 1, q, cur =>
    if cur = 0 then some (q, [])
    else do
      let i ← deref q cur
      let (q', freed) ← taildeallocLoop fuel (q.pushed cur) i.next
      some (q', q.recycle.evicted ++ freed)

def taildealloc (q : InfiniteLinkQueue α) (after : Ptr) :
    Option (InfiniteLinkQueue α × List Ptr) := do
  let i ← deref q after
  let (q, freed) ← taildeallocLoop (q.asked + 1) q i.next
  let q ← store q after fun i => { i with next := 0 }
  some (q, freed)

def claimLoop : ℕ → InfiniteLinkQueue α → Ptr → Bool → Option (Option α × InfiniteLinkQueue α)
  | 0, _, _, _ => none
  | fuel + 1, q, cur, first =>
    if cur = 0 then some (none, { q with rinside := q.rinside - 1 })
    else do
      let i ← deref q cur
      if i.claimed then claimLoop fuel q i.prev false
      else
        let q := { q with
          cells := Function.update q.cells cur (some { i with claimed := true })
          len := q.len - 1 }
        let q := if first then q.advanceLst cur i.prev else q
        some (some i.payload, { q with
          cells := Function.update q.cells cur (some { i with claimed := true, needrel := true })
          needrel := q.needrel + 1, rinside := q.rinside - 1 })

def release (q : InfiniteLinkQueue α) (cur : Ptr) : Option (InfiniteLinkQueue α × List Ptr) :=
  if q.doingrel then some (q, [])
  else do
    let (q, freed) ← taildealloc { q with doingrel := true } cur
    some ({ q with doingrel := false }, freed)

/-- `get`, and what it deallocates. -/
def get (q : InfiniteLinkQueue α) : Option (Option α × InfiniteLinkQueue α × List Ptr) := do
  let q := { q with rinside := q.rinside + 1 }
  let cur := q.lst
  if cur = 0 then some (none, q, [])
  else do
    let i ← deref q cur
    let (q, freed) ← if i.needrel then release q cur else some (q, [])
    let i ← deref q cur
    let (t, q) ←
      if i.needrel then claimLoop (q.asked + 1) (q.advanceLst cur i.prev) i.prev true
      else claimLoop (q.asked + 1) q cur true
    some (t, q, freed)

/-- The loop of `deallocall`, which counts its rounds. -/
def deallocallLoop : ℕ → InfiniteLinkQueue α → Ptr → UInt64 →
    Option (InfiniteLinkQueue α × List Ptr × UInt64)
  | 0, _, _, _ => none
  | fuel + 1, q, cur, cnt =>
    if cur = 0 then some (q, [], cnt)
    else do
      let i ← deref q cur
      let (q', freed, cnt) ← deallocallLoop fuel (q.pushed cur) i.next (cnt + 1)
      some (q', q.recycle.evicted ++ freed, cnt)

/-- `InfiniteLinkQueue::deallocall`, and what it deallocates. -/
def deallocall (q : InfiniteLinkQueue α) : Option (InfiniteLinkQueue α × List Ptr) := do
  let after := q.ptr
  let q := { q with ptr := 0, lst := 0 }
  let (q, freed, cnt) ← deallocallLoop (q.asked + 1) q after 0
  some ({ q with needrel := q.needrel - cnt }, freed)

/-! ### A check that is passed changes nothing -/

theorem deref_eq {q : InfiniteLinkQueue α} {p : Ptr} (hp : p ∉ q.recycle.block) :
    deref q p = q.cells p :=
  if_neg hp

theorem store_eq {q : InfiniteLinkQueue α} {p : Ptr} (hp : p ∉ q.recycle.block)
    (f : Item α → Item α) :
    store q p f = (q.cells.modify p f).map fun cells => { q with cells := cells } := by
  unfold store
  rw [deref_eq hp, Cells.modify]
  cases q.cells p with
  | none => rfl
  | some i => rfl

/-- A node is in no slot of the cache. -/
theorem notMem_block {q : InfiniteLinkQueue α} {nodes : List Ptr} {p : Ptr}
    (hcaches : q.recycle.Caches q.cells nodes) (hp : p ∈ nodes) (hne : p ≠ 0) :
    p ∉ q.recycle.block := by
  intro hmem
  obtain ⟨slot, hslot⟩ := List.mem_iff_getElem?.mp hmem
  exact (hcaches.apart slot p hslot hne).1 hp

theorem link_eq_link {q : InfiniteLinkQueue α} {item : Ptr} (hitem : item ∉ q.recycle.block)
    (hptr : q.ptr ≠ 0 → q.ptr ∉ q.recycle.block) : link q item = q.link item := by
  simp only [link, InfiniteLinkQueue.link]
  rw [store_eq (q := { q with sent := q.sent + 1, ptr := item }) hitem]
  cases Cells.modify q.cells item fun i => { i with next := q.ptr } with
  | none => rfl
  | some cells =>
    by_cases h0 : q.ptr = 0
    · simp [h0]
    · simp only [Option.map_some, Option.bind_eq_bind, Option.bind_some, ne_eq, h0,
        not_false_eq_true, if_true]
      rw [store_eq (q := { q with cells := cells, sent := q.sent + 1, ptr := item }) (hptr h0)]
      cases Cells.modify cells q.ptr fun i => { i with prev := item } with
      | none => rfl
      | some cells => rfl

/-- The item of a put leaves the cache, or is allocated when the cache is empty. -/
theorem newItem_eq (al : Allocator α) {q : InfiniteLinkQueue α} {old : List Ptr}
    {fresh : List (Ptr × α)} (h : Holds q old fresh) (t : α) :
    ∃ item q' allocated, newItem al q t = some (item, q', allocated) ∧
      q.newItem al t = some (item, q') ∧ item ∉ q'.recycle.block ∧
      q'.recycle = q.recycle.pop.2 ∧ q'.ptr = q.ptr ∧
      (q.recycle.pop.1 = 0 ∧ allocated = [item] ∧ q'.asked = q.asked + 1 ∨
        q.recycle.pop.1 = item ∧ item ≠ 0 ∧ allocated = [] ∧ q'.asked = q.asked) := by
  obtain ⟨item, q', hnew, -, hfresh, hcaches, -⟩ := h.newItem_eq al t
  have hne : item ≠ 0 := fun heq => hfresh (by rw [heq]; exact List.mem_cons_self)
  have hblock : item ∉ q'.recycle.block := notMem_block hcaches (by simp) hne
  obtain ⟨hpop, -⟩ := h.caches.pop
  cases heq : q.recycle.pop with
  | mk p recycle =>
  rw [heq] at hpop
  by_cases h0 : p = 0
  · subst h0
    have halloc := (newItem_alloc al heq).symm.trans hnew
    cases halloc
    refine ⟨_, _, [_], ?_, hnew, hblock, rfl, rfl, Or.inl ⟨rfl, rfl, rfl⟩⟩
    rw [newItem, heq]
    rfl
  · obtain ⟨i, hi⟩ := Option.isSome_iff_exists.mp (hpop h0).2
    have hreuse := (newItem_reuse al heq h0 hi).symm.trans hnew
    cases hreuse
    refine ⟨_, _, [], ?_, hnew, hblock, rfl, rfl, Or.inr ⟨rfl, h0, rfl, rfl⟩⟩
    rw [newItem, heq]
    split
    · rename_i hpair
      exact absurd (congrArg Prod.fst hpair) h0
    · rename_i hpair
      obtain ⟨rfl, rfl⟩ := Prod.mk.inj hpair
      rw [store_eq (q := { q with recycle := recycle }) hblock]
      simp [Cells.modify, hi, Item.new]

/-- A node leads to another one or nowhere. -/
theorem prev_mem {cells : Cells α} {nodes : List Ptr} {p : Ptr} {i : Item α}
    (h : Linkage cells nodes) (hp : p ∈ nodes) (hi : cells p = some i) :
    i.prev = 0 ∨ i.prev ∈ nodes := by
  obtain ⟨l₁, l₂, rfl⟩ := List.append_of_mem hp
  have hprev := h.prev_eq
  rw [hi, Option.map_some, Option.some.injEq] at hprev
  cases l₂ with
  | nil => exact Or.inl hprev
  | cons b l =>
    refine Or.inr ?_
    rw [hprev]
    simp

theorem claimLoop_eq {q : InfiniteLinkQueue α} {nodes : List Ptr} (hlink : Linkage q.cells nodes)
    (hcaches : q.recycle.Caches q.cells nodes) (fuel : ℕ) {cur : Ptr} (first : Bool)
    (hcur : cur = 0 ∨ cur ∈ nodes) :
    claimLoop fuel q cur first = InfiniteLinkQueue.claimLoop fuel q cur first := by
  induction fuel generalizing cur first with
  | zero => rfl
  | succ fuel ih =>
    unfold claimLoop InfiniteLinkQueue.claimLoop
    by_cases h0 : cur = 0
    · rw [if_pos h0, if_pos h0]
    · have hmem := hcur.resolve_left h0
      rw [if_neg h0, if_neg h0, deref_eq (notMem_block hcaches hmem h0)]
      cases hi : q.cells cur with
      | none => rfl
      | some i =>
        simp only [Option.bind_eq_bind, Option.bind_some]
        rw [ih false (prev_mem hlink hmem hi)]

/-- **The loop of a release**: every node it recycles goes into the cache, and what the cache loses
is deallocated. -/
theorem taildeallocLoop_eq {q : InfiniteLinkQueue α} {older live stack : List Ptr} {fuel : ℕ}
    (h : Releasing q older live) (hfuel : older.length < fuel)
    (hstack : q.recycle.Holds 10 stack) :
    ∃ q' freed stack', taildeallocLoop fuel q (older.getLastD 0) = some (q', freed) ∧
      InfiniteLinkQueue.taildeallocLoop fuel q (older.getLastD 0) = some q' ∧
      q'.recycle.Holds 10 stack' ∧ (stack' ++ freed).Perm (older ++ stack) := by
  induction older using List.reverseRecOn generalizing q fuel stack with
  | nil =>
    obtain ⟨fuel, rfl⟩ := Nat.exists_eq_succ_of_ne_zero (Nat.ne_zero_of_lt hfuel)
    refine ⟨q, [], stack, rfl, rfl, hstack, ?_⟩
    rw [List.append_nil, List.nil_append]
  | append_singleton older cur ih =>
    obtain ⟨fuel, rfl⟩ := Nat.exists_eq_succ_of_ne_zero (Nat.ne_zero_of_lt hfuel)
    obtain ⟨i, hi, hnext, hcur, hround, -, -⟩ := h.round
    have hblock : cur ∉ q.recycle.block := notMem_block h.caches (by simp) hcur
    have hlen : older.length < fuel := by
      rw [List.length_append, List.length_singleton] at hfuel
      omega
    have hpush := hstack.pushed (by decide) hcur q.cells
    obtain ⟨q', freed, stack', hloop, hloop', hstack', hperm⟩ := ih hround hlen hpush
    refine ⟨q', q.recycle.evicted ++ freed, stack', ?_, ?_, hstack', ?_⟩
    · rw [List.getLastD_concat, taildeallocLoop, if_neg hcur, deref_eq hblock, hi]
      show (taildeallocLoop fuel (q.pushed cur) i.next).bind _ = _
      rw [hnext, hloop]
      rfl
    · simpa [InfiniteLinkQueue.taildeallocLoop, hcur, hi, hnext, pushed] using hloop'
    · -- the entries after the push, with what it dropped, are `cur` and the entries before it
      have hdrop := Lib.Stack.answer_push_perm (by decide) hstack.length_le cur
      rw [← hstack.evicted cur] at hdrop
      have hswap : (stack' ++ (q.recycle.evicted ++ freed)).Perm
          (stack' ++ freed ++ q.recycle.evicted) := by
        rw [List.append_assoc]
        exact List.perm_append_comm.append_left stack'
      have hstep := hperm.append_right q.recycle.evicted
      rw [List.append_assoc older] at hstep
      rw [List.append_assoc older, List.singleton_append]
      exact (hswap.trans hstep).trans (hdrop.append_left older)

/-- The loop of `deallocall` is that of `taildealloc` with a counter. -/
theorem deallocallLoop_eq {fuel : ℕ} {q q' : InfiniteLinkQueue α} {cur : Ptr} {freed : List Ptr}
    (h : taildeallocLoop fuel q cur = some (q', freed)) (cnt : UInt64) :
    ∃ cnt', deallocallLoop fuel q cur cnt = some (q', freed, cnt') := by
  induction fuel generalizing q cur freed cnt with
  | zero => cases h
  | succ fuel ih =>
    unfold taildeallocLoop at h
    unfold deallocallLoop
    by_cases h0 : cur = 0
    · rw [if_pos h0] at h ⊢
      cases h
      exact ⟨cnt, rfl⟩
    · rw [if_neg h0] at h ⊢
      obtain ⟨i, hi, hrest⟩ := Option.bind_eq_some_iff.mp h
      obtain ⟨⟨q₁, freed₁⟩, hloop, heq⟩ := Option.bind_eq_some_iff.mp hrest
      cases heq
      obtain ⟨cnt', hloop'⟩ := ih hloop (cnt + 1)
      refine ⟨cnt', ?_⟩
      rw [hi, Option.bind_eq_bind, Option.bind_some, hloop']
      rfl

/-- **A release** at a node `cur`: the nodes before it are cached or deallocated. -/
theorem release_eq {q : InfiniteLinkQueue α} {older newer stack : List Ptr} {cur : Ptr}
    {fresh : List (Ptr × α)} (h : Holds q (older ++ cur :: newer) fresh) (hlst : q.lst = cur)
    (hstack : q.recycle.Holds 10 stack) :
    ∃ q' freed stack', release q cur = some (q', freed) ∧ q.release cur = some q' ∧
      Holds q' (cur :: newer) fresh ∧ q'.recycle.Holds 10 stack' ∧
      (stack' ++ freed).Perm (older ++ stack) ∧ q'.asked = q.asked ∧
      q'.cells cur = (q.cells cur).map fun i => { i with next := 0 } := by
  obtain ⟨q', hrel, hothers, hcell, hholds⟩ := h.release hlst
  have hsplit : (older ++ cur :: newer) ++ fresh.map Prod.fst =
      older ++ cur :: (newer ++ fresh.map Prod.fst) := by simp
  have hlink := hsplit ▸ h.linkage
  obtain ⟨i, hi, hnext⟩ := Option.map_eq_some_iff.mp hlink.next_eq
  have holdest : ∀ p ∈ older.head?, (q.cells p).map Item.next = some 0 := fun p hp =>
    hlink.oldest p (by rw [List.head?_append, Option.mem_def.mp hp]; rfl)
  have hlen : older.length < q.asked + 1 := by
    have hle := h.length_le
    rw [hsplit, List.length_append] at hle
    omega
  have hreleasing : Releasing { q with doingrel := true } older
      (cur :: (newer ++ fresh.map Prod.fst)) :=
    ⟨(List.isChain_append.mp hlink.linked).1, holdest, hlink.nodup, hsplit ▸ h.caches⟩
  obtain ⟨q₁, freed, stack', hloop, hloop', hstack', hperm⟩ :=
    taildeallocLoop_eq hreleasing hlen hstack
  obtain ⟨q₂, hsame, hrec⟩ := InfiniteLinkQueue.taildeallocLoop_eq hreleasing hlen
  obtain rfl : q₁ = q₂ := Option.some.inj (hloop'.symm.trans hsame)
  have hcur : cur ≠ 0 := hlink.ne_zero (by simp)
  have hblock : cur ∉ q.recycle.block := notMem_block h.caches (by simp) hcur
  have hblock₁ : cur ∉ q₁.recycle.block := notMem_block hrec.caches List.mem_cons_self hcur
  have hi₁ : q₁.cells cur = some i := (hrec.kept cur List.mem_cons_self).trans hi
  have hdealloc : taildealloc { q with doingrel := true } cur =
      some ({ q₁ with cells := Function.update q₁.cells cur (some { i with next := 0 }) },
        freed) := by
    have hderef : deref { q with doingrel := true } cur = some i :=
      (deref_eq (q := { q with doingrel := true }) hblock).trans hi
    rw [taildealloc, hderef]
    show (taildeallocLoop (q.asked + 1) { q with doingrel := true } i.next).bind _ = _
    rw [hnext, hloop]
    show (store q₁ cur fun i => { i with next := 0 }).bind _ = _
    rw [store_eq hblock₁, Cells.modify, hi₁]
    rfl
  have hdealloc' : q.release cur = some { q₁ with
      cells := Function.update q₁.cells cur (some { i with next := 0 }), doingrel := false } := by
    have hloop'' : InfiniteLinkQueue.taildeallocLoop (q.asked + 1) { q with doingrel := true }
        i.next = some q₁ := hnext ▸ hloop'
    simp [InfiniteLinkQueue.release, h.idle, InfiniteLinkQueue.taildealloc, hi, hloop'',
      Cells.modify, hi₁]
  obtain rfl := Option.some.inj (hrel.symm.trans hdealloc')
  refine ⟨_, freed, stack', ?_, hrel, hholds, hstack', hperm, ?_, hcell⟩
  · rw [release, h.idle, if_neg Bool.false_ne_true, hdealloc]
    rfl
  · rw [hothers]

/-- The whole list is to be recycled. -/
theorem releasing_all {q : InfiniteLinkQueue α} {old : List Ptr} {fresh : List (Ptr × α)}
    (h : Holds q old fresh) :
    Releasing { q with ptr := 0, lst := 0 } (old ++ fresh.map Prod.fst) [] := by
  refine ⟨h.linkage.linked, h.linkage.oldest, ?_, ?_⟩
  · rw [List.append_nil]
    exact h.linkage.nodup
  · rw [List.append_nil]
    exact h.caches

/-- **The release of the whole list.** -/
theorem deallocall_eq {q : InfiniteLinkQueue α} {old stack : List Ptr} {fresh : List (Ptr × α)}
    (h : Holds q old fresh) (hstack : q.recycle.Holds 10 stack) :
    ∃ q' freed stack', deallocall q = some (q', freed) ∧ q'.recycle.Holds 10 stack' ∧
      (stack' ++ freed).Perm (old ++ fresh.map Prod.fst ++ stack) ∧ q'.asked = q.asked := by
  have hreleasing := releasing_all h
  have hlen : (old ++ fresh.map Prod.fst).length < q.asked + 1 := Nat.lt_succ_of_le h.length_le
  obtain ⟨q', freed, stack', hloop, hloop', hstack', hperm⟩ :=
    taildeallocLoop_eq hreleasing hlen hstack
  obtain ⟨q₂, hsame, hrec⟩ := InfiniteLinkQueue.taildeallocLoop_eq hreleasing hlen
  obtain rfl : q' = q₂ := Option.some.inj (hloop'.symm.trans hsame)
  obtain ⟨cnt, hcount⟩ := deallocallLoop_eq hloop 0
  have hasked : q'.asked = q.asked := by rw [hrec.others]
  refine ⟨{ q' with needrel := q'.needrel - cnt }, freed, stack', ?_, hstack', hperm, hasked⟩
  rw [deallocall, h.ptr, hcount]
  rfl

end Watched

/-! ### The list that starts at `ptr` -/

/-- The addresses from one on, following `next` to the null pointer. -/
def walk (next : Ptr → Option Ptr) : ℕ → Ptr → List Ptr
  | 0, _ => []
  | fuel + 1, p => if p = 0 then [] else p :: walk next fuel ((next p).getD 0)

/-- **The nodes linked in the list reachable from `ptr`**, the newest first. -/
def reachable (q : InfiniteLinkQueue α) : List Ptr :=
  walk (fun p => (q.cells p).map Item.next) q.asked q.ptr

theorem walk_eq {cells : Cells α} {nodes : List Ptr} {fuel : ℕ}
    (hlinked : nodes.IsChain (Linked cells))
    (holdest : ∀ p ∈ nodes.head?, (cells p).map Item.next = some 0) (hzero : 0 ∉ nodes)
    (hfuel : nodes.length ≤ fuel) :
    walk (fun p => (cells p).map Item.next) fuel (nodes.getLastD 0) = nodes.reverse := by
  induction nodes using List.reverseRecOn generalizing fuel with
  | nil =>
    cases fuel with
    | zero => rfl
    | succ fuel => rfl
  | append_singleton nodes p ih =>
    rw [List.length_append, List.length_singleton] at hfuel
    obtain ⟨fuel, rfl⟩ : ∃ n, fuel = n + 1 := ⟨fuel - 1, by omega⟩
    have hp : p ≠ 0 := fun heq => hzero (by simp [heq])
    have hlen : nodes.length ≤ fuel := by omega
    have hrest := ih (List.isChain_append.mp hlinked).1
      (fun a ha => holdest a (by simp [Option.mem_def.mp ha]))
      (fun hmem => hzero (List.mem_append_left _ hmem)) hlen
    rw [List.getLastD_concat, walk, if_neg hp, next_of_isChain hlinked holdest, Option.getD_some,
      hrest, List.reverse_append]
    rfl

namespace Holds

variable {q q' : InfiniteLinkQueue α} {old old' : List Ptr} {fresh fresh' : List (Ptr × α)}

theorem reachable_eq (h : Holds q old fresh) :
    q.reachable = (old ++ fresh.map Prod.fst).reverse := by
  rw [reachable, h.ptr]
  exact walk_eq h.linkage.linked h.linkage.oldest (List.nodup_cons.mp h.linkage.nodup).1 h.length_le

/-- The nodes are determined by `ptr` and the `next` links. -/
theorem nodes_eq (h : Holds q old fresh) (h' : Holds q' old' fresh') (hptr : q'.ptr = q.ptr)
    (hasked : q'.asked = q.asked)
    (hnext : ∀ p, (q'.cells p).map Item.next = (q.cells p).map Item.next) :
    old' ++ fresh'.map Prod.fst = old ++ fresh.map Prod.fst := by
  have hsame : q'.reachable = q.reachable := by
    rw [reachable, reachable, hptr, hasked]
    congr 1
    funext p
    exact hnext p
  rw [h.reachable_eq, h'.reachable_eq] at hsame
  exact List.reverse_injective hsame

end Holds

/-- What a claim leaves as it is. -/
theorem claimLoop_kept {fuel : ℕ} {q q' : InfiniteLinkQueue α} {cur : Ptr} {first : Bool}
    {t : Option α} (h : claimLoop fuel q cur first = some (t, q')) :
    q'.ptr = q.ptr ∧ q'.recycle = q.recycle ∧ q'.asked = q.asked ∧
      ∀ p, (q'.cells p).map Item.next = (q.cells p).map Item.next := by
  induction fuel generalizing cur first with
  | zero => cases h
  | succ fuel ih =>
    unfold claimLoop at h
    split at h
    next =>
      cases h
      exact ⟨rfl, rfl, rfl, fun p => rfl⟩
    next =>
      obtain ⟨i, hi, hrest⟩ := Option.bind_eq_some_iff.mp h
      split at hrest
      next => exact ih hrest
      next =>
        have hnext : ∀ p, (Function.update (Function.update q.cells cur
            (some { i with claimed := true })) cur
              (some { i with claimed := true, needrel := true }) p).map Item.next =
            (q.cells p).map Item.next := by
          intro p
          by_cases heq : p = cur
          · rw [heq, Function.update_self, hi]
            rfl
          · rw [Function.update_of_ne heq, Function.update_of_ne heq]
        cases first <;> cases hrest
        · exact ⟨rfl, rfl, rfl, hnext⟩
        · simp only [if_true, advanceLst]
          split
          · exact ⟨rfl, rfl, rfl, hnext⟩
          · exact ⟨rfl, rfl, rfl, hnext⟩

/-! ### One call -/

section Call

variable {q : InfiniteLinkQueue α} {old stack : List Ptr} {fresh : List (Ptr × α)}

/-- The places of the nodes: those of the list, and those of the cache. -/
def places (old : List Ptr) (fresh : List (Ptr × α)) (stack : List Ptr) : List Ptr :=
  old ++ fresh.map Prod.fst ++ stack

theorem advanceLst_kept (q : InfiniteLinkQueue α) (cur nlst : Ptr) :
    (q.advanceLst cur nlst).cells = q.cells ∧ (q.advanceLst cur nlst).recycle = q.recycle ∧
      (q.advanceLst cur nlst).ptr = q.ptr ∧ (q.advanceLst cur nlst).asked = q.asked := by
  unfold advanceLst
  split
  · exact ⟨rfl, rfl, rfl, rfl⟩
  · exact ⟨rfl, rfl, rfl, rfl⟩

/-- A claim leaves the nodes and the cache as they are, wherever `lst` was before it. -/
theorem Holds.claims {cur nlst : Ptr} {fuel : ℕ} {first : Bool} {q' : InfiniteLinkQueue α}
    {t : Option α} {old' : List Ptr} {fresh' : List (Ptr × α)} (h : Holds q old fresh)
    (hclaim : claimLoop fuel (q.advanceLst cur nlst) nlst first = some (t, q'))
    (h' : Holds q' old' fresh') :
    q'.recycle = q.recycle ∧ q'.asked = q.asked ∧
      old' ++ fresh'.map Prod.fst = old ++ fresh.map Prod.fst := by
  obtain ⟨hptr, hrecycle, hasked, hnext⟩ := claimLoop_kept hclaim
  obtain ⟨hcells, hrecycle₁, hptr₁, hasked₁⟩ := advanceLst_kept q cur nlst
  refine ⟨hrecycle.trans hrecycle₁, hasked.trans hasked₁,
    h.nodes_eq h' (hptr.trans hptr₁) (hasked.trans hasked₁) fun p => ?_⟩
  rw [hnext, hcells]

theorem headD_mem (l : List Ptr) : l.headD 0 = 0 ∨ l.headD 0 ∈ l := by
  cases l with
  | nil => exact Or.inl rfl
  | cons p l => exact Or.inr List.mem_cons_self

/-- `lst` is null or a node. -/
theorem Holds.lst_mem (h : Holds q old fresh) :
    q.lst = 0 ∨ q.lst ∈ old ++ fresh.map Prod.fst := by
  rcases h.lst with hold | ⟨hhead, -⟩
  · exact Or.inr (List.mem_append_left _ hold)
  · rw [hhead]
    exact (headD_mem _).imp id (List.mem_append_right _)

/-- Only consumed nodes are marked. -/
theorem Holds.mem_old_of_marked {p : Ptr} {i : Item α} (h : Holds q old fresh)
    (hp : p ∈ old ++ fresh.map Prod.fst) (hi : q.cells p = some i) (hneedrel : i.needrel = true) :
    p ∈ old := by
  rcases List.mem_append.mp hp with hold | hfresh
  · exact hold
  · obtain ⟨x, hx, rfl⟩ := List.mem_map.mp hfresh
    obtain ⟨j, hj, -, hmark, -⟩ := h.pending x hx
    rw [hi, Option.some.injEq] at hj
    rw [← hj, hneedrel] at hmark
    cases hmark

/-- A checked get of a queue whose `lst` is not marked. -/
theorem Holds.get_unmarked_watched {i : Item α} {t : Option α} {q' : InfiniteLinkQueue α}
    {old' : List Ptr} {fresh' : List (Ptr × α)} (h : Holds q old fresh) (h0 : q.lst ≠ 0)
    (hi : q.cells q.lst = some i) (hneedrel : i.needrel = false)
    (hget : q.get = some (t, q')) (h' : Holds q' old' fresh') :
    Watched.get q = some (t, q', []) ∧ q'.recycle = q.recycle ∧ q'.asked = q.asked ∧
      old' ++ fresh'.map Prod.fst = old ++ fresh.map Prod.fst := by
  have hmem : q.lst ∈ old ++ fresh.map Prod.fst := h.lst_mem.resolve_left h0
  have hblock : q.lst ∉ q.recycle.block := Watched.notMem_block h.caches hmem h0
  have hderef : Watched.deref { q with rinside := q.rinside + 1 } q.lst = some i :=
    (Watched.deref_eq (q := { q with rinside := q.rinside + 1 }) hblock).trans hi
  have hloop : q.get =
      claimLoop (q.asked + 1) { q with rinside := q.rinside + 1 } q.lst true := by
    simp [InfiniteLinkQueue.get, h0, hi, hneedrel]
  rw [hloop] at hget
  have hclaim : Watched.claimLoop (q.asked + 1) { q with rinside := q.rinside + 1 } q.lst true =
      some (t, q') :=
    (Watched.claimLoop_eq (q := { q with rinside := q.rinside + 1 }) h.linkage h.caches _ true
      (Or.inr hmem)).trans hget
  obtain ⟨hptr, hrecycle, hasked, hnext⟩ := claimLoop_kept hget
  refine ⟨?_, hrecycle, hasked, h.nodes_eq h' hptr hasked hnext⟩
  simp [Watched.get, h0, hderef, hneedrel, hclaim]

/-- A checked get of a queue whose `lst` is marked: that node is released first. -/
theorem Holds.get_marked_watched {older newer : List Ptr} {i : Item α} {t : Option α}
    {q' : InfiniteLinkQueue α} {old' : List Ptr} {fresh' : List (Ptr × α)}
    (h : Holds q (older ++ q.lst :: newer) fresh) (hi : q.cells q.lst = some i)
    (hneedrel : i.needrel = true) (hstack : q.recycle.Holds 10 stack)
    (hget : q.get = some (t, q')) (h' : Holds q' old' fresh') :
    ∃ freed stack', Watched.get q = some (t, q', freed) ∧ q'.recycle.Holds 10 stack' ∧
      (stack' ++ freed).Perm (older ++ stack) ∧ q'.asked = q.asked ∧
      old' ++ fresh'.map Prod.fst = q.lst :: newer ++ fresh.map Prod.fst := by
  have hentered := h.moved (q.rinside + 1) q.len h.lst
  have h0 : q.lst ≠ 0 := h.linkage.ne_zero (by simp)
  have hblock : q.lst ∉ q.recycle.block := Watched.notMem_block h.caches (by simp) h0
  have hderef : Watched.deref { q with rinside := q.rinside + 1 } q.lst = some i :=
    (Watched.deref_eq (q := { q with rinside := q.rinside + 1 }) hblock).trans hi
  obtain ⟨q₁, freed, stack', hrel, hrel', h₁, hstack', hperm, hasked, hcell⟩ :=
    Watched.release_eq hentered rfl hstack
  have hi₁ : q₁.cells q.lst = some { i with next := 0 } := by
    rw [hcell]
    exact congrArg _ hi
  have hblock₁ : q.lst ∉ q₁.recycle.block :=
    Watched.notMem_block h₁.caches (by simp) h0
  have hderef₁ : Watched.deref q₁ q.lst = some { i with next := 0 } :=
    (Watched.deref_eq hblock₁).trans hi₁
  have hloop : q.get =
      claimLoop (q₁.asked + 1) (q₁.advanceLst q.lst i.prev) i.prev true := by
    simp [InfiniteLinkQueue.get, h0, hi, hneedrel, hrel', hi₁]
  rw [hloop] at hget
  have hprev := Watched.prev_mem h₁.linkage (by simp) hi₁
  obtain ⟨hcells₂, hrecycle₂, -, -⟩ := advanceLst_kept q₁ q.lst i.prev
  have hclaim : Watched.claimLoop (q₁.asked + 1) (q₁.advanceLst q.lst i.prev) i.prev true =
      some (t, q') :=
    (Watched.claimLoop_eq (by rw [hcells₂]; exact h₁.linkage)
      (by rw [hcells₂, hrecycle₂]; exact h₁.caches) _ true hprev).trans hget
  obtain ⟨hrecycle, hasked', hnodes⟩ := h₁.claims hget h'
  refine ⟨freed, stack', ?_, hrecycle ▸ hstack', hperm, hasked'.trans hasked, hnodes⟩
  simp [Watched.get, h0, hderef, hneedrel, hrel, hderef₁, hclaim]

/-- **A checked get** is not stuck, it is the get, and each node stays, goes to the cache or is
deallocated. -/
theorem Holds.get_watched (h : Holds q old fresh) (hstack : q.recycle.Holds 10 stack) :
    ∃ q' freed old' stack', Watched.get q = some (fresh.head?.map Prod.snd, q', freed) ∧
      q.get = some (fresh.head?.map Prod.snd, q') ∧
      Holds q' old' fresh.tail ∧ q'.recycle.Holds 10 stack' ∧
      (places old' fresh.tail stack' ++ freed).Perm (places old fresh stack) ∧
      q'.asked = q.asked := by
  obtain ⟨q', old', hget, -, h'⟩ := h.get_holds
  by_cases h0 : q.lst = 0
  · have hempty : q.get = some (none, { q with rinside := q.rinside + 1 }) := by
      simp [InfiniteLinkQueue.get, h0]
    have hwatched : Watched.get q = some (none, { q with rinside := q.rinside + 1 }, []) := by
      simp [Watched.get, h0]
    have hpair := Option.some.inj (hempty.symm.trans hget)
    obtain rfl : { q with rinside := q.rinside + 1 } = q' := congrArg Prod.snd hpair
    have ht : none = fresh.head?.map Prod.snd := congrArg Prod.fst hpair
    refine ⟨_, [], old', stack, ht ▸ hwatched, hget, h', hstack, ?_, rfl⟩
    rw [List.append_nil, places, places, h.nodes_eq h' rfl rfl fun p => rfl]
  · have hmem : q.lst ∈ old ++ fresh.map Prod.fst := h.lst_mem.resolve_left h0
    obtain ⟨i, hi⟩ := Option.isSome_iff_exists.mp (h.linkage.isSome hmem)
    cases hneedrel : i.needrel with
    | false =>
      obtain ⟨hwatched, hrecycle, hasked, hnodes⟩ :=
        h.get_unmarked_watched h0 hi hneedrel hget h'
      refine ⟨q', [], old', stack, hwatched, hget, h', hrecycle ▸ hstack, ?_, hasked⟩
      rw [List.append_nil, places, places, hnodes]
    | true =>
      obtain ⟨older, newer, rfl⟩ := List.append_of_mem (h.mem_old_of_marked hmem hi hneedrel)
      obtain ⟨freed, stack', hwatched, hstack', hperm, hasked, hnodes⟩ :=
        h.get_marked_watched hi hneedrel hstack hget h'
      refine ⟨q', freed, old', stack', hwatched, hget, h', hstack', ?_, hasked⟩
      rw [places, hnodes, places, List.append_assoc, List.append_assoc older,
        List.append_assoc older]
      have hmoved := hperm.append_left (q.lst :: newer ++ fresh.map Prod.fst)
      refine hmoved.trans ?_
      rw [← List.append_assoc, ← List.append_assoc older]
      exact List.perm_append_comm.append_right stack

theorem link_kept {item : Ptr} {q' : InfiniteLinkQueue α} (h : q.link item = some q') :
    q'.ptr = item ∧ q'.recycle = q.recycle ∧ q'.asked = q.asked := by
  simp only [link] at h
  obtain ⟨cells, -, hrest⟩ := Option.bind_eq_some_iff.mp h
  split at hrest
  next =>
    obtain ⟨cells', -, hlast⟩ := Option.bind_eq_some_iff.mp hrest
    cases hlast
    exact ⟨rfl, rfl, rfl⟩
  next =>
    cases hrest
    exact ⟨rfl, rfl, rfl⟩

/-- **A checked put** is not stuck, it is the put, and its node is allocated when the cache is
empty, and else the newest entry of the cache. -/
theorem Holds.put_watched (al : Allocator α) (h : Holds q old fresh)
    (hstack : q.recycle.Holds 10 stack) (t : α) :
    ∃ item q' allocated stack', Watched.put al q t = some (q', allocated) ∧
      q.put al t = some q' ∧ Holds q' old (fresh ++ [(item, t)]) ∧
      q'.recycle.Holds 10 stack' ∧
      (allocated = [item] ∧ q'.asked = q.asked + 1 ∧ stack = [] ∧ stack' = [] ∨
        allocated = [] ∧ q'.asked = q.asked ∧ stack = item :: stack') := by
  obtain ⟨item, q₁, allocated, hnew, hnew', hblock, hrecycle, hptr, hcase⟩ :=
    Watched.newItem_eq al h t
  obtain ⟨item', q', hput, -, h'⟩ := h.put_holds al t
  have hlink : q₁.link item = some q' := by
    rw [put, hnew'] at hput
    exact hput
  obtain ⟨hptr', hrecycle', hasked'⟩ := link_kept hlink
  obtain rfl : item = item' := by
    have hlast := h'.ptr
    rw [hptr', List.map_append, ← List.append_assoc] at hlast
    simpa using hlast
  have hnotptr : q₁.ptr ≠ 0 → q₁.ptr ∉ q₁.recycle.block := by
    intro h0 hmem
    rw [hptr] at h0 hmem
    rw [hrecycle] at hmem
    have hnode : q.ptr ∈ old ++ fresh.map Prod.fst := by
      have hlast := h.ptr
      rw [List.getLastD_eq_getLast?] at hlast
      cases hl : (old ++ fresh.map Prod.fst).getLast? with
      | none => exact absurd (by rw [hlast, hl]; rfl) h0
      | some p =>
        rw [hl, Option.getD_some] at hlast
        rw [hlast]
        exact List.mem_of_mem_getLast? hl
    rcases List.mem_or_eq_of_mem_set hmem with hold | hzero
    · exact Watched.notMem_block h.caches hnode h0 hold
    · exact h0 hzero
  have hwatched : Watched.put al q t = some (q', allocated) := by
    rw [Watched.put, hnew]
    show (Watched.link q₁ item).bind _ = _
    rw [Watched.link_eq_link hblock hnotptr, hlink]
    rfl
  have hpopped : q'.recycle.Holds 10 stack.tail := by
    rw [hrecycle', hrecycle]
    exact hstack.popped (by decide)
  have hhead := hstack.pop_fst (by decide)
  refine ⟨item, q', allocated, stack.tail, hwatched, hput, h', hpopped, ?_⟩
  rcases hcase with ⟨hpop, hallocated, hasked⟩ | ⟨hpop, hne, hallocated, hasked⟩
  · rw [hpop, if_neg (not_not.mpr rfl)] at hhead
    have hempty : stack = [] := List.head?_eq_none_iff.mp hhead.symm
    exact Or.inl ⟨hallocated, hasked'.trans hasked, hempty, by rw [hempty]; rfl⟩
  · rw [hpop, if_pos hne] at hhead
    exact Or.inr ⟨hallocated, hasked'.trans hasked, List.eq_cons_of_mem_head? hhead.symm⟩

end Call

/-! ### The history of the nodes -/

/-- A queue, the number of the allocation that the node at an address came from, and the numbers
of the nodes that were deallocated, in order. -/
structure Owner (α : Type*) where
  q : InfiniteLinkQueue α
  born : Ptr → ℕ
  freed : List ℕ

namespace Owner

def new : Owner α := { q := InfiniteLinkQueue.new, born := fun _ => 0, freed := [] }

/-- A checked call and its answer. -/
def call (al : Allocator α) (s : Owner α) : Call α → Option (Option α × Owner α)
  | .put t => do
    let (q, allocated) ← Watched.put al s.q t
    some (none, { s with
      q := q
      born := allocated.foldl (fun born p => Function.update born p s.q.asked) s.born })
  | .get => do
    let (t, q, freed) ← Watched.get s.q
    some (t, { s with q := q, freed := s.freed ++ freed.map s.born })

/-- The drop of the queue: `deallocall` and the destructor of the cache. -/
def drop (s : Owner α) : Option (Owner α) := do
  let (q, freed) ← Watched.deallocall s.q
  let (freed', recycle, cells) := q.recycle.drop q.cells
  some { s with
    q := { q with recycle := recycle, cells := cells }
    freed := s.freed ++ (freed ++ freed').map s.born }

end Owner

/-- **Each node is in one place**: the numbers of the nodes in the list, of those in the slots of
the cache and of those deallocated are together the numbers of all allocations, each once. -/
def Owned (s : Owner α) : Prop :=
  (s.q.reachable.map s.born ++ s.q.recycle.stored.map s.born ++ s.freed).Perm
    (List.range s.q.asked)

/-- **The nodes are placed**: the history agrees with the nodes of the list and the entries of the
cache, and the queue holds the pending values. -/
def Placed (s : Owner α) (pending : List α) : Prop :=
  ∃ old fresh stack, Holds s.q old fresh ∧ s.q.recycle.Holds 10 stack ∧
    ((places old fresh stack).map s.born ++ s.freed).Perm (List.range s.q.asked) ∧
    fresh.map Prod.snd = pending

namespace Placed

variable {s : Owner α} {pending : List α}

theorem new : Placed (Owner.new : Owner α) [] :=
  ⟨[], [], [], new_holds, PointerCache.new_holds (by decide : (10 : UInt64).toNat < 64), List.Perm.refl _, rfl⟩

theorem owned (h : Placed s pending) : Owned s := by
  obtain ⟨old, fresh, stack, hholds, hstack, hperm, -⟩ := h
  rw [places, List.map_append] at hperm
  have hlinked : s.q.reachable.Perm (old ++ fresh.map Prod.fst) := by
    rw [hholds.reachable_eq]
    exact List.reverse_perm _
  have hboth := (hlinked.map s.born).append (hstack.stored_perm.map s.born)
  exact (hboth.append_right s.freed).trans hperm

/-- A node that was allocated last is the only one with its number. -/
theorem map_places_new {old : List Ptr} {fresh : List (Ptr × α)} {item : Ptr} {t : α}
    (hnodup : (0 :: (old ++ (fresh ++ [(item, t)]).map Prod.fst)).Nodup) (born : Ptr → ℕ) (n : ℕ) :
    (places old (fresh ++ [(item, t)]) []).map (Function.update born item n) =
      (places old fresh []).map born ++ [n] := by
  have hnodes : old ++ (fresh ++ [(item, t)]).map Prod.fst = old ++ fresh.map Prod.fst ++ [item] := by
    simp
  rw [hnodes] at hnodup
  have hother : ∀ p ∈ old ++ fresh.map Prod.fst, Function.update born item n p = born p := by
    intro p hp
    refine Function.update_of_ne ?_ _ _
    rintro rfl
    exact (List.nodup_cons.mp (List.nodup_append_comm.mp (List.nodup_cons.mp hnodup).2)).1 hp
  rw [places, hnodes, List.append_nil, List.map_append, List.map_congr_left hother, places,
    List.append_nil, List.map_singleton, Function.update_self]

/-- **A put** places its node. -/
theorem put (al : Allocator α) (h : Placed s pending) (t : α) :
    ∃ s', s.call al (.put t) = some (none, s') ∧ s.q.put al t = some s'.q ∧
      Placed s' (pending ++ [t]) := by
  obtain ⟨old, fresh, stack, hholds, hstack, hperm, rfl⟩ := h
  obtain ⟨item, q', allocated, stack', hwatched, hput, hholds', hstack', hcase⟩ :=
    hholds.put_watched al hstack t
  have hpending : (fresh ++ [(item, t)]).map Prod.snd = fresh.map Prod.snd ++ [t] := by
    rw [List.map_append]
    rfl
  refine ⟨{ s with
    q := q', born := allocated.foldl (fun born p => Function.update born p s.q.asked) s.born },
    ?_, hput, old, _, stack', hholds', hstack', ?_, hpending⟩
  · rw [Owner.call, hwatched]
    rfl
  · rcases hcase with ⟨rfl, hasked, rfl, rfl⟩ | ⟨rfl, hasked, rfl⟩
    · have hborn := map_places_new hholds'.linkage.nodup s.born s.q.asked
      show ((places old (fresh ++ [(item, t)]) []).map _ ++ s.freed).Perm (List.range q'.asked)
      rw [hasked, List.range_succ, List.foldl_cons, List.foldl_nil, hborn, List.append_assoc]
      have hlast : ((places old fresh []).map s.born ++ ([s.q.asked] ++ s.freed)).Perm
          ((places old fresh []).map s.born ++ (s.freed ++ [s.q.asked])) :=
        List.perm_append_comm.append_left _
      rw [← List.append_assoc _ s.freed] at hlast
      exact hlast.trans (hperm.append_right _)
    · have hplaces : places old (fresh ++ [(item, t)]) stack' =
          places old fresh (item :: stack') := by
        simp [places]
      show ((places old (fresh ++ [(item, t)]) stack').map _ ++ s.freed).Perm (List.range q'.asked)
      rw [hasked, hplaces]
      exact hperm

/-- **A get** places the nodes that it releases. -/
theorem get (al : Allocator α) (h : Placed s pending) :
    ∃ s', s.call al .get = some (pending.head?, s') ∧ s.q.get = some (pending.head?, s'.q) ∧
      Placed s' pending.tail := by
  obtain ⟨old, fresh, stack, hholds, hstack, hperm, rfl⟩ := h
  obtain ⟨q', freed, old', stack', hwatched, hget, hholds', hstack', hmoved, hasked⟩ :=
    hholds.get_watched hstack
  rw [List.head?_map]
  refine ⟨{ s with q := q', freed := s.freed ++ freed.map s.born }, ?_, hget, old', _, stack',
    hholds', hstack', ?_, List.map_tail⟩
  · rw [Owner.call, hwatched]
    rfl
  · have hborn := hmoved.map s.born
    rw [List.map_append] at hborn
    show ((places old' fresh.tail stack').map s.born ++ (s.freed ++ freed.map s.born)).Perm
      (List.range q'.asked)
    rw [hasked]
    have hswap : ((places old' fresh.tail stack').map s.born ++ (s.freed ++ freed.map s.born)).Perm
        ((places old' fresh.tail stack').map s.born ++ (freed.map s.born ++ s.freed)) :=
      List.perm_append_comm.append_left _
    rw [← List.append_assoc _ (freed.map s.born)] at hswap
    exact (hswap.trans (hborn.append_right s.freed)).trans hperm

/-- **One call** is not stuck and answers as the call without the check. -/
theorem call (al : Allocator α) (h : Placed s pending) (c : Call α) :
    ∃ s', s.call al c = some ((Fifo.answer pending c).1, s') ∧
      s.q.call al c = some ((Fifo.answer pending c).1, s'.q) ∧
      Placed s' (Fifo.answer pending c).2 := by
  cases c with
  | put t =>
    obtain ⟨s', hcall, hput, h'⟩ := h.put al t
    refine ⟨s', hcall, ?_, h'⟩
    rw [InfiniteLinkQueue.call, hput]
    rfl
  | get =>
    obtain ⟨s', hcall, hget, h'⟩ := h.get al
    cases pending with
    | nil => exact ⟨s', hcall, hget, h'⟩
    | cons t pending => exact ⟨s', hcall, hget, h'⟩

/-- **A run of calls.** -/
theorem exec (al : Allocator α) (h : Placed s pending) (calls : List (Call α)) :
    ∃ s', Lib.exec (Owner.call al) s calls = some ((answers Fifo.answer pending calls).1, s') ∧
      Lib.exec (InfiniteLinkQueue.call al) s.q calls =
        some ((answers Fifo.answer pending calls).1, s'.q) ∧
      Placed s' (answers Fifo.answer pending calls).2 := by
  induction calls generalizing s pending with
  | nil => exact ⟨s, rfl, rfl, h⟩
  | cons c calls ih =>
    obtain ⟨s₁, hcall, hcall', h₁⟩ := h.call al c
    obtain ⟨s₂, hexec, hexec', h₂⟩ := ih h₁
    exact ⟨s₂, exec_cons_eq_some hcall hexec, exec_cons_eq_some hcall' hexec', h₂⟩

/-- **The drop** deallocates every node that was not deallocated before. -/
theorem drop (h : Placed s pending) :
    ∃ s', s.drop = some s' ∧ s'.freed.Perm (List.range s.q.asked) := by
  obtain ⟨old, fresh, stack, hholds, hstack, hperm, -⟩ := h
  obtain ⟨q', freed, stack', hdealloc, hstack', hmoved, -⟩ :=
    Watched.deallocall_eq hholds hstack
  obtain ⟨hdrop, -⟩ := hstack'.drop_eq (by decide) q'.cells
  have hdropped : (q'.recycle.drop q'.cells).1.Perm stack' := by
    rw [hdrop]
    exact List.reverse_perm _
  have hplaces : (freed ++ (q'.recycle.drop q'.cells).1).Perm (places old fresh stack) :=
    (hdropped.append_left freed).trans (List.perm_append_comm.trans hmoved)
  refine ⟨{ s with
    q := { q' with recycle := (q'.recycle.drop q'.cells).2.1
                   cells := (q'.recycle.drop q'.cells).2.2 }
    freed := s.freed ++ (freed ++ (q'.recycle.drop q'.cells).1).map s.born }, ?_, ?_⟩
  · rw [Owner.drop, hdealloc]
    rfl
  · have hborn := (hplaces.map s.born).append_left s.freed
    exact (hborn.trans List.perm_append_comm).trans hperm

end Placed

/-- **Every node is owned once and deallocated once.**  Whatever addresses the allocator returns, no
call of a sequence reads or writes a node that is deallocated or cached, and the checked calls do
what the calls do; after them each node is linked, cached or deallocated, in one place; and the drop
of the queue deallocates the others. -/
theorem nodes_owned_once (al : Allocator α) (calls : List (Call α)) :
    ∃ s : Owner α,
      exec (Owner.call al) Owner.new calls = some ((answers Fifo.answer [] calls).1, s) ∧
      exec (call al) new calls = some ((answers Fifo.answer [] calls).1, s.q) ∧
      Owned s ∧ ∃ s', s.drop = some s' ∧ s'.freed.Perm (List.range s.q.asked) := by
  obtain ⟨s, hexec, hexec', hplaced⟩ := Placed.new.exec al calls
  exact ⟨s, hexec, hexec', hplaced.owned, hplaced.drop⟩

end WaterNet.Queue.InfiniteLinkQueue
