import Mathlib.Data.Fintype.EquivFin
import Mathlib.Data.List.Chain
import WaterNet.Queue.Link

/-!
# `InfiniteLinkQueue` is a FIFO

Calls that do not overlap keep the list in one shape: the nodes that were consumed, then a node for
each pending value, every neighbouring pair linked both ways.  `lst` is a consumed node or
the first pending one.  The cells in the cache are in no list, so a put that takes one of them
disturbs no node.

* `Holds` — that shape;
* `taildealloc_eq` — a release recycles the nodes before one and touches no other;
* `put_holds`, `get_holds` — a call keeps the shape and answers as the FIFO;
* `link_fifo` — the queue refines the FIFO.
-/

namespace WaterNet.Queue.InfiniteLinkQueue

open Lib
open Lib.Fifo (Call)

variable {α : Type*}

/-- `b` was put right after `a`, and they are linked both ways. -/
def Linked (cells : Cells α) (a b : Ptr) : Prop :=
  (cells a).map Item.prev = some b ∧ (cells b).map Item.next = some a

theorem getLastD_of_ne_nil {l : List Ptr} (h : l ≠ []) (d : Ptr) : l.getLastD d = l.getLast h := by
  rw [List.getLastD_eq_getLast?, List.getLast?_eq_some_getLast h]
  rfl

/-- Where the last of some linked nodes leads, when the first leads nowhere. -/
theorem next_of_isChain {cells : Cells α} {l : List Ptr} {p : Ptr}
    (hlinked : (l ++ [p]).IsChain (Linked cells))
    (holdest : ∀ a ∈ (l ++ [p]).head?, (cells a).map Item.next = some 0) :
    (cells p).map Item.next = some (l.getLastD 0) := by
  cases hl : l using List.reverseRecOn with
  | nil => exact holdest p (by simp [hl])
  | append_singleton l a =>
    rw [hl] at hlinked
    have hpair := (List.isChain_append.mp hlinked).2.2 a (by simp) p (by simp)
    simpa using hpair.2

/-- Nodes that are linked in a row, the first and the last of which lead nowhere. -/
structure Linkage (cells : Cells α) (nodes : List Ptr) : Prop where
  nodup : (0 :: nodes).Nodup
  linked : nodes.IsChain (Linked cells)
  oldest : ∀ p ∈ nodes.head?, (cells p).map Item.next = some 0
  newest : ∀ p ∈ nodes.getLast?, (cells p).map Item.prev = some 0

namespace Linkage

variable {cells cells' : Cells α} {nodes l₁ l₂ : List Ptr} {p : Ptr}

theorem nil (cells : Cells α) : Linkage cells [] :=
  ⟨by simp, List.isChain_nil, by simp, by simp⟩

theorem ne_zero (h : Linkage cells nodes) (hp : p ∈ nodes) : p ≠ 0 := by
  rintro rfl
  exact (List.nodup_cons.mp h.nodup).1 hp

theorem next_eq (h : Linkage cells (l₁ ++ p :: l₂)) :
    (cells p).map Item.next = some (l₁.getLastD 0) := by
  have hsplit : l₁ ++ p :: l₂ = (l₁ ++ [p]) ++ l₂ := by simp
  have hlinked := (List.isChain_append.mp (hsplit ▸ h.linked)).1
  refine next_of_isChain hlinked fun a ha => h.oldest a ?_
  rw [hsplit, List.head?_append, Option.mem_def.mp ha]
  rfl

theorem prev_eq (h : Linkage cells (l₁ ++ p :: l₂)) :
    (cells p).map Item.prev = some (l₂.headD 0) := by
  cases l₂ with
  | nil => exact h.newest p (by simp)
  | cons b l =>
    have hpair := (List.isChain_append.mp h.linked).2.1
    exact (List.isChain_cons_cons.mp hpair).1.1

theorem isSome (h : Linkage cells nodes) (hp : p ∈ nodes) : (cells p).isSome = true := by
  obtain ⟨l₁, l₂, rfl⟩ := List.append_of_mem hp
  exact Option.isSome_map ▸ (h.next_eq ▸ rfl : ((cells p).map Item.next).isSome = true)

/-- Only the links of the nodes matter. -/
theorem congr (h : Linkage cells nodes)
    (hnext : ∀ p ∈ nodes, (cells' p).map Item.next = (cells p).map Item.next)
    (hprev : ∀ p ∈ nodes, (cells' p).map Item.prev = (cells p).map Item.prev) :
    Linkage cells' nodes := by
  refine ⟨h.nodup, ?_, fun p hp => ?_, fun p hp => ?_⟩
  · refine h.linked.imp_of_mem_imp fun a b ha hb hab => ⟨?_, ?_⟩
    · rw [hprev a ha, hab.1]
    · rw [hnext b hb, hab.2]
  · rw [hnext p (List.mem_of_mem_head? hp), h.oldest p hp]
  · rw [hprev p (List.mem_of_mem_getLast? hp), h.newest p hp]

/-- Whatever happens to other cells. -/
theorem congr_cells (h : Linkage cells nodes) (hsame : ∀ p ∈ nodes, cells' p = cells p) :
    Linkage cells' nodes :=
  h.congr (fun p hp => congrArg _ (hsame p hp)) (fun p hp => congrArg _ (hsame p hp))

/-- The nodes from one on, when that one leads nowhere any more. -/
theorem cut (h : Linkage cells (l₁ ++ p :: l₂)) (hsame : ∀ a ∈ l₂, cells' a = cells a)
    (hnext : (cells' p).map Item.next = some 0)
    (hprev : (cells' p).map Item.prev = (cells p).map Item.prev) : Linkage cells' (p :: l₂) := by
  have hsub : (0 :: p :: l₂).Sublist (0 :: (l₁ ++ p :: l₂)) :=
    (List.sublist_append_right l₁ (p :: l₂)).cons_cons 0
  have hchain := (List.isChain_append.mp h.linked).2.1
  have hnotin : p ∉ l₂ := (List.nodup_cons.mp (List.nodup_cons.mp (h.nodup.sublist hsub)).2).1
  refine ⟨h.nodup.sublist hsub, ?_, fun a ha => ?_, fun a ha => ?_⟩
  · cases l₂ with
    | nil => exact List.isChain_singleton p
    | cons b l =>
      obtain ⟨⟨hab, hba⟩, hrest⟩ := List.isChain_cons_cons.mp hchain
      refine List.isChain_cons_cons.mpr ⟨⟨hprev.trans hab, ?_⟩, ?_⟩
      · rw [hsame b List.mem_cons_self, hba]
      · refine hrest.imp_of_mem_imp fun c d hc hd hcd => ?_
        rw [Linked, hsame c hc, hsame d hd]
        exact hcd
  · obtain rfl : p = a := by simpa using ha
    exact hnext
  · have hlast : a ∈ (l₁ ++ p :: l₂).getLast? := by
      rw [List.getLast?_append_of_ne_nil _ (List.cons_ne_nil p l₂)]
      exact ha
    have hzero := h.newest a hlast
    by_cases heq : a = p
    · rw [heq, hprev, ← heq, hzero]
    · have hmem : a ∈ l₂ := (List.mem_cons.mp (List.mem_of_mem_getLast? ha)).resolve_left heq
      rw [hsame a hmem, hzero]

/-- A new node behind the others, which leads to the last of them and to which that one leads. -/
theorem snoc (h : Linkage cells nodes) (hfresh : p ∉ 0 :: nodes)
    (hnext : ∀ a ∈ nodes, (cells' a).map Item.next = (cells a).map Item.next)
    (hprev : ∀ a ∈ nodes, a ∉ nodes.getLast? →
      (cells' a).map Item.prev = (cells a).map Item.prev)
    (hlast : ∀ a ∈ nodes.getLast?, (cells' a).map Item.prev = some p)
    (hp : (cells' p).map Item.next = some (nodes.getLastD 0))
    (hp' : (cells' p).map Item.prev = some 0) : Linkage cells' (nodes ++ [p]) := by
  refine ⟨?_, List.isChain_append.mpr ⟨?_, List.isChain_singleton p, ?_⟩, fun a ha => ?_, ?_⟩
  · rw [← List.cons_append]
    exact List.nodup_append_comm.mp (List.nodup_cons.mpr ⟨hfresh, h.nodup⟩)
  · refine h.linked.imp_of_mem_imp fun a b ha hb hab => ⟨?_, ?_⟩
    · -- the last node leads nowhere, so it is not the first of a pair
      have hnot : a ∉ nodes.getLast? := fun hmem => by
        have hzero := h.newest a hmem
        rw [hab.1, Option.some.injEq] at hzero
        exact h.ne_zero hb hzero
      rw [hprev a ha hnot, hab.1]
    · rw [hnext b hb, hab.2]
  · intro a ha b hb
    obtain rfl : p = b := by simpa using hb
    refine ⟨hlast a ha, ?_⟩
    rw [hp, List.getLastD_eq_getLast?, Option.mem_def.mp ha, Option.getD_some]
  · cases nodes with
    | nil =>
      obtain rfl : p = a := by simpa using ha
      exact hp
    | cons b l =>
      have hb : a ∈ (b :: l).head? := ha
      rw [hnext a (List.mem_of_mem_head? hb), h.oldest a hb]
  · intro a ha
    rw [List.getLast?_concat, Option.mem_some] at ha
    exact ha ▸ hp'

/-- `link` puts a new node behind the others: the last of them leads to it, the rest is as before. -/
theorem behind {i : Item α} (h : Linkage cells nodes) (hfresh : p ∉ 0 :: nodes)
    (hkept : ∀ a ∈ nodes, a ∉ nodes.getLast? → cells' a = cells a)
    (hled : ∀ a ∈ nodes.getLast?, cells' a = (cells a).map fun j => { j with prev := p })
    (hat : cells' p = some { i with next := nodes.getLastD 0 }) (hi : i.prev = 0) :
    Linkage cells' (nodes ++ [p]) := by
  refine h.snoc hfresh (fun a ha => ?_) (fun a ha hnot => ?_) (fun a ha => ?_) ?_ ?_
  · by_cases hlast : a ∈ nodes.getLast?
    · rw [hled a hlast, Option.map_map]
      rfl
    · rw [hkept a ha hlast]
  · rw [hkept a ha hnot]
  · obtain ⟨j, hj⟩ := Option.isSome_iff_exists.mp (h.isSome (List.mem_of_mem_getLast? ha))
    rw [hled a ha, hj]
    rfl
  · rw [hat]
    rfl
  · rw [hat, ← hi]
    rfl

/-- What such a node holds is as before, but where it leads. -/
theorem cell_behind {j : Item α} {a : Ptr}
    (hkept : ∀ a ∈ nodes, a ∉ nodes.getLast? → cells' a = cells a)
    (hled : ∀ a ∈ nodes.getLast?, cells' a = (cells a).map fun j => { j with prev := p })
    (ha : a ∈ nodes) (hj : cells a = some j) :
    ∃ prev, cells' a = some { j with prev := prev } := by
  by_cases hlast : a ∈ nodes.getLast?
  · exact ⟨p, by rw [hled a hlast, hj]; rfl⟩
  · exact ⟨j.prev, (hkept a ha hlast).trans hj⟩

end Linkage

/-! ### The release -/

/-- What a release leaves of the queue: only the cache and the cells it recycled are different. -/
structure Recycled (q q' : InfiniteLinkQueue α) (live : List Ptr) : Prop where
  others : q' = { q with cells := q'.cells, recycle := q'.recycle }
  caches : q'.recycle.Caches q'.cells live
  kept : ∀ p ∈ live, q'.cells p = q.cells p
  fewer : ∀ p, q'.cells p = q.cells p ∨ q'.cells p = none

/-- The queue after a cell went into the cache. -/
def pushed (q : InfiniteLinkQueue α) (cur : Ptr) : InfiniteLinkQueue α :=
  { q with recycle := (q.recycle.push q.cells cur).1, cells := (q.recycle.push q.cells cur).2 }

/-- The nodes `older` are to be recycled, from the last one on, and the nodes `live` to be kept. -/
structure Releasing (q : InfiniteLinkQueue α) (older live : List Ptr) : Prop where
  linked : older.IsChain (Linked q.cells)
  oldest : ∀ p ∈ older.head?, (q.cells p).map Item.next = some 0
  nodup : (0 :: (older ++ live)).Nodup
  caches : q.recycle.Caches q.cells (older ++ live)

/-- **One round**: the last of the nodes leads to the one before it and goes into the cache. -/
theorem Releasing.round {q : InfiniteLinkQueue α} {older live : List Ptr} {cur : Ptr}
    (h : Releasing q (older ++ [cur]) live) :
    ∃ i, q.cells cur = some i ∧ i.next = older.getLastD 0 ∧ cur ≠ 0 ∧
      Releasing (q.pushed cur) older live ∧
      (∀ p ∈ older ++ cur :: live, (q.pushed cur).cells p = q.cells p) ∧
      ∀ p, (q.pushed cur).cells p = q.cells p ∨ (q.pushed cur).cells p = none := by
  have hsplit : older ++ [cur] ++ live = older ++ cur :: live := by simp
  have hnd := hsplit ▸ h.nodup
  have hcur : cur ≠ 0 := by
    rintro rfl
    exact (List.nodup_cons.mp hnd).1 (by simp)
  obtain ⟨i, hi, hnext⟩ := Option.map_eq_some_iff.mp (next_of_isChain h.linked h.oldest)
  obtain ⟨hpush, hkept, hfewer⟩ :=
    (hsplit ▸ h.caches).push (List.nodup_cons.mp hnd).2 (by rw [hi]; rfl)
  have hsub : (0 :: (older ++ live)).Sublist (0 :: (older ++ cur :: live)) :=
    ((List.sublist_cons_self cur live).append_left older).cons_cons 0
  refine ⟨i, hi, hnext, hcur, ⟨?_, fun p hp => ?_, hnd.sublist hsub, hpush⟩, hkept, hfewer⟩
  · refine (List.isChain_append.mp h.linked).1.imp_of_mem_imp fun a b ha hb hab => ?_
    have hsame : ∀ p ∈ older, (q.pushed cur).cells p = q.cells p := fun p hp =>
      hkept p (List.mem_append_left _ hp)
    rw [Linked, hsame a ha, hsame b hb]
    exact hab
  · have hsame : (q.pushed cur).cells p = q.cells p :=
      hkept p (List.mem_append_left _ (List.mem_of_mem_head? hp))
    rw [hsame]
    exact h.oldest p (by simp [Option.mem_def.mp hp])

theorem taildeallocLoop_eq {q : InfiniteLinkQueue α} {older live : List Ptr} {fuel : ℕ}
    (h : Releasing q older live) (hfuel : older.length < fuel) :
    ∃ q', taildeallocLoop fuel q (older.getLastD 0) = some q' ∧ Recycled q q' live := by
  induction older using List.reverseRecOn generalizing q fuel with
  | nil =>
    obtain ⟨fuel, rfl⟩ := Nat.exists_eq_succ_of_ne_zero (Nat.ne_zero_of_lt hfuel)
    refine ⟨q, by simp [taildeallocLoop], rfl, h.caches, fun p _ => rfl, fun p => Or.inl rfl⟩
  | append_singleton older cur ih =>
    obtain ⟨fuel, rfl⟩ := Nat.exists_eq_succ_of_ne_zero (Nat.ne_zero_of_lt hfuel)
    obtain ⟨i, hi, hnext, hcur, hnextround, hkept, hfewer⟩ := h.round
    have hround : taildeallocLoop (fuel + 1) q ((older ++ [cur]).getLastD 0) =
        taildeallocLoop fuel (q.pushed cur) (older.getLastD 0) := by
      simp [taildeallocLoop, hcur, hi, hnext, pushed]
    have hlen : older.length < fuel := by
      rw [List.length_append, List.length_singleton] at hfuel
      omega
    obtain ⟨q', hloop, hrest⟩ := ih hnextround hlen
    refine ⟨q', hround.trans hloop, ?_, hrest.caches, fun p hp => ?_, fun p => ?_⟩
    · rw [hrest.others]
      rfl
    · rw [hrest.kept p hp]
      exact hkept p (by simp [hp])
    · rcases hrest.fewer p with heq | hnone
      · rw [heq]
        exact hfewer p
      · exact Or.inr hnone

/-- **A release** recycles the nodes before `cur`; of the others it changes only that `cur` leads to
none of these any more. -/
structure Released (q q' : InfiniteLinkQueue α) (cur : Ptr) (newer : List Ptr) : Prop where
  others : q' = { q with cells := q'.cells, recycle := q'.recycle }
  linkage : Linkage q'.cells (cur :: newer)
  caches : q'.recycle.Caches q'.cells (cur :: newer)
  cur : q'.cells cur = (q.cells cur).map fun i => { i with next := 0 }
  newer : ∀ p ∈ newer, q'.cells p = q.cells p
  fewer : ∀ p, (q'.cells p).isSome = true → (q.cells p).isSome = true

theorem taildealloc_eq {q : InfiniteLinkQueue α} {older newer : List Ptr} {cur : Ptr}
    (hlink : Linkage q.cells (older ++ cur :: newer))
    (hcaches : q.recycle.Caches q.cells (older ++ cur :: newer)) (hlen : older.length ≤ q.asked) :
    ∃ q', q.taildealloc cur = some q' ∧ Released q q' cur newer := by
  obtain ⟨i, hi, hnext⟩ := Option.map_eq_some_iff.mp hlink.next_eq
  have holdest : ∀ p ∈ older.head?, (q.cells p).map Item.next = some 0 := fun p hp =>
    hlink.oldest p (by rw [List.head?_append, Option.mem_def.mp hp]; rfl)
  obtain ⟨q₁, hloop, hrec⟩ := taildeallocLoop_eq
    ⟨(List.isChain_append.mp hlink.linked).1, holdest, hlink.nodup, hcaches⟩
    (Nat.lt_succ_of_le hlen)
  have hcur : q₁.cells cur = some i := (hrec.kept cur List.mem_cons_self).trans hi
  let cells := Function.update q₁.cells cur (some { i with next := 0 })
  have hat : cells cur = some { i with next := 0 } := Function.update_self _ _ _
  have hout : ∀ p, p ≠ cur → cells p = q₁.cells p := fun p hp => Function.update_of_ne hp _ _
  have hsub : (cur :: newer).Sublist (0 :: (older ++ cur :: newer)) :=
    (List.sublist_append_right older (cur :: newer)).cons 0
  have hnotin : cur ∉ newer := (List.nodup_cons.mp (hlink.nodup.sublist hsub)).1
  have hnewer : ∀ p ∈ newer, cells p = q.cells p := by
    intro p hp
    rw [hout p fun heq => hnotin (heq ▸ hp)]
    exact hrec.kept p (List.mem_cons_of_mem cur hp)
  refine ⟨{ q₁ with cells := cells }, ?_, ?_, ?_, ?_, ?_, hnewer, fun p hp => ?_⟩
  · have hloop' : taildeallocLoop (q.asked + 1) q i.next = some q₁ := hnext ▸ hloop
    simp [taildealloc, hi, hloop', Cells.modify, hcur, cells]
  · rw [hrec.others]
  · refine hlink.cut hnewer ?_ ?_
    · show (cells cur).map Item.next = some 0
      rw [hat]
      rfl
    · show (cells cur).map Item.prev = _
      rw [hat, hi]
      rfl
  · refine hrec.caches.congr fun slot p hslot hp => ?_
    obtain ⟨hnot, hsome⟩ := hrec.caches.apart slot p hslot hp
    refine ⟨hnot, ?_⟩
    show (cells p).isSome = true
    rw [hout p fun heq => hnot (heq ▸ List.mem_cons_self)]
    exact hsome
  · show cells cur = _
    rw [hat, hi]
    rfl
  · by_cases heq : p = cur
    · rw [heq, hi]
      rfl
    · have hsome : (q₁.cells p).isSome = true := (congrArg Option.isSome (hout p heq)) ▸ hp
      rcases hrec.fewer p with hsame | hnone
      · rw [← hsame]
        exact hsome
      · rw [hnone] at hsome
        cases hsome

/-! ### The shape of the queue -/

/-- **The queue holds the pending values.**  Before them are the consumed nodes `old`; `lst` is one of
these or the first pending node.  `used` are the addresses that were ever allocated. -/
structure Holds (q : InfiniteLinkQueue α) (old : List Ptr) (fresh : List (Ptr × α)) : Prop where
  linkage : Linkage q.cells (old ++ fresh.map Prod.fst)
  consumed : ∀ p ∈ old, ∃ i, q.cells p = some i ∧ i.claimed = true
  pending : ∀ x ∈ fresh, ∃ i, q.cells x.1 = some i ∧ i.claimed = false ∧ i.needrel = false ∧
    i.payload = x.2
  ptr : q.ptr = (old ++ fresh.map Prod.fst).getLastD 0
  lst : q.lst ∈ old ∨ q.lst = (fresh.map Prod.fst).headD 0 ∧ (fresh = [] → old = [])
  idle : q.doingrel = false
  caches : q.recycle.Caches q.cells (old ++ fresh.map Prod.fst)
  allocated : ∃ used : List Ptr, used.length ≤ q.asked ∧ ∀ p, (q.cells p).isSome = true → p ∈ used

namespace Holds

variable {q : InfiniteLinkQueue α} {old : List Ptr} {fresh : List (Ptr × α)}

/-- There are no more nodes than were allocated. -/
theorem length_le (h : Holds q old fresh) : (old ++ fresh.map Prod.fst).length ≤ q.asked := by
  obtain ⟨used, hlen, hused⟩ := h.allocated
  have hnd := (List.nodup_cons.mp h.linkage.nodup).2
  exact (List.Nodup.length_le_of_subset hnd fun p hp =>
    hused p (h.linkage.isSome hp)).trans hlen

/-- The counters of the queue do not matter, and `lst` may move on to another consumed node or to
the first pending one. -/
theorem moved (h : Holds q old fresh) {lst : Ptr} (rinside len : UInt64)
    (hlst : lst ∈ old ∨ lst = (fresh.map Prod.fst).headD 0 ∧ (fresh = [] → old = [])) :
    Holds { q with lst := lst, rinside := rinside, len := len } old fresh :=
  ⟨h.linkage, h.consumed, h.pending, h.ptr, hlst, h.idle, h.caches, h.allocated⟩

/-- **A release** at a consumed node forgets the nodes before it. -/
theorem release {older newer : List Ptr} {cur : Ptr} (h : Holds q (older ++ cur :: newer) fresh)
    (hlst : q.lst = cur) :
    ∃ q', q.release cur = some q' ∧ q' = { q with cells := q'.cells, recycle := q'.recycle } ∧
      q'.cells cur = (q.cells cur).map (fun i => { i with next := 0 }) ∧
      Holds q' (cur :: newer) fresh := by
  have hsplit : (older ++ cur :: newer) ++ fresh.map Prod.fst =
      older ++ cur :: (newer ++ fresh.map Prod.fst) := by simp
  have hlink := hsplit ▸ h.linkage
  have hlen : older.length ≤ q.asked := by
    have hle := h.length_le
    rw [hsplit, List.length_append] at hle
    omega
  obtain ⟨q₁, hdealloc, hrel⟩ := taildealloc_eq (q := { q with doingrel := true }) hlink
    (hsplit ▸ h.caches) hlen
  have hothers := hrel.others
  refine ⟨{ q₁ with doingrel := false }, ?_, ?_, hrel.cur, ?_⟩
  · simp [InfiniteLinkQueue.release, h.idle, hdealloc]
  · rw [hothers, h.idle]
  · refine ⟨hrel.linkage, fun p hp => ?_, fun x hx => ?_, ?_, Or.inl ?_, rfl, hrel.caches, ?_⟩
    · rcases List.mem_cons.mp hp with rfl | hmem
      · obtain ⟨i, hi, hclaimed⟩ := h.consumed p (by simp)
        have hcur : q₁.cells p = (q.cells p).map fun i => { i with next := 0 } := hrel.cur
        exact ⟨{ i with next := 0 }, by rw [hcur, hi]; rfl, hclaimed⟩
      · obtain ⟨i, hi, hclaimed⟩ := h.consumed p (by simp [hmem])
        exact ⟨i, (hrel.newer p (List.mem_append_left _ hmem)).trans hi, hclaimed⟩
    · obtain ⟨i, hi, hmarks⟩ := h.pending x hx
      exact ⟨i, (hrel.newer x.1 (List.mem_append_right _ (List.mem_map_of_mem hx))).trans hi, hmarks⟩
    · have hptr : q₁.ptr = q.ptr := by rw [hothers]
      show q₁.ptr = _
      rw [hptr, h.ptr, hsplit]
      simp [List.getLastD_eq_getLast?, List.getLast?_append, List.getLast?_cons]
    · have hsame : q₁.lst = q.lst := by rw [hothers]
      show q₁.lst ∈ cur :: newer
      rw [hsame, hlst]
      exact List.mem_cons_self
    · obtain ⟨used, hle, hused⟩ := h.allocated
      have hasked : q₁.asked = q.asked := by rw [hothers]
      exact ⟨used, hasked ▸ hle, fun p hp => hused p (hrel.fewer p hp)⟩

/-! ### Get -/

/-- **The claim** of the first pending node. -/
theorem claim {p : Ptr} {t : α} (h : Holds q old ((p, t) :: fresh)) (fuel : ℕ) (first : Bool) :
    ∃ q', claimLoop (fuel + 1) q p first = some (some t, q') ∧ q'.len = q.len - 1 ∧
      Holds q' (old ++ [p]) fresh := by
  have hlink : Linkage q.cells (old ++ p :: fresh.map Prod.fst) := h.linkage
  obtain ⟨i, hi, hclaimed, -, rfl⟩ := h.pending (p, t) List.mem_cons_self
  obtain ⟨i', hi', hprev⟩ := Option.map_eq_some_iff.mp hlink.prev_eq
  obtain rfl : i = i' := Option.some.inj (hi.symm.trans hi')
  have hp : p ≠ 0 := hlink.ne_zero (by simp)
  have hsplit : (old ++ [p]) ++ fresh.map Prod.fst = old ++ p :: fresh.map Prod.fst := by simp
  let cells := Function.update q.cells p (some { i with claimed := true, needrel := true })
  have hat : cells p = some { i with claimed := true, needrel := true } :=
    Function.update_self _ _ _
  have hout : ∀ a, a ≠ p → cells a = q.cells a := fun a ha => Function.update_of_ne ha _ _
  have hnd := (List.nodup_cons.mp hlink.nodup).2
  have hnot : p ∉ old ++ fresh.map Prod.fst :=
    (List.nodup_cons.mp (List.perm_middle.nodup_iff.mp hnd)).1
  have hlinkage : Linkage cells (old ++ p :: fresh.map Prod.fst) := by
    refine hlink.congr (fun a _ => ?_) (fun a _ => ?_)
    · by_cases heq : a = p
      · rw [heq, hi', hat]
        rfl
      · rw [hout a heq]
    · by_cases heq : a = p
      · rw [heq, hi', hat]
        rfl
      · rw [hout a heq]
  -- `lst` moves on if it is `p` and `p` is not the last node
  let lst := if first = true ∧ i.prev ≠ 0 ∧ q.lst = p then i.prev else q.lst
  have hlst : lst ∈ old ++ [p] ∨ lst = (fresh.map Prod.fst).headD 0 ∧ (fresh = [] → old ++ [p] = []) := by
    by_cases hmove : first = true ∧ i.prev ≠ 0 ∧ q.lst = p
    · refine Or.inr ⟨(if_pos hmove).trans hprev, fun hnil => ?_⟩
      rw [hnil] at hprev
      exact absurd hprev hmove.2.1
    · rw [show lst = q.lst from if_neg hmove]
      rcases h.lst with hold | ⟨hhead, -⟩
      · exact Or.inl (List.mem_append_left _ hold)
      · exact Or.inl (by simp [hhead])
  refine ⟨{ q with cells := cells, lst := lst, len := q.len - 1, needrel := q.needrel + 1
                   rinside := q.rinside - 1 }, ?_, rfl, ?_⟩
  · cases first <;> by_cases hmove : i.prev ≠ 0 ∧ q.lst = p <;>
      simp [claimLoop, hp, hi, hclaimed, advanceLst, hmove, Function.update_idem, cells, lst]
  · refine ⟨?_, fun a ha => ?_, fun x hx => ?_, ?_, hlst, h.idle, ?_, ?_⟩
    · rw [hsplit]
      exact hlinkage
    · rcases List.mem_append.mp ha with hold | hnew
      · obtain ⟨j, hj, hmarks⟩ := h.consumed a hold
        exact ⟨j, (hout a fun heq => hnot (heq ▸ List.mem_append_left _ hold)).trans hj, hmarks⟩
      · obtain rfl := List.mem_singleton.mp hnew
        exact ⟨_, hat, rfl⟩
    · obtain ⟨j, hj, hmarks⟩ := h.pending x (List.mem_cons_of_mem _ hx)
      have hne : x.1 ≠ p := fun heq =>
        hnot (List.mem_append_right _ (heq ▸ List.mem_map_of_mem hx))
      exact ⟨j, (hout x.1 hne).trans hj, hmarks⟩
    · rw [hsplit]
      exact h.ptr
    · rw [hsplit]
      refine h.caches.congr fun slot a hslot ha => ?_
      obtain ⟨hna, hsome⟩ := h.caches.apart slot a hslot ha
      refine ⟨hna, ?_⟩
      exact (congrArg Option.isSome (hout a fun heq => hna (by simp [heq]))).trans hsome
    · obtain ⟨used, hle, hused⟩ := h.allocated
      refine ⟨used, hle, fun a ha => ?_⟩
      by_cases heq : a = p
      · exact hused a (by rw [heq, hi]; rfl)
      · exact hused a (hout a heq ▸ ha)

/-- **The loop of `get`** passes the consumed nodes that are left and claims the first pending one. -/
theorem claimLoop_eq {passed left : List Ptr} (h : Holds q (passed ++ left) fresh) {fuel : ℕ}
    (hfuel : left.length < fuel) (first : Bool) :
    ∃ q' old', claimLoop fuel q ((left ++ fresh.map Prod.fst).headD 0) first =
        some (fresh.head?.map Prod.snd, q') ∧
      q'.len = (if fresh = [] then q.len else q.len - 1) ∧ Holds q' old' fresh.tail := by
  induction left generalizing passed fuel first with
  | nil =>
    obtain ⟨fuel, rfl⟩ := Nat.exists_eq_succ_of_ne_zero (Nat.ne_zero_of_lt hfuel)
    cases fresh with
    | nil =>
      exact ⟨{ q with rinside := q.rinside - 1 }, passed ++ [], rfl, rfl, h.moved _ _ h.lst⟩
    | cons x rest =>
      obtain ⟨q', hclaim, hlen, hholds⟩ := h.claim fuel first
      exact ⟨q', _, hclaim, hlen, hholds⟩
  | cons c left ih =>
    obtain ⟨fuel, rfl⟩ := Nat.exists_eq_succ_of_ne_zero (Nat.ne_zero_of_lt hfuel)
    have hsplit : passed ++ c :: left = (passed ++ [c]) ++ left := by simp
    obtain ⟨i, hi, hclaimed⟩ := h.consumed c (by simp)
    have hlink : Linkage q.cells (passed ++ c :: (left ++ fresh.map Prod.fst)) := by
      have hlinkage := h.linkage
      rwa [List.append_assoc, List.cons_append] at hlinkage
    obtain ⟨i', hi', hprev⟩ := Option.map_eq_some_iff.mp hlink.prev_eq
    obtain rfl : i = i' := Option.some.inj (hi.symm.trans hi')
    have hc : c ≠ 0 := hlink.ne_zero (by simp)
    obtain ⟨q', old', hloop, hrest⟩ := ih (hsplit ▸ h) (Nat.lt_of_succ_lt_succ hfuel) false
    refine ⟨q', old', ?_, hrest⟩
    rw [← hloop, ← hprev]
    simp [claimLoop, hc, hi, hclaimed]

/-- Without the mark on the node at `lst`, the loop starts there. -/
theorem get_unmarked {passed left : List Ptr} {i : Item α} (h : Holds q (passed ++ left) fresh)
    (hlst : q.lst = (left ++ fresh.map Prod.fst).headD 0) (hne : q.lst ≠ 0)
    (hi : q.cells q.lst = some i) (hneedrel : i.needrel = false) :
    ∃ q' old', q.get = some (fresh.head?.map Prod.snd, q') ∧
      q'.len = (if fresh = [] then q.len else q.len - 1) ∧ Holds q' old' fresh.tail := by
  have hfuel : left.length < q.asked + 1 := by
    have hle := h.length_le
    rw [List.length_append, List.length_append] at hle
    omega
  obtain ⟨q', old', hloop, hrest⟩ := (h.moved (q.rinside + 1) q.len h.lst).claimLoop_eq hfuel true
  refine ⟨q', old', ?_, hrest⟩
  rw [← hloop, ← hlst]
  simp [InfiniteLinkQueue.get, hne, hi, hneedrel]

/-- With the mark on it, that node is released and left behind. -/
theorem get_marked {older newer : List Ptr} {i : Item α} (h : Holds q (older ++ q.lst :: newer) fresh)
    (hi : q.cells q.lst = some i) (hneedrel : i.needrel = true) :
    ∃ q' old', q.get = some (fresh.head?.map Prod.snd, q') ∧
      q'.len = (if fresh = [] then q.len else q.len - 1) ∧ Holds q' old' fresh.tail := by
  have hne : q.lst ≠ 0 := h.linkage.ne_zero (by simp)
  obtain ⟨q₁, hrel, hq₁, hcur, h₁⟩ := (h.moved (q.rinside + 1) q.len h.lst).release rfl
  have hlst₁ : q₁.lst = q.lst := by rw [hq₁]
  have hlen₁ : q₁.len = q.len := by rw [hq₁]
  have hi₁ : q₁.cells q.lst = some { i with next := 0 } := by
    rw [hcur]
    exact congrArg _ hi
  have hlink₁ : Linkage q₁.cells ([] ++ q.lst :: (newer ++ fresh.map Prod.fst)) := h₁.linkage
  obtain ⟨i₂, hi₂, hprev⟩ := Option.map_eq_some_iff.mp hlink₁.prev_eq
  obtain rfl := Option.some.inj (hi₁.symm.trans hi₂)
  have hfuel : newer.length < q₁.asked + 1 := by
    have hle := h₁.length_le
    rw [List.length_append, List.length_cons] at hle
    omega
  have h₂ : Holds (q₁.advanceLst q.lst i.prev) ([q.lst] ++ newer) fresh := by
    by_cases h0 : i.prev = 0
    · rw [advanceLst, if_neg fun hand => hand.1 h0]
      exact h₁
    · rw [advanceLst, if_pos ⟨h0, hlst₁⟩]
      refine h₁.moved q₁.rinside q₁.len ?_
      cases newer with
      | nil =>
        refine Or.inr ⟨hprev, fun hnil => ?_⟩
        rw [hnil] at hprev
        exact absurd hprev h0
      | cons c left => exact Or.inl (List.mem_cons_of_mem _ (List.mem_cons.mpr (Or.inl hprev)))
  obtain ⟨q', old', hloop, hlen, hholds⟩ := h₂.claimLoop_eq hfuel true
  have hlen₂ : (q₁.advanceLst q.lst i.prev).len = q₁.len := by
    unfold advanceLst
    split <;> rfl
  refine ⟨q', old', ?_, by rw [hlen, hlen₂, hlen₁], hholds⟩
  rw [← hloop, ← hprev]
  simp [InfiniteLinkQueue.get, hne, hi, hneedrel, hrel, hi₁]

/-- **A get** returns the oldest pending value. -/
theorem get_holds (h : Holds q old fresh) :
    ∃ q' old', q.get = some (fresh.head?.map Prod.snd, q') ∧
      q'.len = (if fresh = [] then q.len else q.len - 1) ∧ Holds q' old' fresh.tail := by
  rcases h.lst with hold | ⟨hhead, hnil⟩
  · obtain ⟨older, newer, rfl⟩ := List.append_of_mem hold
    obtain ⟨i, hi, -⟩ := h.consumed q.lst hold
    cases hneedrel : i.needrel with
    | true => exact h.get_marked hi hneedrel
    | false => exact h.get_unmarked rfl (h.linkage.ne_zero (by simp)) hi hneedrel
  · cases fresh with
    | nil =>
      have hzero : q.lst = 0 := hhead
      refine ⟨{ q with rinside := q.rinside + 1 }, old, ?_, rfl, h.moved _ _ h.lst⟩
      simp [InfiniteLinkQueue.get, hzero]
    | cons x rest =>
      obtain ⟨i, hi, -, hneedrel, -⟩ := h.pending x List.mem_cons_self
      have hx : q.lst = x.1 := hhead
      have h' : Holds q (old ++ []) (x :: rest) := by rwa [List.append_nil]
      exact h'.get_unmarked hhead (hx ▸ h.linkage.ne_zero (by simp)) (hx ▸ hi) hneedrel

end Holds

/-! ### Put -/

theorem isSome_of_update {cells : Cells α} {item a : Ptr} {i : Item α}
    (h : (Function.update cells item (some i) a).isSome = true) :
    a = item ∨ (cells a).isSome = true := by
  by_cases heq : a = item
  · exact Or.inl heq
  · rw [Function.update_of_ne heq] at h
    exact Or.inr h

/-- While finitely many cells are allocated, there is a free one. -/
theorem exists_free {cells : Cells α} {used : List Ptr}
    (hused : ∀ p, (cells p).isSome = true → p ∈ used) : ∃ p, p ≠ 0 ∧ cells p = none := by
  obtain ⟨p, hp⟩ := Infinite.exists_notMem_finset (0 :: used).toFinset
  rw [List.mem_toFinset, List.mem_cons, not_or] at hp
  refine ⟨p, hp.1, ?_⟩
  by_contra hsome
  exact hp.2 (hused p (Option.isSome_iff_ne_none.mpr hsome))

section Put

variable (al : Allocator α) {q : InfiniteLinkQueue α} {t : α} {item : Ptr} {i : Item α}
  {recycle : PointerCache}

theorem newItem_alloc (hpop : q.recycle.pop = (0, recycle)) :
    q.newItem al t = some (al.alloc q.asked q.cells, { q with
      recycle := recycle, asked := q.asked + 1
      cells := Function.update q.cells (al.alloc q.asked q.cells) (some (Item.new t)) }) := by
  rw [newItem, hpop]
  rfl

theorem newItem_reuse (hpop : q.recycle.pop = (item, recycle)) (hne : item ≠ 0)
    (hi : q.cells item = some i) :
    q.newItem al t = some (item, { q with
      recycle := recycle, cells := Function.update q.cells item (some (Item.new t)) }) := by
  rw [newItem, hpop]
  split
  · rename_i heq
    exact absurd (congrArg Prod.fst heq) hne
  · rename_i heq
    obtain ⟨rfl, rfl⟩ := Prod.mk.inj heq
    simp [Cells.modify, hi, Item.new]

theorem link_eq (hi : q.cells item = some i)
    (hptr : q.ptr ≠ 0 → q.ptr ≠ item ∧ (q.cells q.ptr).isSome = true) :
    ∃ q', q.link item = some q' ∧
      q' = { q with cells := q'.cells, ptr := item, lst := if q.ptr ≠ 0 then q.lst else item
                    len := q.len + 1, sent := q.sent + 1 } ∧
      q'.cells item = some { i with next := q.ptr } ∧
      (q.ptr ≠ 0 → q'.cells q.ptr = (q.cells q.ptr).map fun j => { j with prev := item }) ∧
      ∀ a, a ≠ item → (a = q.ptr → q.ptr = 0) → q'.cells a = q.cells a := by
  let cells := Function.update q.cells item (some { i with next := q.ptr })
  have hat : cells item = some { i with next := q.ptr } := Function.update_self _ _ _
  have hout : ∀ a, a ≠ item → cells a = q.cells a := fun a ha => Function.update_of_ne ha _ _
  by_cases h0 : q.ptr = 0
  · refine ⟨{ q with cells := cells, ptr := item, lst := item, len := q.len + 1
                     sent := q.sent + 1 }, ?_, ?_, hat, fun hne => absurd h0 hne,
      fun a ha _ => hout a ha⟩
    · simp [link, Cells.modify, hi, h0, cells]
    · simp [h0]
  · obtain ⟨hne, hsome⟩ := hptr h0
    obtain ⟨j, hj⟩ := Option.isSome_iff_exists.mp hsome
    have hj' : cells q.ptr = some j := (hout _ hne).trans hj
    refine ⟨{ q with cells := Function.update cells q.ptr (some { j with prev := item })
                     ptr := item, len := q.len + 1, sent := q.sent + 1 }, ?_, ?_, ?_, fun _ => ?_,
      fun a ha hold => ?_⟩
    · simp [link, Cells.modify, hi, h0, cells] at hj' ⊢
      simp [hj']
    · simp [h0]
    · exact (Function.update_of_ne hne.symm _ _).trans hat
    · rw [hj]
      exact Function.update_self _ _ _
    · exact (Function.update_of_ne (fun heq => h0 (hold heq)) _ _).trans (hout a ha)

end Put

namespace Holds

variable {q : InfiniteLinkQueue α} {old : List Ptr} {fresh : List (Ptr × α)}

/-- The item of a put is a cell of its own. -/
theorem newItem_eq (al : Allocator α) (h : Holds q old fresh) (t : α) :
    ∃ item q', q.newItem al t = some (item, q') ∧
      q' = { q with cells := Function.update q.cells item (some (Item.new t))
                    recycle := q'.recycle, asked := q'.asked } ∧
      item ∉ 0 :: (old ++ fresh.map Prod.fst) ∧
      q'.recycle.Caches q'.cells (old ++ fresh.map Prod.fst ++ [item]) ∧
      ∃ used : List Ptr, used.length ≤ q'.asked ∧ ∀ p, (q'.cells p).isSome = true → p ∈ used := by
  obtain ⟨used, hle, hused⟩ := h.allocated
  obtain ⟨hpop, hcaches⟩ := h.caches.pop
  cases heq : q.recycle.pop with
  | mk item recycle =>
  rw [heq] at hpop hcaches
  by_cases h0 : item = 0
  · -- a new cell
    subst h0
    obtain ⟨p, hp, hfree⟩ := exists_free hused
    obtain ⟨hne, hnone⟩ := al.fresh q.asked q.cells p hp hfree
    have hapart : ∀ a, (q.cells a).isSome = true → a ≠ al.alloc q.asked q.cells := by
      rintro a ha rfl
      rw [hnone] at ha
      cases ha
    refine ⟨_, _, newItem_alloc al heq, rfl, ?_, ?_, al.alloc q.asked q.cells :: used,
      Nat.succ_le_succ hle, fun a ha => ?_⟩
    · rw [List.mem_cons, not_or]
      exact ⟨hne, fun hmem => hapart _ (h.linkage.isSome hmem) rfl⟩
    · refine hcaches.update _ fun slot a hslot ha hmem => ?_
      obtain ⟨hnot, hsome⟩ := hcaches.apart slot a hslot ha
      rcases List.mem_append.mp hmem with hmem | hmem
      · exact hnot (List.mem_append_left _ hmem)
      · exact hapart a hsome (List.mem_singleton.mp hmem)
    · rcases isSome_of_update ha with rfl | ha
      · exact List.mem_cons_self
      · exact List.mem_cons_of_mem _ (hused a ha)
  · -- a cell of the cache
    obtain ⟨hnot, hsome⟩ := hpop h0
    obtain ⟨i, hi⟩ := Option.isSome_iff_exists.mp hsome
    refine ⟨_, _, newItem_reuse al heq h0 hi, rfl, ?_, ?_, used, hle, fun a ha => ?_⟩
    · rw [List.mem_cons, not_or]
      exact ⟨h0, hnot⟩
    · exact hcaches.update _ fun slot a hslot ha => (hcaches.apart slot a hslot ha).1
    · rcases isSome_of_update ha with rfl | ha
      · exact hused a hsome
      · exact hused a ha

/-- The newest node is the last one. -/
theorem mem_getLast?_iff (h : Holds q old fresh) {a : Ptr} :
    a ∈ (old ++ fresh.map Prod.fst).getLast? ↔ a = q.ptr ∧ q.ptr ≠ 0 := by
  rw [h.ptr, List.getLastD_eq_getLast?]
  cases hl : (old ++ fresh.map Prod.fst).getLast? with
  | none => simp
  | some b =>
    have hb : b ≠ 0 := h.linkage.ne_zero (List.mem_of_mem_getLast? hl)
    rw [Option.mem_some, Option.getD_some]
    exact ⟨fun heq => ⟨heq.symm, hb⟩, fun heq => heq.1.symm⟩

/-- A put leaves `lst` where it is, or sets it to the node of an empty queue. -/
theorem lst_put (h : Holds q old fresh) (x : Ptr × α) :
    (if q.ptr ≠ 0 then q.lst else x.1) ∈ old ∨
      (if q.ptr ≠ 0 then q.lst else x.1) = ((fresh ++ [x]).map Prod.fst).headD 0 ∧
        (fresh ++ [x] = [] → old = []) := by
  by_cases h0 : q.ptr = 0
  · have hnil : old ++ fresh.map Prod.fst = [] := by
      by_contra hne
      have hlast := List.getLast_mem hne
      rw [← getLastD_of_ne_nil hne 0, ← h.ptr, h0] at hlast
      exact h.linkage.ne_zero hlast rfl
    obtain ⟨rfl, hfresh⟩ := List.append_eq_nil_iff.mp hnil
    obtain rfl := List.map_eq_nil_iff.mp hfresh
    simp [h0]
  · rw [if_pos h0]
    rcases h.lst with hold | ⟨hhead, hnil⟩
    · exact Or.inl hold
    · cases fresh with
      | nil => exact absurd (by rw [h.ptr, hnil rfl]; rfl) h0
      | cons x rest => exact Or.inr ⟨hhead, by simp⟩

theorem put_holds (al : Allocator α) (h : Holds q old fresh) (t : α) :
    ∃ item q', q.put al t = some q' ∧ q'.len = q.len + 1 ∧ Holds q' old (fresh ++ [(item, t)]) := by
  obtain ⟨item, q₁, hnew, hq₁, hfresh, hcaches, used, hle, hused⟩ := h.newItem_eq al t
  have hitem : item ∉ old ++ fresh.map Prod.fst := fun hmem =>
    hfresh (List.mem_cons_of_mem 0 hmem)
  have hout : ∀ a, a ≠ item → q₁.cells a = q.cells a := by
    intro a ha
    rw [hq₁]
    exact Function.update_of_ne ha _ _
  have hat : q₁.cells item = some (Item.new t) := by
    rw [hq₁]
    exact Function.update_self _ _ _
  have hlink₁ : Linkage q₁.cells (old ++ fresh.map Prod.fst) :=
    h.linkage.congr_cells fun a ha => hout a fun heq => hitem (heq ▸ ha)
  have hptr : q₁.ptr = q.ptr := by rw [hq₁]
  have hmem : q₁.ptr ≠ 0 → q₁.ptr ∈ old ++ fresh.map Prod.fst := fun h0 =>
    List.mem_of_mem_getLast? (h.mem_getLast?_iff.mpr ⟨hptr, hptr ▸ h0⟩)
  obtain ⟨q₂, hlink, hq₂, hat₂, hptr₂, hout₂⟩ := link_eq hat fun h0 =>
    ⟨fun heq => hitem (heq ▸ hmem h0), hlink₁.isSome (hmem h0)⟩
  have hnodes : old ++ (fresh ++ [(item, t)]).map Prod.fst =
      old ++ fresh.map Prod.fst ++ [item] := by simp
  -- the old nodes are as before, but that the last one leads to the new one
  have hled : ∀ a ∈ (old ++ fresh.map Prod.fst).getLast?,
      q₂.cells a = (q₁.cells a).map fun j => { j with prev := item } := by
    intro a ha
    obtain ⟨rfl, h0⟩ := h.mem_getLast?_iff.mp ha
    rw [← hptr] at h0 ⊢
    exact hptr₂ h0
  have hkept : ∀ a ∈ old ++ fresh.map Prod.fst, a ∉ (old ++ fresh.map Prod.fst).getLast? →
      q₂.cells a = q₁.cells a := by
    intro a ha hnot
    refine hout₂ a (fun heq => hitem (heq ▸ ha)) fun heq => ?_
    by_contra h0
    exact hnot (h.mem_getLast?_iff.mpr ⟨heq.trans hptr, hptr ▸ h0⟩)
  have hcell : ∀ a ∈ old ++ fresh.map Prod.fst, ∀ j, q.cells a = some j →
      ∃ prev, q₂.cells a = some { j with prev := prev } := fun a ha j hj =>
    Linkage.cell_behind hkept hled ha ((hout a fun heq => hitem (heq ▸ ha)).trans hj)
  have hat₂' : q₂.cells item =
      some { Item.new t with next := (old ++ fresh.map Prod.fst).getLastD 0 } := by
    rw [hat₂, hptr, h.ptr]
  have hlst : q₂.lst = if q.ptr ≠ 0 then q.lst else item := by rw [hq₂, hq₁]
  have hlen : q₂.len = q.len + 1 := by rw [hq₂, hq₁]
  refine ⟨item, q₂, by simp [put, hnew, hlink], hlen, ?_, fun a ha => ?_, fun x hx => ?_, ?_, ?_, ?_,
    ?_, used, ?_, fun a ha => ?_⟩
  · rw [hnodes]
    exact hlink₁.behind hfresh hkept hled hat₂' rfl
  · obtain ⟨j, hj, hmarks⟩ := h.consumed a ha
    obtain ⟨prev, hj'⟩ := hcell a (List.mem_append_left _ ha) j hj
    exact ⟨_, hj', hmarks⟩
  · rcases List.mem_append.mp hx with hx | hx
    · obtain ⟨j, hj, hmarks⟩ := h.pending x hx
      obtain ⟨prev, hj'⟩ := hcell x.1 (List.mem_append_right _ (List.mem_map_of_mem hx)) j hj
      exact ⟨_, hj', hmarks⟩
    · obtain rfl := List.mem_singleton.mp hx
      exact ⟨_, hat₂, rfl, rfl, rfl⟩
  · rw [hnodes, hq₂]
    simp [List.getLastD_eq_getLast?]
  · rw [hlst]
    exact h.lst_put (item, t)
  · rw [hq₂, hq₁]
    exact h.idle
  · have hrecycle : q₂.recycle = q₁.recycle := by rw [hq₂]
    rw [hnodes, hrecycle]
    refine hcaches.congr fun slot a hslot ha => ?_
    obtain ⟨hnot, hsome⟩ := hcaches.apart slot a hslot ha
    have hnotmem : a ∉ old ++ fresh.map Prod.fst := fun hm => hnot (List.mem_append_left _ hm)
    have hne : a ≠ item := fun heq => hnot (by simp [heq])
    refine ⟨hnot, ?_⟩
    rw [hout₂ a hne fun heq => by_contra fun h0 => hnotmem (heq ▸ hmem h0)]
    exact hsome
  · rw [hq₂]
    exact hle
  · refine hused a ?_
    by_cases hai : a = item
    · rw [hai, hat]
      rfl
    · by_cases hap : a = q₁.ptr ∧ q₁.ptr ≠ 0
      · exact hap.1 ▸ hlink₁.isSome (hmem hap.2)
      · rw [← hout₂ a hai fun heq => by_contra fun h0 => hap ⟨heq, h0⟩]
        exact ha

end Holds

theorem new_holds : Holds (new : InfiniteLinkQueue α) [] [] := by
  refine ⟨Linkage.nil _, by simp, by simp, rfl, Or.inr ⟨rfl, fun _ => rfl⟩, rfl,
    PointerCache.new_caches _ _ _, [], le_refl 0, fun p hp => ?_⟩
  cases hp

/-- What the queue has to do with the list of pending values. -/
def Agrees (q : InfiniteLinkQueue α) (pending : List α) : Prop :=
  q.len = UInt64.ofNat pending.length ∧ ∃ old fresh, Holds q old fresh ∧ fresh.map Prod.snd = pending

/-- **One call** answers as the FIFO. -/
theorem call_agrees (al : Allocator α) (q : InfiniteLinkQueue α) (pending : List α) (c : Call α)
    (h : Agrees q pending) :
    ∃ q', q.call al c = some ((Fifo.answer pending c).1, q') ∧
      Agrees q' (Fifo.answer pending c).2 := by
  obtain ⟨hlen, old, fresh, hholds, rfl⟩ := h
  rw [List.length_map] at hlen
  cases c with
  | put t =>
    obtain ⟨item, q', hput, hlen', hholds'⟩ := hholds.put_holds al t
    refine ⟨q', ?_, ?_, old, _, hholds', ?_⟩
    · rw [call, hput]
      rfl
    · rw [hlen', hlen]
      simp [Fifo.answer, UInt64.ofNat_add]
    · rw [List.map_append]
      rfl
  | get =>
    obtain ⟨q', old', hget, hlen', hholds'⟩ := hholds.get_holds
    refine ⟨q', ?_, ?_, old', _, hholds', ?_⟩
    · rw [call, hget]
      cases fresh <;> rfl
    · rw [hlen', hlen]
      cases fresh with
      | nil => rfl
      | cons x rest =>
        rw [if_neg (List.cons_ne_nil x rest), List.length_cons, UInt64.ofNat_add]
        simp only [Fifo.answer, List.map_cons, List.length_map]
        exact UInt64.add_sub_cancel _ _
    · cases fresh <;> rfl

/-- **The queue is a FIFO.**  Whatever addresses the allocator returns, each answer to a sequence of
calls is the unbounded FIFO's, and `len` is the number of values put and not yet returned. -/
theorem link_fifo (al : Allocator α) (calls : List (Call α)) :
    ∃ q : InfiniteLinkQueue α,
      exec (call al) new calls = some ((answers Fifo.answer [] calls).1, q) ∧
      q.len = UInt64.ofNat (answers Fifo.answer [] calls).2.length := by
  have hnew : Agrees (new : InfiniteLinkQueue α) [] := ⟨rfl, [], [], new_holds, rfl⟩
  have hok : InputsMeet Fifo.answer (fun _ _ => True) ([] : List α) calls :=
    InputsMeet.of_forall (fun _ _ => trivial) [] calls
  obtain ⟨q, hexec, hlen, -⟩ :=
    exec_eq_of_simulation (fun q pending c h _ => call_agrees al q pending c h) hnew hok
  exact ⟨q, hexec, hlen⟩

end WaterNet.Queue.InfiniteLinkQueue
