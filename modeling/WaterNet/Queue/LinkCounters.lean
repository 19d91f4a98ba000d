import WaterNet.Lib.Machine
import WaterNet.Queue.LinkOwner

/-!
# The release counters of `InfiniteLinkQueue` (`queue.rs`)

`rinside` is meant to be the number of gets that are inside, and `needrel` the number of claimed
nodes that wait in the list.  Every get that claims a node raises `needrel`, and `deallocall` lowers
it by the nodes that it finds, claimed or not; `taildealloc` does not lower it at all.  A get that
finds `lst` null leaves without lowering `rinside`.

* `deallocall` — the release of the whole list when the queue is dropped;
* `put_counters`, `get_counters` — what a call does to the counters, in any state, and
  `needrel_of_exec` what a run does to `needrel`;
* `Holds.get_claimed` — what a get does to the claimed nodes;
* `Holds.emptied_eq` — what the drop counts;
* `Exact` — between the calls the counters say what they are meant to;
* `counters_exact_iff` — **they do, and the drop does not underflow, if no get finds `lst` null or
  recycles a node and no value is pending at the end**, and not otherwise.
-/

namespace WaterNet.Queue.InfiniteLinkQueue

open Lib
open Lib.Fifo (Call)
open Lib.Machine (run StepsMeet run_invariant_of run_all_iff)

variable {α : Type*}

/-! ### The drop of the queue -/

/-- The loop of `deallocall`, which counts its rounds; `none` is also more of them than `fuel`. -/
def deallocallLoop : ℕ → InfiniteLinkQueue α → Ptr → UInt64 → Option (InfiniteLinkQueue α × UInt64)
  | 0, _, _, _ => none
  | fuel + 1, q, cur, cnt =>
    if cur = 0 then some (q, cnt)
    else do
      let i ← q.cells cur
      deallocallLoop fuel (q.pushed cur) i.next (cnt + 1)

/-- The queue when the loop is done, and what `deallocall` is about to subtract from `needrel`. -/
def emptied (q : InfiniteLinkQueue α) : Option (InfiniteLinkQueue α × UInt64) :=
  let after := q.ptr
  deallocallLoop (q.asked + 1) { q with ptr := 0, lst := 0 } after 0

/-- `InfiniteLinkQueue::deallocall`. -/
def deallocall (q : InfiniteLinkQueue α) : Option (InfiniteLinkQueue α) := do
  let (q, cnt) ← q.emptied
  some { q with needrel := q.needrel - cnt }

/-- The subtraction of `deallocall` does not underflow. -/
def dropsExact (q : InfiniteLinkQueue α) : Bool :=
  q.emptied.any fun (q, cnt) => cnt ≤ q.needrel

/-! ### The counters and the nodes they count -/

/-- The node at the address is claimed. -/
def isClaimed (q : InfiniteLinkQueue α) (p : Ptr) : Bool := (q.cells p).any Item.claimed

/-- The number of claimed nodes that are still linked in the list. -/
def claimed (q : InfiniteLinkQueue α) : ℕ := q.reachable.countP q.isClaimed

/-- **The counters are exact** between two calls. -/
structure Exact (q : InfiniteLinkQueue α) : Prop where
  rinside : q.rinside = 0
  needrel : q.needrel = UInt64.ofNat q.claimed

/-- A get of this queue finds `lst` set, and no node before it that it would recycle. -/
def quiet (q : InfiniteLinkQueue α) : Call α → Bool
  | .put _ => true
  | .get => q.lst != 0 && !(q.cells q.lst).any fun i => i.needrel && i.next != 0

/-- No value is pending. -/
def drained (q : InfiniteLinkQueue α) : Bool := q.reachable.all q.isClaimed

/-- A call, without its answer. -/
def step (al : Allocator α) (q : InfiniteLinkQueue α) (c : Call α) : Option (InfiniteLinkQueue α) :=
  (q.call al c).map Prod.snd

/-- **The counters are exact along the calls**, and in the drop of the queue after them. -/
structure CountersExact (al : Allocator α) (calls : List (Call α)) : Prop where
  along : ∀ pre post u, calls = pre ++ post → run (step al) new pre = some u → u.Exact
  drop : ∀ q, run (step al) new calls = some q → q.dropsExact = true

/-- No call finds `lst` null or recycles a node, and no value is pending after the calls. -/
structure Quiet (al : Allocator α) (calls : List (Call α)) : Prop where
  along : StepsMeet (step al) (fun q c => q.quiet c = true) new calls
  drop : ∀ q, run (step al) new calls = some q → q.drained = true

/-- The addresses of the nodes are machine words. -/
def InWords (al : Allocator α) (calls : List (Call α)) : Prop :=
  ∀ pre post u, calls = pre ++ post → run (step al) new pre = some u →
    ∀ p ∈ u.reachable, p < 2 ^ 64

/-! ### What the calls do to the counters -/

section Counters

variable {q q' : InfiniteLinkQueue α} {fuel : ℕ} {cur : Ptr} {t : Option α}

theorem link_counters {item : Ptr} (h : q.link item = some q') :
    q'.rinside = q.rinside ∧ q'.needrel = q.needrel := by
  simp only [link] at h
  obtain ⟨cells, -, hrest⟩ := Option.bind_eq_some_iff.mp h
  split at hrest
  next =>
    obtain ⟨cells', -, hlast⟩ := Option.bind_eq_some_iff.mp hrest
    cases hlast
    exact ⟨rfl, rfl⟩
  next =>
    cases hrest
    exact ⟨rfl, rfl⟩

theorem newItem_counters {al : Allocator α} {t : α} {item : Ptr}
    (h : q.newItem al t = some (item, q')) :
    q'.rinside = q.rinside ∧ q'.needrel = q.needrel := by
  unfold newItem at h
  split at h
  next =>
    cases h
    exact ⟨rfl, rfl⟩
  next =>
    obtain ⟨cells, -, hlast⟩ := Option.bind_eq_some_iff.mp h
    cases hlast
    exact ⟨rfl, rfl⟩

/-- **A put** leaves the counters alone. -/
theorem put_counters {al : Allocator α} {t : α} (h : q.put al t = some q') :
    q'.rinside = q.rinside ∧ q'.needrel = q.needrel := by
  obtain ⟨⟨item, q₁⟩, hnew, hlink⟩ := Option.bind_eq_some_iff.mp h
  obtain ⟨hrinside, hneedrel⟩ := newItem_counters hnew
  obtain ⟨hrinside', hneedrel'⟩ := link_counters hlink
  exact ⟨hrinside'.trans hrinside, hneedrel'.trans hneedrel⟩

theorem taildeallocLoop_counters (h : taildeallocLoop fuel q cur = some q') :
    q'.rinside = q.rinside ∧ q'.needrel = q.needrel := by
  induction fuel generalizing q cur with
  | zero => cases h
  | succ fuel ih =>
    unfold taildeallocLoop at h
    split at h
    next =>
      cases h
      exact ⟨rfl, rfl⟩
    next =>
      obtain ⟨i, -, hrest⟩ := Option.bind_eq_some_iff.mp h
      exact ih (q := q.pushed cur) hrest

theorem taildealloc_counters (h : q.taildealloc cur = some q') :
    q'.rinside = q.rinside ∧ q'.needrel = q.needrel := by
  obtain ⟨i, -, hrest⟩ := Option.bind_eq_some_iff.mp h
  obtain ⟨q₁, hloop, hstore⟩ := Option.bind_eq_some_iff.mp hrest
  obtain ⟨cells, -, hlast⟩ := Option.bind_eq_some_iff.mp hstore
  cases hlast
  have hsame : q₁.rinside = q.rinside ∧ q₁.needrel = q.needrel := taildeallocLoop_counters hloop
  exact hsame

/-- **A release** leaves the counters alone, `needrel` too. -/
theorem release_counters (h : q.release cur = some q') :
    q'.rinside = q.rinside ∧ q'.needrel = q.needrel := by
  unfold release at h
  split at h
  next =>
    cases h
    exact ⟨rfl, rfl⟩
  next =>
    obtain ⟨q₁, htail, hlast⟩ := Option.bind_eq_some_iff.mp h
    cases hlast
    have hsame : q₁.rinside = q.rinside ∧ q₁.needrel = q.needrel :=
      taildealloc_counters (q := { q with doingrel := true }) htail
    exact hsame

theorem advanceLst_counters (q : InfiniteLinkQueue α) (cur nlst : Ptr) :
    (q.advanceLst cur nlst).rinside = q.rinside ∧
      (q.advanceLst cur nlst).needrel = q.needrel := by
  unfold advanceLst
  split
  · exact ⟨rfl, rfl⟩
  · exact ⟨rfl, rfl⟩

theorem claimLoop_counters {first : Bool} (h : claimLoop fuel q cur first = some (t, q')) :
    q'.rinside = q.rinside - 1 ∧ q'.needrel = q.needrel + if t.isSome then 1 else 0 := by
  induction fuel generalizing cur first with
  | zero => cases h
  | succ fuel ih =>
    unfold claimLoop at h
    split at h
    next =>
      cases h
      exact ⟨rfl, (UInt64.add_zero _).symm⟩
    next =>
      obtain ⟨i, -, hrest⟩ := Option.bind_eq_some_iff.mp h
      split at hrest
      next => exact ih hrest
      next =>
        cases first with
        | false =>
          cases hrest
          exact ⟨rfl, rfl⟩
        | true =>
          cases hrest
          obtain ⟨hrinside, hneedrel⟩ := advanceLst_counters
            { q with
              cells := Function.update q.cells cur (some { i with claimed := true })
              len := q.len - 1 } cur i.prev
          exact ⟨congrArg (· - 1) hrinside, congrArg (· + 1) hneedrel⟩

/-- **A get** raises `needrel` if it returns a value, and raises `rinside` if it finds `lst` null. -/
theorem get_counters (h : q.get = some (t, q')) :
    q'.rinside = (if q.lst = 0 then q.rinside + 1 else q.rinside) ∧
      q'.needrel = q.needrel + if t.isSome then 1 else 0 := by
  rcases get_cases h with ⟨h0, rfl, rfl⟩ | ⟨h0, i, q₁, i₁, -, hrel, -, hloop⟩
  · exact ⟨(if_pos h0).symm, (UInt64.add_zero _).symm⟩
  · have hentered : q₁.rinside = q.rinside + 1 ∧ q₁.needrel = q.needrel := by
      split at hrel
      next => exact release_counters (q := { q with rinside := q.rinside + 1 }) hrel
      next =>
        cases hrel
        exact ⟨rfl, rfl⟩
    have hleft : q'.rinside = q₁.rinside - 1 ∧
        q'.needrel = q₁.needrel + if t.isSome then 1 else 0 := by
      split at hloop
      next =>
        obtain ⟨hrinside, hneedrel⟩ := advanceLst_counters q₁ q.lst i₁.prev
        rw [← hrinside, ← hneedrel]
        exact claimLoop_counters hloop
      next => exact claimLoop_counters hloop
    rw [if_neg h0, hleft.1, hleft.2, hentered.1, hentered.2]
    exact ⟨UInt64.add_sub_cancel _ _, rfl⟩

/-- **`needrel` in any run**: the number of values returned since its start. -/
theorem needrel_of_exec {al : Allocator α} {calls : List (Call α)} {os : List (Option α)}
    (h : exec (call al) q calls = some (os, q')) :
    q'.needrel = q.needrel + UInt64.ofNat (os.countP Option.isSome) := by
  induction calls generalizing q os with
  | nil =>
    cases h
    exact (UInt64.add_zero _).symm
  | cons c calls ih =>
    obtain ⟨⟨t, q₁⟩, hcall, hrest⟩ := Option.bind_eq_some_iff.mp h
    obtain ⟨⟨os₁, q₂⟩, hexec, hlast⟩ := Option.bind_eq_some_iff.mp hrest
    cases hlast
    have hfirst : q₁.needrel = q.needrel + UInt64.ofNat (if t.isSome then 1 else 0) := by
      cases c with
      | put v =>
        obtain ⟨q₂, hput, heq⟩ := Option.map_eq_some_iff.mp hcall
        cases heq
        exact (put_counters hput).2.trans (UInt64.add_zero _).symm
      | get =>
        rw [(get_counters hcall).2]
        split
        · rfl
        · rfl
    rw [ih hexec, hfirst, List.countP_cons, UInt64.ofNat_add, UInt64.add_assoc,
      UInt64.add_comm (UInt64.ofNat _)]

end Counters

/-! ### What they do to the nodes -/

namespace Holds

variable {q q' : InfiniteLinkQueue α} {old old' : List Ptr} {fresh fresh' : List (Ptr × α)}
  {t : Option α}

/-- The claimed nodes are the consumed ones. -/
theorem claimed_eq (h : Holds q old fresh) : q.claimed = old.length := by
  have hold : old.countP q.isClaimed = old.length := by
    refine List.countP_eq_length.mpr fun p hp => ?_
    obtain ⟨i, hi, hclaimed⟩ := h.consumed p hp
    rw [isClaimed, hi]
    exact hclaimed
  have hfresh : (fresh.map Prod.fst).countP q.isClaimed = 0 := by
    refine List.countP_eq_zero.mpr fun p hp => ?_
    obtain ⟨x, hx, rfl⟩ := List.mem_map.mp hp
    obtain ⟨i, hi, hclaimed, -⟩ := h.pending x hx
    simp [isClaimed, hi, hclaimed]
  rw [claimed, h.reachable_eq, List.countP_reverse, List.countP_append, hold, hfresh, Nat.add_zero]

theorem drained_iff (h : Holds q old fresh) : q.drained = true ↔ fresh = [] := by
  have hlen : q.reachable.length = old.length + fresh.length := by
    rw [h.reachable_eq, List.length_reverse, List.length_append, List.length_map]
  have hcount : q.drained = true ↔ q.claimed = q.reachable.length := by
    rw [drained, List.all_eq_true, claimed, List.countP_eq_length]
  rw [hcount, h.claimed_eq, hlen, ← List.length_eq_zero_iff]
  omega

/-- A get that finds `lst` marked recycles the nodes before it. -/
theorem nodes_marked {older newer : List Ptr} {i : Item α}
    (h : Holds q (older ++ q.lst :: newer) fresh) (hi : q.cells q.lst = some i)
    (hneedrel : i.needrel = true) (hget : q.get = some (t, q')) (h' : Holds q' old' fresh') :
    old' ++ fresh'.map Prod.fst = q.lst :: newer ++ fresh.map Prod.fst := by
  have h0 : q.lst ≠ 0 := h.linkage.ne_zero (by simp)
  obtain ⟨q₁, hrel, -, hcell, h₁⟩ := (h.moved (q.rinside + 1) q.len h.lst).release rfl
  have hi₁ : q₁.cells q.lst = some { i with next := 0 } := by
    rw [hcell]
    exact congrArg _ hi
  have hloop : q.get =
      claimLoop (q₁.asked + 1) (q₁.advanceLst q.lst i.prev) i.prev true := by
    simp [InfiniteLinkQueue.get, h0, hi, hneedrel, hrel, hi₁]
  exact (h₁.claims (hloop ▸ hget) h').2.2

/-- **A get** takes the oldest pending node to the claimed ones and recycles some of these, none
exactly if it is quiet. -/
theorem get_claimed (h : Holds q old fresh) (h0 : q.lst ≠ 0) :
    ∃ q' old' recycled, q.get = some (fresh.head?.map Prod.snd, q') ∧ Holds q' old' fresh.tail ∧
      old'.length + recycled = old.length + (if fresh.head?.isSome then 1 else 0) ∧
      recycled ≤ old.length ∧ (q.quiet .get = true ↔ recycled = 0) := by
  obtain ⟨q', old', hget, -, h'⟩ := h.get_holds
  have hmem : q.lst ∈ old ++ fresh.map Prod.fst := h.lst_mem.resolve_left h0
  obtain ⟨i, hi⟩ := Option.isSome_iff_exists.mp (h.linkage.isSome hmem)
  have htail : fresh.tail.length + (if fresh.head?.isSome then 1 else 0) = fresh.length := by
    cases fresh <;> rfl
  cases hneedrel : i.needrel with
  | false =>
    obtain ⟨-, -, -, hnodes⟩ := h.get_unmarked_watched h0 hi hneedrel hget h'
    have hlen := congrArg List.length hnodes
    simp only [List.length_append, List.length_map] at hlen
    refine ⟨q', old', 0, hget, h', by omega, Nat.zero_le _, ?_⟩
    simp [quiet, h0, hi, hneedrel]
  | true =>
    obtain ⟨older, newer, rfl⟩ := List.append_of_mem (h.mem_old_of_marked hmem hi hneedrel)
    have hlen := congrArg List.length (h.nodes_marked hi hneedrel hget h')
    simp only [List.length_append, List.length_map, List.length_cons] at hlen
    have hold : (older ++ q.lst :: newer).length = older.length + (newer.length + 1) := by
      rw [List.length_append, List.length_cons]
    refine ⟨q', old', older.length, hget, h', by omega, by omega, ?_⟩
    -- `next` leads to the last of the nodes that are recycled
    have hquiet : q.quiet .get = true ↔ i.next = 0 := by simp [quiet, h0, hi, hneedrel]
    have hlinkage := h.linkage
    rw [List.append_assoc, List.cons_append] at hlinkage
    have hnext := hlinkage.next_eq
    rw [hi, Option.map_some, Option.some.injEq] at hnext
    rw [hquiet, hnext, List.length_eq_zero_iff]
    cases older using List.reverseRecOn with
    | nil => simp
    | append_singleton l p =>
      have hp : p ≠ 0 := hlinkage.ne_zero (by simp)
      simp [hp]

end Holds

/-! ### What the drop does -/

section Drop

variable {q q' : InfiniteLinkQueue α} {old : List Ptr} {fresh : List (Ptr × α)}

theorem deallocallLoop_eq {older live : List Ptr} {fuel : ℕ} (h : Releasing q older live)
    (hfuel : older.length < fuel) (cnt : UInt64) :
    ∃ q', deallocallLoop fuel q (older.getLastD 0) cnt =
        some (q', cnt + UInt64.ofNat older.length) ∧ q'.needrel = q.needrel := by
  induction older using List.reverseRecOn generalizing q fuel cnt with
  | nil =>
    obtain ⟨fuel, rfl⟩ := Nat.exists_eq_succ_of_ne_zero (Nat.ne_zero_of_lt hfuel)
    refine ⟨q, ?_, rfl⟩
    simp [deallocallLoop]
  | append_singleton older cur ih =>
    obtain ⟨fuel, rfl⟩ := Nat.exists_eq_succ_of_ne_zero (Nat.ne_zero_of_lt hfuel)
    obtain ⟨i, hi, hnext, hcur, hround, -, -⟩ := h.round
    rw [List.length_append, List.length_singleton] at hfuel
    obtain ⟨q', hloop, hneedrel⟩ := ih hround (Nat.lt_of_succ_lt_succ hfuel) (cnt + 1)
    refine ⟨q', ?_, hneedrel⟩
    have hcount : cnt + UInt64.ofNat (older ++ [cur]).length =
        cnt + 1 + UInt64.ofNat older.length := by
      rw [List.length_append, List.length_singleton, UInt64.ofNat_add, UInt64.add_assoc,
        UInt64.add_comm 1]
      rfl
    rw [hcount, ← hloop, List.getLastD_concat, deallocallLoop, if_neg hcur, hi, ← hnext]
    rfl

/-- **The drop** subtracts the number of all nodes of the list. -/
theorem Holds.emptied_eq (h : Holds q old fresh) :
    ∃ q', q.emptied = some (q', UInt64.ofNat (old.length + fresh.length)) ∧
      q'.needrel = q.needrel := by
  have hlen : (old ++ fresh.map Prod.fst).length < q.asked + 1 := Nat.lt_succ_of_le h.length_le
  obtain ⟨q', hloop, hneedrel⟩ := deallocallLoop_eq (Watched.releasing_all h) hlen 0
  refine ⟨q', ?_, hneedrel⟩
  rw [emptied, h.ptr, hloop, UInt64.zero_add, List.length_append, List.length_map]

theorem deallocallLoop_of_watched {fuel : ℕ} {cur : Ptr} {freed : List Ptr} {cnt cnt' : UInt64}
    (h : Watched.deallocallLoop fuel q cur cnt = some (q', freed, cnt')) :
    deallocallLoop fuel q cur cnt = some (q', cnt') := by
  induction fuel generalizing q cur cnt freed with
  | zero => cases h
  | succ fuel ih =>
    unfold Watched.deallocallLoop at h
    unfold deallocallLoop
    split at h
    next h0 =>
      cases h
      exact if_pos h0
    next h0 =>
      obtain ⟨i, hi, hrest⟩ := Option.bind_eq_some_iff.mp h
      obtain ⟨⟨q₁, freed₁, cnt₁⟩, hloop, hlast⟩ := Option.bind_eq_some_iff.mp hrest
      cases hlast
      obtain ⟨-, hcell⟩ := Option.ite_none_left_eq_some.mp hi
      rw [if_neg h0, hcell]
      exact ih hloop

/-- The checked `deallocall` is `deallocall`. -/
theorem deallocall_of_watched {freed : List Ptr} (h : Watched.deallocall q = some (q', freed)) :
    q.deallocall = some q' := by
  obtain ⟨⟨q₁, freed₁, cnt⟩, hloop, hlast⟩ := Option.bind_eq_some_iff.mp h
  cases hlast
  rw [deallocall, emptied, deallocallLoop_of_watched hloop]
  rfl

theorem Holds.dropsExact_eq (h : Holds q old fresh) (hexact : q.Exact) :
    q.dropsExact =
      decide (UInt64.ofNat (old.length + fresh.length) ≤ UInt64.ofNat old.length) := by
  obtain ⟨q', hemptied, hneedrel⟩ := h.emptied_eq
  rw [dropsExact, hemptied, Option.any_some]
  show decide (_ ≤ q'.needrel) = _
  rw [hneedrel, hexact.needrel, h.claimed_eq]

/-- There are fewer nodes than addresses. -/
theorem Holds.length_lt (h : Holds q old fresh) {n : ℕ} (hn : ∀ p ∈ q.reachable, p < n)
    (hpos : 0 < n) : old.length + fresh.length < n := by
  have hsub : 0 :: (old ++ fresh.map Prod.fst) ⊆ List.range n := by
    intro p hp
    rw [List.mem_range]
    rcases List.mem_cons.mp hp with rfl | hmem
    · exact hpos
    · refine hn p ?_
      rw [h.reachable_eq, List.mem_reverse]
      exact hmem
  have hle := List.Nodup.length_le_of_subset h.linkage.nodup hsub
  rw [List.length_cons, List.length_append, List.length_map, List.length_range] at hle
  exact hle

/-- **The subtraction** is exact if no value is pending, and else underflows. -/
theorem Holds.dropsExact_of_drained (h : Holds q old fresh) (hexact : q.Exact)
    (hdrained : q.drained = true) : q.dropsExact = true := by
  rw [h.dropsExact_eq hexact, h.drained_iff.mp hdrained]
  exact decide_eq_true (UInt64.le_refl _)

theorem Holds.drained_of_dropsExact (h : Holds q old fresh) (hexact : q.Exact)
    (hword : ∀ p ∈ q.reachable, p < 2 ^ 64) (hdrop : q.dropsExact = true) :
    q.drained = true := by
  have hlt := h.length_lt hword (by decide)
  rw [h.dropsExact_eq hexact, decide_eq_true_iff, UInt64.le_iff_toNat_le, UInt64.toNat_ofNat',
    UInt64.toNat_ofNat', Nat.mod_eq_of_lt hlt, Nat.mod_eq_of_lt (by omega)] at hdrop
  rw [h.drained_iff, ← List.length_eq_zero_iff]
  omega

end Drop

/-! ### Runs -/

/-- The counters are exact, and the queue has its shape. -/
structure Counted (q : InfiniteLinkQueue α) : Prop where
  exact : q.Exact
  holds : ∃ old fresh, Holds q old fresh

theorem counted_new : Counted (new : InfiniteLinkQueue α) where
  exact := ⟨rfl, rfl⟩
  holds := ⟨[], [], new_holds⟩

section Step

variable {q q' : InfiniteLinkQueue α} {al : Allocator α}

theorem Counted.put (h : q.Counted) {t : α} (hput : q.put al t = some q') : q'.Counted := by
  obtain ⟨old, fresh, hholds⟩ := h.holds
  obtain ⟨item, q₁, hq₁, -, hholds'⟩ := hholds.put_holds al t
  obtain rfl : q₁ = q' := Option.some.inj (hq₁.symm.trans hput)
  obtain ⟨hrinside, hneedrel⟩ := put_counters hput
  refine ⟨⟨hrinside.trans h.exact.rinside, ?_⟩, old, _, hholds'⟩
  rw [hneedrel, h.exact.needrel, hholds.claimed_eq, hholds'.claimed_eq]

/-- **A get** that finds `lst` set leaves `needrel` too high by the nodes that it recycles. -/
theorem Counted.get_needrel (h : q.Counted) {t : Option α} (h0 : q.lst ≠ 0)
    (hget : q.get = some (t, q')) :
    ∃ recycled, q'.needrel = UInt64.ofNat (q'.claimed + recycled) ∧ recycled ≤ q.claimed ∧
      (q.quiet .get = true ↔ recycled = 0) ∧ ∃ old' fresh', Holds q' old' fresh' := by
  obtain ⟨old, fresh, hholds⟩ := h.holds
  obtain ⟨q₁, old', recycled, hq₁, hholds', hlen, hle, hiff⟩ := hholds.get_claimed h0
  obtain ⟨rfl, rfl⟩ : t = fresh.head?.map Prod.snd ∧ q' = q₁ :=
    Prod.mk.inj (Option.some.inj (hget.symm.trans hq₁))
  refine ⟨recycled, ?_, hholds.claimed_eq ▸ hle, hiff, old', _, hholds'⟩
  rw [(get_counters hget).2, h.exact.needrel, hholds.claimed_eq, hholds'.claimed_eq, hlen,
    UInt64.ofNat_add, Option.isSome_map]
  split
  · rfl
  · rfl

/-- **A quiet get** keeps the counters exact. -/
theorem Counted.get (h : q.Counted) {t : Option α} (hquiet : q.quiet .get = true)
    (hget : q.get = some (t, q')) : q'.Counted := by
  have h0 : q.lst ≠ 0 := by
    rw [quiet, Bool.and_eq_true, bne_iff_ne] at hquiet
    exact hquiet.1
  obtain ⟨recycled, hneedrel, -, hiff, hholds⟩ := h.get_needrel h0 hget
  rw [hiff.mp hquiet, Nat.add_zero] at hneedrel
  refine ⟨⟨?_, hneedrel⟩, hholds⟩
  rw [(get_counters hget).1, if_neg h0]
  exact h.exact.rinside

/-- **Any other get** leaves one of them wrong. -/
theorem Counted.get_of_not_quiet (h : q.Counted) {t : Option α} (hquiet : ¬q.quiet .get = true)
    (hword : ∀ p ∈ q.reachable, p < 2 ^ 64) (hget : q.get = some (t, q')) : ¬q'.Exact := by
  intro hexact
  by_cases h0 : q.lst = 0
  · have hrinside := (get_counters hget).1
    rw [if_pos h0, hexact.rinside, h.exact.rinside] at hrinside
    exact absurd hrinside (by decide)
  · obtain ⟨recycled, hneedrel, hle, hiff, -⟩ := h.get_needrel h0 hget
    obtain ⟨old, fresh, hholds⟩ := h.holds
    have hlt := hholds.length_lt hword (by decide)
    rw [hholds.claimed_eq] at hle
    -- both counts are right, so nothing was recycled
    have hzero : UInt64.ofNat recycled = 0 := by
      rw [hexact.needrel, UInt64.ofNat_add] at hneedrel
      simpa using hneedrel.symm
    have hrecycled := congrArg UInt64.toNat hzero
    rw [UInt64.toNat_ofNat', Nat.mod_eq_of_lt (by omega)] at hrecycled
    exact hquiet (hiff.mpr hrecycled)

theorem Counted.step (h : q.Counted) {c : Call α} (hquiet : q.quiet c = true)
    (hstep : q.step al c = some q') : q'.Counted := by
  obtain ⟨⟨t, q₁⟩, hcall, rfl⟩ := Option.map_eq_some_iff.mp hstep
  cases c with
  | put t =>
    obtain ⟨q₂, hput, hq₂⟩ := Option.map_eq_some_iff.mp hcall
    cases hq₂
    exact h.put hput
  | get => exact h.get hquiet hcall

theorem Counted.step_of_not_quiet (h : q.Counted) {c : Call α}
    (hword : ∀ p ∈ q.reachable, p < 2 ^ 64) (hquiet : ¬q.quiet c = true)
    (hstep : q.step al c = some q') : ¬q'.Exact := by
  obtain ⟨⟨t, q₁⟩, hcall, rfl⟩ := Option.map_eq_some_iff.mp hstep
  cases c with
  | put t => exact absurd rfl hquiet
  | get => exact h.get_of_not_quiet hquiet hword hcall

end Step

/-- Along quiet calls the counters stay exact. -/
theorem counted_of_run {al : Allocator α} {calls : List (Call α)} {q : InfiniteLinkQueue α}
    (hquiet : StepsMeet (step al) (fun q c => q.quiet c = true) new calls)
    (hrun : run (step al) new calls = some q) : q.Counted :=
  run_invariant_of (fun _ _ _ h hok hstep => h.step hok hstep) hquiet hrun counted_new

/-- **The counters are exact** along quiet calls, whatever addresses the allocator returns, and
where the addresses are machine words, along no others. -/
theorem counters_exact_iff (al : Allocator α) (calls : List (Call α)) :
    (∃ q, run (step al) new calls = some q) ∧ (Quiet al calls → CountersExact al calls) ∧
      (InWords al calls → CountersExact al calls → Quiet al calls) := by
  obtain ⟨q, hexec, -⟩ := link_fifo al calls
  have hrun : run (step al) new calls = some q := run_of_exec hexec
  have hexact : ∀ u : InfiniteLinkQueue α, u.Counted → u.Exact := fun u hu => hu.exact
  refine ⟨⟨q, hrun⟩, fun hquiet => ⟨?_, fun u hu => ?_⟩, fun hwords hall => ?_⟩
  · refine (run_all_iff hexact (fun s c s' hs hok _ h => hs.step hok h)
      (fun s c s' _ _ hnot _ => absurd trivial hnot) hquiet.along hrun counted_new).mpr ?_
    exact StepsMeet.of_forall (fun _ _ => trivial) _
  · have hcounted := counted_of_run hquiet.along hu
    obtain ⟨old, fresh, hholds⟩ := hcounted.holds
    exact hholds.dropsExact_of_drained hcounted.exact (hquiet.drop u hu)
  · have hquiet : StepsMeet (step al) (fun q c => q.quiet c = true) new calls :=
      (run_all_iff hexact (fun s c s' hs _ hok h => hs.step hok h)
        (fun s c s' hs hw hnot h => hs.step_of_not_quiet hw hnot h)
        (StepsMeet.of_prefixes hwords) hrun counted_new).mp hall.along
    refine ⟨hquiet, fun u hu => ?_⟩
    have hcounted := counted_of_run hquiet hu
    obtain ⟨old, fresh, hholds⟩ := hcounted.holds
    have hw := hwords calls [] u (List.append_nil calls).symm hu
    exact hholds.drained_of_dropsExact hcounted.exact hw (hall.drop u hu)

/-- An allocator that returns the addresses in their order, while they are free. -/
noncomputable def inOrder : Allocator α where
  alloc n cells :=
    if (cells (n + 1)).isNone then n + 1 else (default : Allocator α).alloc n cells
  fresh n cells p hp hfree := by
    by_cases h : (cells (n + 1)).isNone = true
    · rw [if_pos h]
      exact ⟨Nat.succ_ne_zero n, Option.isNone_iff_eq_none.mp h⟩
    · rw [if_neg h]
      exact (default : Allocator α).fresh n cells p hp hfree

/-- Two values are put and returned, and a third one. -/
def quietCalls : List (Call ℕ) := [.put 1, .put 2, .get, .put 3, .get, .get]

theorem counters_exact_iff_three :
    ∃ q, run (step inOrder) new quietCalls = some q ∧ q.rinside = 0 ∧
      q.needrel = UInt64.ofNat q.claimed ∧ q.dropsExact = true := by
  obtain ⟨⟨q, hq⟩, hexact, -⟩ := counters_exact_iff inOrder quietCalls
  have hquiet : Quiet inOrder quietCalls := by
    refine ⟨by decide +kernel, fun u hu => ?_⟩
    have hdrained : (run (step inOrder) new quietCalls).map drained = some true := by
      decide +kernel
    rw [hu] at hdrained
    exact Option.some.inj hdrained
  have hcounters := hexact hquiet
  have hlast := hcounters.along quietCalls [] q rfl hq
  exact ⟨q, hq, hlast.rinside, hlast.needrel, hcounters.drop q hq⟩

/-- **None of the three.**  A get of a queue that never held a value stays inside; a get that
recycles a node leaves `needrel` as it was; and the drop of a queue with a pending value subtracts
one from zero. -/
theorem not_counters_exact :
    (∃ q, run (step (inOrder : Allocator ℕ)) new [.get] = some q ∧ q.rinside = 1) ∧
    (∃ q, run (step (inOrder : Allocator ℕ)) new [.put 1, .put 2, .get, .get, .get] = some q ∧
      q.needrel = 2 ∧ q.claimed = 1) ∧
    ∃ q, run (step (inOrder : Allocator ℕ)) new [.put 1] = some q ∧ q.dropsExact = false := by
  have hempty : (run (step (inOrder : Allocator ℕ)) new [.get]).map rinside = some 1 := by
    decide +kernel
  have hrecycled : (run (step (inOrder : Allocator ℕ)) new
      [.put 1, .put 2, .get, .get, .get]).map (fun q => (q.needrel, q.claimed)) =
        some (2, 1) := by
    decide +kernel
  have hpending : (run (step (inOrder : Allocator ℕ)) new [.put 1]).map dropsExact =
      some false := by
    decide +kernel
  obtain ⟨q, hq, hview⟩ := Option.map_eq_some_iff.mp hrecycled
  exact ⟨Option.map_eq_some_iff.mp hempty, ⟨q, hq, congrArg Prod.fst hview, congrArg Prod.snd hview⟩,
    Option.map_eq_some_iff.mp hpending⟩

end WaterNet.Queue.InfiniteLinkQueue
