import Mathlib.Data.List.Nodup
import WaterNet.Queue.LinkMemory

/-!
# The order of the items (`queue.rs`)

The items are claimed in the order in which the swaps of `ptr` linked them.  In a run in which no
release recycles an item that another get is at, the following holds, where `hist` lists all items
ever linked.

* `Order` — the items before `base` were released, those before `claimed` are claimed; the links are
  set but for those whose put is still at them; `lst` is the item at `tail`;
* `Reached`, `HeldAt` — what a get knows of the item it is at: the items before it are linked and
  claimed;
* `Order.stay` and the lemmas after it — what each kind of step does.
-/

namespace WaterNet.Queue.Link

open Lib Lib.Pool

variable {α : Type*}

/-- What a run has come to: all items ever linked with their values, how many of them were
released, which one `lst` is, how many are claimed, and the released ones still to be pushed. -/
structure Ghost (α : Type*) where
  hist : List (Ptr × Tagged α)
  base : ℕ
  tail : ℕ
  claimed : ℕ
  zombies : List Ptr

namespace Ghost

def node (g : Ghost α) (k : ℕ) : Option Ptr := g.hist[k]?.map Prod.fst

/-- The items in the list. -/
def nodes (g : Ghost α) : List Ptr := (g.hist.drop g.base).map Prod.fst

theorem mem_nodes {g : Ghost α} {k : ℕ} {p : Ptr} (hbase : g.base ≤ k) (hp : g.node k = some p) :
    p ∈ g.nodes := by
  obtain ⟨x, hx, rfl⟩ := Option.map_eq_some_iff.mp hp
  refine List.mem_map_of_mem (List.mem_of_getElem? (i := k - g.base) ?_)
  rw [List.getElem?_drop, Nat.add_sub_cancel' hbase]
  exact hx

/-- An item is in the list once. -/
theorem eq_of_node {g : Ghost α} (hnd : g.nodes.Nodup) {k k' : ℕ} {p : Ptr} (hk : g.base ≤ k)
    (hk' : g.base ≤ k') (hp : g.node k = some p) (hp' : g.node k' = some p) : k = k' := by
  have hget : ∀ j, g.base ≤ j → g.node j = some p → g.nodes[j - g.base]? = some p := by
    intro j hj hnode
    rw [nodes, List.getElem?_map, List.getElem?_drop, Nat.add_sub_cancel' hj]
    exact hnode
  obtain ⟨hlt, heq⟩ := List.getElem?_eq_some_iff.mp (hget k hk hp)
  obtain ⟨hlt', heq'⟩ := List.getElem?_eq_some_iff.mp (hget k' hk' hp')
  have hsub := (List.Nodup.getElem_inj_iff hnd).mp (heq.trans heq'.symm)
  omega

theorem node_lt {g : Ghost α} {k : ℕ} {p : Ptr} (hp : g.node k = some p) : k < g.hist.length := by
  obtain ⟨x, hx, -⟩ := Option.map_eq_some_iff.mp hp
  exact (List.getElem?_eq_some_iff.mp hx).1

end Ghost

/-! ### What the threads know -/

namespace Pc

/-- The item that the put is linking. -/
def joins : Pc α → Option Ptr
  | .linkNext item _ | .linkPrev item _ => some item
  | _ => none

/-- The item that the get is at and will still use. -/
def cur : Pc α → Option Ptr
  | .testRel cur | .casRel cur | .tailFirst cur | .tailNext cur _ | .pushPos cur _ _
  | .pushSwap _ cur _ _ | .pushFree cur _ _ | .tailClear cur | .endRel cur | .testAgain cur
  | .loadPrev cur _ | .advance cur _ _ | .claim cur _ | .dropLen cur _ _ | .copy cur _
  | .markRel cur _ | .next cur => some cur
  | _ => none

/-- In `taildealloc`, or about to give `doingrel` back. -/
def releasing : Pc α → Bool
  | .tailFirst _ | .tailNext .. | .pushPos .. | .pushSwap .. | .pushFree .. | .tailClear _
  | .endRel _ => true
  | _ => false

/-- The item was `lst` and is not left yet. -/
def early : Pc α → Bool
  | .testRel _ | .casRel _ | .testAgain _ => true
  | pc => pc.releasing

/-- The item is known to be claimed. -/
def past : Pc α → Bool
  | .loadPrev .. | .advance .. | .dropLen .. | .copy .. | .markRel .. | .next _ => true
  | _ => false

/-- The value of the item that the get has claimed and not copied yet. -/
def claims : Pc α → Option (Tagged α)
  | .loadPrev _ v | .advance _ _ v => v
  | .dropLen _ _ v | .copy _ v => some v
  | _ => none

def nlst : Pc α → Option Ptr
  | .advance _ nlst _ => some nlst
  | _ => none

end Pc

/-- No put is linking the item. -/
def Joined (threads : List (Pc α)) (p : Ptr) : Prop := ∀ pc ∈ threads, pc.joins ≠ some p

/-- The item can be reached from `lst` or was passed: all items up to it are linked, and those before
it are claimed. -/
structure Reached (threads : List (Pc α)) (g : Ghost α) (p : Ptr) (k : ℕ) : Prop where
  base : g.base ≤ k
  claimed : k ≤ g.claimed
  node : g.node k = some p
  joined : ∀ j q, g.base ≤ j → j ≤ k → g.node j = some q → Joined threads q

/-- What a get knows of the item it is at. -/
structure HeldAt (threads : List (Pc α)) (g : Ghost α) (pc : Pc α) (p : Ptr) (k : ℕ) : Prop where
  reached : Reached threads g p k
  early : pc.early = true → k ≤ g.tail
  past : pc.past = true → k < g.claimed
  claims : ∀ v, pc.claims = some v → g.hist[k]? = some (p, v)
  nlst : ∀ b, pc.nlst = some b → Reached threads g b (k + 1)
  releasing : pc.releasing = true → k = g.base

def GetOk (threads : List (Pc α)) (g : Ghost α) (pc : Pc α) : Prop :=
  ∀ p, pc.cur = some p → ∃ k, HeldAt threads g pc p k

/-- The item that a put is linking, and the one before it. -/
def PutOk (g : Ghost α) : Pc α → Prop
  | .linkNext item oldhead | .linkPrev item oldhead =>
    ∃ k, g.base ≤ k ∧ g.node k = some item ∧
      (oldhead = 0 ∧ k = 0 ∨ oldhead ≠ 0 ∧ ∃ j, k = j + 1 ∧ g.base ≤ j ∧ g.node j = some oldhead)
  | _ => True

/-- The item at position `k` of the order. -/
structure ItemOk (threads : List (Pc α)) (g : Ghost α) (k : ℕ) (p : Ptr) (i : Item (Tagged α)) :
    Prop where
  payload : g.hist[k]? = some (p, i.payload)
  claimed : i.claimed = decide (k < g.claimed)
  needrel : i.needrel = true → k < g.claimed
  /-- `prev` leads to the next item, once that one is linked -/
  prev : i.prev ≠ 0 → g.node (k + 1) = some i.prev ∧ Joined threads i.prev
  linked : ∀ b, g.node (k + 1) = some b → Joined threads b → i.prev = b
  /-- `next` leads to the one before, once it was stored -/
  next : ∀ j a, k = j + 1 → g.base ≤ j → g.node j = some a →
    i.next = a ∨ ∃ oldhead, Pc.linkNext p oldhead ∈ threads

/-- **The list is in order.** -/
structure Order (cells : Cells (Tagged α)) (ptr lst : Ptr) (threads : List (Pc α)) (g : Ghost α) :
    Prop where
  base_le : g.base ≤ g.claimed
  claimed_le : g.claimed ≤ g.hist.length
  last : g.hist ≠ [] → g.base < g.hist.length
  newest : ptr = (g.hist.getLast?.map Prod.fst).getD 0
  item : ∀ k p, g.base ≤ k → g.node k = some p → ∃ i, cells p = some i ∧ ItemOk threads g k p i
  reach : lst ≠ 0 → Reached threads g lst g.tail
  root : lst = 0 → g.base = 0 ∧ g.tail = 0 ∧ ∀ p, g.node 0 = some p → ¬Joined threads p
  once : ∀ (t t' : ℕ) (pc pc' : Pc α) (p : Ptr), threads[t]? = some pc → threads[t']? = some pc' →
    pc.joins = some p → pc'.joins = some p → t = t'
  puts : ∀ pc ∈ threads, PutOk g pc
  gets : ∀ pc ∈ threads, GetOk threads g pc

/-! ### What a step leaves alone -/

section Threads

variable {threads : List (Pc α)} {t : ℕ} {pc pc' : Pc α} {p : Ptr}

/-- A thread that joins no other item than before. -/
theorem Joined.set (ht : threads[t]? = some pc) (hpc' : pc'.joins = none ∨ pc'.joins = pc.joins)
    (h : Joined threads p) : Joined (threads.set t pc') p := by
  refine forall_mem_set h ?_
  rcases hpc' with hnone | hsame
  · rw [hnone]
    exact nofun
  · rw [hsame]
    exact h pc (List.mem_of_getElem? ht)

theorem Joined.of_set (ht : threads[t]? = some pc) (hpc : pc.joins ≠ some p)
    (h : Joined (threads.set t pc') p) : Joined threads p := by
  intro x hx
  obtain ⟨j, hj⟩ := List.mem_iff_getElem?.mp hx
  by_cases heq : t = j
  · subst heq
    obtain rfl : pc = x := Option.some.inj (ht.symm.trans hj)
    exact hpc
  · refine h x (List.mem_of_getElem? (i := j) ?_)
    rw [List.getElem?_set_ne heq]
    exact hj

/-- Two threads do not link the same item, after a step of a thread that links no other one. -/
theorem once_set (h : ∀ (i j : ℕ) (x y : Pc α) (p : Ptr), threads[i]? = some x →
      threads[j]? = some y → x.joins = some p → y.joins = some p → i = j)
    (ht : threads[t]? = some pc)
    (hpc' : ∀ p, pc'.joins = some p → pc.joins = some p ∨ Joined threads p)
    (i j : ℕ) (x y : Pc α) (p : Ptr) (hi : (threads.set t pc')[i]? = some x)
    (hj : (threads.set t pc')[j]? = some y) (hx : x.joins = some p) (hy : y.joins = some p) :
    i = j := by
  rcases getElem?_set_eq_some hi with ⟨hit, hxt⟩ | ⟨-, hi'⟩
  · rcases getElem?_set_eq_some hj with ⟨hjt, -⟩ | ⟨-, hj'⟩
    · exact hit.trans hjt.symm
    · rcases hpc' p (hxt ▸ hx) with hold | hjoined
      · exact hit.trans (h t j pc y p ht hj' hold hy)
      · exact absurd hy (hjoined y (List.mem_of_getElem? hj'))
  · rcases getElem?_set_eq_some hj with ⟨hjt, hyt⟩ | ⟨-, hj'⟩
    · rcases hpc' p (hyt ▸ hy) with hold | hjoined
      · exact (h i t x pc p hi' ht hx hold).trans hjt.symm
      · exact absurd hx (hjoined x (List.mem_of_getElem? hi'))
    · exact h i j x y p hi' hj' hx hy

end Threads

/-- The list only grows at its end, and the gets only move on. -/
structure Grows (g g' : Ghost α) : Prop where
  base : g'.base = g.base
  tail : g.tail ≤ g'.tail
  claimed : g.claimed ≤ g'.claimed
  hist : g.hist <+: g'.hist

namespace Grows

variable {g g' : Ghost α} {k : ℕ} {p : Ptr}

theorem refl (g : Ghost α) : Grows g g := ⟨rfl, le_refl _, le_refl _, List.prefix_refl _⟩

theorem getElem? (h : Grows g g') (hk : k < g.hist.length) : g'.hist[k]? = g.hist[k]? := by
  obtain ⟨l, hl⟩ := h.hist
  rw [← hl, List.getElem?_append_left hk]

theorem node (h : Grows g g') (hk : k < g.hist.length) : g'.node k = g.node k := by
  rw [Ghost.node, Ghost.node, h.getElem? hk]

theorem node_eq_some (h : Grows g g') (hp : g.node k = some p) : g'.node k = some p := by
  rw [h.node (Ghost.node_lt hp)]
  exact hp

end Grows

section Mono

variable {threads threads' : List (Pc α)} {g g' : Ghost α} {pc : Pc α} {k : ℕ} {p : Ptr}

theorem Reached.grow (h : Reached threads g p k) (hg : Grows g g')
    (hj : ∀ q ∈ g.nodes, Joined threads q → Joined threads' q) : Reached threads' g' p k := by
  refine ⟨hg.base ▸ h.base, h.claimed.trans hg.claimed, hg.node_eq_some h.node, ?_⟩
  intro j q hbase hle hq
  rw [hg.base] at hbase
  rw [hg.node (Nat.lt_of_le_of_lt hle (Ghost.node_lt h.node))] at hq
  exact hj q (Ghost.mem_nodes hbase hq) (h.joined j q hbase hle hq)

theorem HeldAt.grow (h : HeldAt threads g pc p k) (hg : Grows g g')
    (hj : ∀ q ∈ g.nodes, Joined threads q → Joined threads' q) : HeldAt threads' g' pc p k := by
  refine ⟨h.reached.grow hg hj, fun he => (h.early he).trans hg.tail,
    fun hp => Nat.lt_of_lt_of_le (h.past hp) hg.claimed, fun v hv => ?_,
    fun b hb => (h.nlst b hb).grow hg hj, fun hr => hg.base ▸ h.releasing hr⟩
  rw [hg.getElem? (Ghost.node_lt h.reached.node)]
  exact h.claims v hv

theorem GetOk.grow (h : GetOk threads g pc) (hg : Grows g g')
    (hj : ∀ q ∈ g.nodes, Joined threads q → Joined threads' q) : GetOk threads' g' pc := by
  intro p hp
  obtain ⟨k, hk⟩ := h p hp
  exact ⟨k, hk.grow hg hj⟩

theorem PutOk.grow (h : PutOk g pc) (hg : Grows g g') : PutOk g' pc := by
  cases pc with
  | linkNext item oldhead | linkPrev item oldhead =>
    obtain ⟨k, hbase, hitem, hold⟩ := h
    refine ⟨k, hg.base ▸ hbase, hg.node_eq_some hitem, hold.imp id ?_⟩
    rintro ⟨hne, j, hj, hjbase, hjold⟩
    exact ⟨hne, j, hj, hg.base ▸ hjbase, hg.node_eq_some hjold⟩
  | _ => trivial

theorem PutOk.of_joins_none (h : pc.joins = none) : PutOk g pc := by
  cases pc with
  | linkNext item oldhead | linkPrev item oldhead => cases h
  | _ => trivial

theorem GetOk.of_cur_none (h : pc.cur = none) : GetOk threads g pc := by
  intro p hp
  rw [h] at hp
  cases hp

/-- The item at a position stays in order while the list grows behind it and its links are kept. -/
theorem ItemOk.grow {i : Item (Tagged α)} (h : ItemOk threads g k p i) (hg : Grows g g')
    (hclaimed : i.claimed = decide (k < g'.claimed))
    (hnode : ∀ b, g'.node (k + 1) = some b → g.node (k + 1) = some b ∨ ¬Joined threads' b)
    (hj : ∀ q ∈ g.nodes, Joined threads' q ↔ Joined threads q) (hk : g.base ≤ k)
    (hnext : ∀ oldhead, Pc.linkNext p oldhead ∈ threads → Pc.linkNext p oldhead ∈ threads') :
    ItemOk threads' g' k p i := by
  have hlt : k < g.hist.length := (List.getElem?_eq_some_iff.mp h.payload).1
  refine ⟨?_, hclaimed, fun hn => Nat.lt_of_lt_of_le (h.needrel hn) hg.claimed, fun hne => ?_,
    fun b hb hjoined => ?_, fun j a hjk hbase ha => ?_⟩
  · rw [hg.getElem? hlt]
    exact h.payload
  · obtain ⟨hprev, hjoined⟩ := h.prev hne
    have hmem := Ghost.mem_nodes (Nat.le_succ_of_le hk) hprev
    exact ⟨hg.node_eq_some hprev, (hj _ hmem).mpr hjoined⟩
  · rcases hnode b hb with hold | hnot
    · exact h.linked b hold ((hj b (Ghost.mem_nodes (Nat.le_succ_of_le hk) hold)).mp hjoined)
    · exact absurd hjoined hnot
  · rw [hg.base] at hbase
    rw [hg.node (by omega)] at ha
    rcases h.next j a hjk hbase ha with heq | ⟨oldhead, hmem⟩
    · exact Or.inl heq
    · exact Or.inr ⟨oldhead, hnext oldhead hmem⟩

/-- A store into an item that changes none of its links, but perhaps `next` of the first one. -/
theorem ItemOk.congr {i i' : Item (Tagged α)} (h : ItemOk threads g k p i)
    (hpayload : i'.payload = i.payload) (hclaimed : i'.claimed = i.claimed) (hprev : i'.prev = i.prev)
    (hneedrel : i'.needrel = true → k < g.claimed) (hnext : i'.next = i.next ∨ k = g.base) :
    ItemOk threads g k p i' := by
  refine ⟨hpayload ▸ h.payload, hclaimed.trans h.claimed, hneedrel, fun hne => ?_, fun b hb hj => ?_,
    fun j a hk hbase ha => ?_⟩
  · rw [hprev] at hne ⊢
    exact h.prev hne
  · rw [hprev]
    exact h.linked b hb hj
  · rcases hnext with heq | heq
    · rw [heq]
      exact h.next j a hk hbase ha
    · omega

end Mono

namespace Order

variable {cells cells' : Cells (Tagged α)} {ptr lst : Ptr} {threads : List (Pc α)} {g : Ghost α}
  {t : ℕ} {pc pc' : Pc α}

/-- **A step that links nothing.**  It may store into the items, as long as they stay in order. -/
theorem stay (h : Order cells ptr lst threads g) (ht : threads[t]? = some pc)
    (hpc : pc.joins = none) (hpc' : pc'.joins = none)
    (hcells : ∀ k p i, g.base ≤ k → g.node k = some p → cells p = some i → ItemOk threads g k p i →
      ∃ i', cells' p = some i' ∧ ItemOk threads g k p i')
    (hget : GetOk threads g pc') : Order cells' ptr lst (threads.set t pc') g := by
  have hj : ∀ q, Joined (threads.set t pc') q ↔ Joined threads q := fun q =>
    ⟨Joined.of_set ht (by rw [hpc]; exact nofun), Joined.set ht (Or.inl hpc')⟩
  have hg := Grows.refl g
  have hnext : ∀ p oldhead, Pc.linkNext p oldhead ∈ threads →
      Pc.linkNext p oldhead ∈ threads.set t pc' := by
    intro p oldhead hmem
    refine mem_set_of_ne ht hmem ?_
    rintro rfl
    cases hpc
  refine ⟨h.base_le, h.claimed_le, h.last, h.newest, fun k p hk hp => ?_, fun hne => ?_, fun h0 => ?_,
    ?_, ?_, ?_⟩
  · obtain ⟨i, hi, hok⟩ := h.item k p hk hp
    obtain ⟨i', hi', hok'⟩ := hcells k p i hk hp hi hok
    exact ⟨i', hi', hok'.grow hg hok'.claimed (fun b hb => Or.inl hb) (fun q _ => hj q) hk
      (hnext p)⟩
  · exact (h.reach hne).grow hg fun q _ => (hj q).mpr
  · obtain ⟨hbase, htail, hnot⟩ := h.root h0
    exact ⟨hbase, htail, fun p hp hjoined => hnot p hp ((hj p).mp hjoined)⟩
  · exact once_set h.once ht fun p hp => by rw [hpc'] at hp; cases hp
  · exact forall_mem_set (fun x hx => (h.puts x hx)) (PutOk.of_joins_none hpc')
  · refine forall_mem_set (fun x hx => (h.gets x hx).grow hg fun q _ => (hj q).mpr) ?_
    exact hget.grow hg fun q _ => (hj q).mpr

/-- The history variables that it does not mention. -/
theorem setZombies (h : Order cells ptr lst threads g) (zombies : List Ptr) :
    Order cells ptr lst threads { g with zombies := zombies } := by
  have hg : Grows g { g with zombies := zombies } :=
    ⟨rfl, le_refl _, le_refl _, List.prefix_refl _⟩
  refine ⟨h.base_le, h.claimed_le, h.last, h.newest, fun k p hk hp => ?_,
    fun hne => (h.reach hne).grow hg fun _ _ hj => hj, h.root, h.once,
    fun x hx => (h.puts x hx).grow hg, fun x hx => (h.gets x hx).grow hg fun _ _ hj => hj⟩
  obtain ⟨i, hi, hok⟩ := h.item k p hk hp
  exact ⟨i, hi, hok.grow hg hok.claimed (fun b hb => Or.inl hb) (fun _ _ => Iff.rfl) hk
    fun _ hmem => hmem⟩

/-- A put joins an item of the list only. -/
theorem joined_of_not_mem (h : Order cells ptr lst threads g) {p : Ptr} (hp : p ∉ g.nodes) :
    Joined threads p := by
  intro x hx hjoins
  have hput := h.puts x hx
  cases x with
  | linkNext item oldhead | linkPrev item oldhead =>
    obtain ⟨k, hbase, hitem, -⟩ := hput
    cases hjoins
    exact hp (Ghost.mem_nodes hbase hitem)
  | _ => cases hjoins

/-- **The swap of `ptr`** puts an item behind the others. -/
theorem append (h : Order cells ptr lst threads g) {item : Ptr} {v : Tagged α}
    (ht : threads[t]? = some (.swapPtr item v)) (hitem : cells item = some (Item.new v))
    (hfresh : item ∉ g.nodes) (hne : ∀ p ∈ g.nodes, p ≠ 0) :
    Order cells item lst (threads.set t (.linkNext item ptr))
      { g with hist := g.hist ++ [(item, v)] } := by
  have hg : Grows g { g with hist := g.hist ++ [(item, v)] } :=
    ⟨rfl, le_refl _, le_refl _, List.prefix_append _ _⟩
  have hjoin : ∀ q, q ≠ item → Joined threads q → Joined (threads.set t (.linkNext item ptr)) q := by
    intro q hq hj
    exact forall_mem_set hj fun heq => hq (Option.some.inj heq).symm
  have hjoin' : ∀ q, Joined (threads.set t (.linkNext item ptr)) q → Joined threads q :=
    fun q hj => hj.of_set ht nofun
  have hmem : ∀ q ∈ g.nodes, Joined threads q → Joined (threads.set t (.linkNext item ptr)) q :=
    fun q hq => hjoin q fun heq => hfresh (heq ▸ hq)
  have hself : Pc.linkNext item ptr ∈ threads.set t (.linkNext item ptr) :=
    List.mem_set (List.getElem?_eq_some_iff.mp ht).1 _
  have hnew : Ghost.node { g with hist := g.hist ++ [(item, v)] } g.hist.length = some item := by
    rw [Ghost.node, List.getElem?_concat_length]
    rfl
  have hlast : g.base ≤ g.hist.length := h.base_le.trans h.claimed_le
  refine ⟨h.base_le, h.claimed_le.trans (by simp), fun _ => ?_, by simp, fun k p hk hp => ?_,
    fun h0 => (h.reach h0).grow hg hmem, fun h0 => ?_, ?_, ?_, ?_⟩
  · rw [List.length_append, List.length_singleton]
    exact Nat.lt_succ_of_le hlast
  · have hk' : g.base ≤ k := hk
    rcases Nat.lt_or_ge k g.hist.length with hlt | hge
    · rw [hg.node hlt] at hp
      obtain ⟨i, hi, hok⟩ := h.item k p hk hp
      refine ⟨i, hi, hok.grow hg hok.claimed (fun b hb => ?_)
        (fun q hq => ⟨hjoin' q, hmem q hq⟩) hk fun oldhead hmem' => ?_⟩
      · rcases Nat.lt_or_ge (k + 1) g.hist.length with hlt' | hge'
        · rw [hg.node hlt'] at hb
          exact Or.inl hb
        · -- the item after the last one is being linked
          rw [show k + 1 = g.hist.length by omega, hnew] at hb
          obtain rfl := Option.some.inj hb
          exact Or.inr fun hj => hj _ hself rfl
      · exact mem_set_of_ne ht hmem' nofun
    · have hlen := Ghost.node_lt hp
      rw [List.length_append, List.length_singleton] at hlen
      obtain rfl : k = g.hist.length := by omega
      obtain rfl := Option.some.inj (hnew.symm.trans hp)
      refine ⟨Item.new v, hitem, List.getElem?_concat_length, ?_, fun hn => Bool.noConfusion hn,
        fun hprev => absurd rfl hprev, fun b hb => ?_, fun _ _ _ _ _ => Or.inr ⟨ptr, hself⟩⟩
      · have hle := h.claimed_le
        simp [Item.new, hle]
      · have hlt := Ghost.node_lt hb
        rw [List.length_append, List.length_singleton] at hlt
        omega
  · obtain ⟨hbase, htail, hnot⟩ := h.root h0
    refine ⟨hbase, htail, fun p hp hj => ?_⟩
    rcases Nat.eq_zero_or_pos g.hist.length with hzero | hpos
    · rw [← hzero] at hp
      obtain rfl := Option.some.inj (hnew.symm.trans hp)
      exact hj _ hself rfl
    · rw [hg.node hpos] at hp
      exact hnot p hp (hjoin' p hj)
  · refine once_set h.once ht fun p hp => ?_
    obtain rfl : item = p := Option.some.inj hp
    exact Or.inr (h.joined_of_not_mem hfresh)
  · refine forall_mem_set (fun x hx => (h.puts x hx).grow hg) ?_
    refine ⟨g.hist.length, hlast, hnew, ?_⟩
    rcases List.eq_nil_or_concat' g.hist with hl | ⟨l, x, hl⟩
    · refine Or.inl ⟨?_, by rw [hl]; rfl⟩
      rw [h.newest, hl]
      rfl
    · have hptr : ptr = x.1 := by
        rw [h.newest, hl, List.getLast?_concat]
        rfl
      have hlen : g.hist.length = l.length + 1 := by
        rw [hl, List.length_append, List.length_singleton]
      have hbase : g.base ≤ l.length := by
        have hlt := h.last (by rw [hl]; simp)
        omega
      have hnode : g.node l.length = some ptr := by
        rw [Ghost.node, hl, List.getElem?_concat_length, hptr]
        rfl
      exact Or.inr ⟨hne ptr (Ghost.mem_nodes hbase hnode), l.length, hlen, hbase,
        hg.node_eq_some hnode⟩
  · exact forall_mem_set (fun x hx => (h.gets x hx).grow hg hmem) (GetOk.of_cur_none rfl)

/-- The store into `next` of a new item. -/
theorem linkNext (h : Order cells ptr lst threads g) (hnd : g.nodes.Nodup) {item oldhead : Ptr}
    {i : Item (Tagged α)} (ht : threads[t]? = some (.linkNext item oldhead))
    (hi : cells item = some i) :
    Order (Function.update cells item (some { i with next := oldhead })) ptr lst
      (threads.set t (.linkPrev item oldhead)) g := by
  have hlt := (List.getElem?_eq_some_iff.mp ht).1
  have hself : Pc.linkPrev item oldhead ∈ threads.set t (.linkPrev item oldhead) := List.mem_set hlt _
  have hj : ∀ q, Joined (threads.set t (.linkPrev item oldhead)) q ↔ Joined threads q := by
    refine fun q => ⟨fun hq => ?_, Joined.set ht (Or.inr rfl)⟩
    have hnot := hq _ hself
    exact hq.of_set ht hnot
  have hg := Grows.refl g
  obtain ⟨k, hbase, hnode, hold⟩ := h.puts _ (List.mem_of_getElem? ht)
  refine ⟨h.base_le, h.claimed_le, h.last, h.newest, fun k' p hk' hp => ?_,
    fun hne => (h.reach hne).grow hg fun q _ => (hj q).mpr, fun h0 => ?_, ?_, ?_, ?_⟩
  · obtain ⟨i', hi', hok⟩ := h.item k' p hk' hp
    by_cases heq : p = item
    · subst heq
      obtain rfl : i' = i := Option.some.inj (hi'.symm.trans hi)
      obtain rfl : k' = k := Ghost.eq_of_node hnd hk' hbase hp hnode
      refine ⟨_, Function.update_self _ _ _, hok.payload, hok.claimed, hok.needrel, fun hne => ?_,
        fun b hb hjoined => hok.linked b hb ((hj b).mp hjoined), fun j a hkj _ ha => Or.inl ?_⟩
      · obtain ⟨hprev, hjoined⟩ := hok.prev hne
        exact ⟨hprev, (hj _).mpr hjoined⟩
      · -- what is stored is the item before
        rcases hold with ⟨-, rfl⟩ | ⟨-, j', hkj', -, ha'⟩
        · omega
        · obtain rfl : j = j' := by omega
          exact Option.some.inj (ha'.symm.trans ha)
    · refine ⟨i', (Function.update_of_ne heq _ _).trans hi', hok.grow hg hok.claimed
        (fun b hb => Or.inl hb) (fun q _ => hj q) hk' fun old hmem => mem_set_of_ne ht hmem ?_⟩
      intro hpc
      cases hpc
      exact heq rfl
  · obtain ⟨hbase₀, htail, hnot⟩ := h.root h0
    exact ⟨hbase₀, htail, fun p hp hjoined => hnot p hp ((hj p).mp hjoined)⟩
  · exact once_set h.once ht fun p hp => Or.inl hp
  · exact forall_mem_set h.puts ⟨k, hbase, hnode, hold⟩
  · exact forall_mem_set (fun x hx => (h.gets x hx).grow hg fun q _ => (hj q).mpr)
      (GetOk.of_cur_none rfl)

/-- What is true of an item once its put has linked it. -/
theorem joined_after (h : Order cells ptr lst threads g) {item oldhead : Ptr}
    (ht : threads[t]? = some (.linkPrev item oldhead)) : Joined (threads.set t .bumpLen) item := by
  intro x hx hjoins
  obtain ⟨j, hj⟩ := List.mem_iff_getElem?.mp hx
  rcases getElem?_set_eq_some hj with ⟨-, rfl⟩ | ⟨hne, hold⟩
  · cases hjoins
  · exact hne (h.once j t x _ item hold ht hjoins rfl)

theorem joined_iff_after {item oldhead : Ptr} (ht : threads[t]? = some (.linkPrev item oldhead))
    {q : Ptr} (hq : q ≠ item) : Joined (threads.set t .bumpLen) q ↔ Joined threads q :=
  ⟨Joined.of_set ht fun heq => hq (Option.some.inj heq).symm, Joined.set ht (Or.inl rfl)⟩

/-- The store into `prev` of the item before. -/
theorem linkPrev (h : Order cells ptr lst threads g) (hnd : g.nodes.Nodup) {item oldhead : Ptr}
    {i : Item (Tagged α)} (ht : threads[t]? = some (.linkPrev item oldhead)) (hne : oldhead ≠ 0)
    (hi : cells oldhead = some i) :
    Order (Function.update cells oldhead (some { i with prev := item })) ptr lst
      (threads.set t .bumpLen) g := by
  have hset : ∀ q, Joined threads q → Joined (threads.set t .bumpLen) q :=
    fun q => Joined.set ht (Or.inl rfl)
  have hself : Joined (threads.set t .bumpLen) item := h.joined_after ht
  have hg := Grows.refl g
  obtain ⟨k, hbase, hnode, hold⟩ := h.puts _ (List.mem_of_getElem? ht)
  obtain ⟨j, rfl, hbasej, hnodej⟩ := (hold.resolve_left fun hzero => hne hzero.1).2
  have hkeep : ∀ p old, Pc.linkNext p old ∈ threads →
      Pc.linkNext p old ∈ threads.set t .bumpLen := fun p old hmem => mem_set_of_ne ht hmem nofun
  refine ⟨h.base_le, h.claimed_le, h.last, h.newest, fun k' p hk' hp => ?_,
    fun h0 => (h.reach h0).grow hg fun q _ => hset q, fun h0 => ?_, ?_, ?_, ?_⟩
  · obtain ⟨i', hi', hok⟩ := h.item k' p hk' hp
    have hnext : ∀ j a, k' = j + 1 → g.base ≤ j → g.node j = some a →
        i'.next = a ∨ ∃ old, Pc.linkNext p old ∈ threads.set t .bumpLen := by
      intro j a hkj hb ha
      refine (hok.next j a hkj hb ha).imp id ?_
      rintro ⟨old, hmem⟩
      exact ⟨old, hkeep p old hmem⟩
    by_cases heq : p = oldhead
    · subst heq
      obtain rfl : i' = i := Option.some.inj (hi'.symm.trans hi)
      obtain rfl : k' = j := Ghost.eq_of_node hnd hk' hbasej hp hnodej
      exact ⟨_, Function.update_self _ _ _, hok.payload, hok.claimed, hok.needrel,
        fun _ => ⟨hnode, hself⟩, fun b hb _ => Option.some.inj (hnode.symm.trans hb), hnext⟩
    · refine ⟨i', (Function.update_of_ne heq _ _).trans hi', hok.payload, hok.claimed, hok.needrel,
        fun h0 => ⟨(hok.prev h0).1, hset _ (hok.prev h0).2⟩, fun b hb hjoined => ?_, hnext⟩
      refine hok.linked b hb ((joined_iff_after ht ?_).mp hjoined)
      rintro rfl
      -- the item before is another one
      have hsame := Ghost.eq_of_node hnd (Nat.le_succ_of_le hk') hbase hb hnode
      obtain rfl : k' = j := by omega
      exact heq (Option.some.inj (hp.symm.trans hnodej))
  · obtain ⟨hbase₀, htail, hnot⟩ := h.root h0
    refine ⟨hbase₀, htail, fun p hp hjoined => hnot p hp ((joined_iff_after ht ?_).mp hjoined)⟩
    rintro rfl
    have hsame := Ghost.eq_of_node hnd hbase₀.le hbase hp hnode
    omega
  · exact once_set h.once ht nofun
  · exact forall_mem_set h.puts trivial
  · exact forall_mem_set (fun x hx => (h.gets x hx).grow hg fun q _ => hset q)
      (GetOk.of_cur_none rfl)

/-- The store into `lst`, of the first item. -/
theorem linkLst (h : Order cells ptr lst threads g) (hnd : g.nodes.Nodup) {item : Ptr}
    (ht : threads[t]? = some (.linkPrev item 0)) (hitem : item ≠ 0) :
    Order cells ptr item (threads.set t .bumpLen) g := by
  have hset : ∀ q, Joined threads q → Joined (threads.set t .bumpLen) q :=
    fun q => Joined.set ht (Or.inl rfl)
  have hself : Joined (threads.set t .bumpLen) item := h.joined_after ht
  have hg := Grows.refl g
  obtain ⟨k, hbase, hnode, hold⟩ := h.puts _ (List.mem_of_getElem? ht)
  obtain rfl := (hold.resolve_right fun hne => hne.1 rfl).2
  have hbase₀ : g.base = 0 := Nat.le_zero.mp hbase
  have hlst : lst = 0 := by
    by_contra hne
    have hreach := h.reach hne
    exact hreach.joined 0 item hbase (Nat.zero_le _) hnode _ (List.mem_of_getElem? ht) rfl
  obtain ⟨-, htail, -⟩ := h.root hlst
  refine ⟨h.base_le, h.claimed_le, h.last, h.newest, fun k' p hk' hp => ?_, fun _ => ?_,
    fun h0 => absurd h0 hitem, once_set h.once ht nofun, forall_mem_set h.puts trivial, ?_⟩
  · obtain ⟨i, hi, hok⟩ := h.item k' p hk' hp
    refine ⟨i, hi, hok.payload, hok.claimed, hok.needrel,
      fun h0 => ⟨(hok.prev h0).1, hset _ (hok.prev h0).2⟩, fun b hb hjoined => ?_,
      fun j a hkj hb ha => ?_⟩
    · refine hok.linked b hb ((joined_iff_after ht ?_).mp hjoined)
      rintro rfl
      have hsame := Ghost.eq_of_node hnd (Nat.le_succ_of_le hk') hbase hb hnode
      omega
    · refine (hok.next j a hkj hb ha).imp id ?_
      rintro ⟨old, hmem⟩
      exact ⟨old, mem_set_of_ne ht hmem nofun⟩
  · refine ⟨htail ▸ hbase, htail ▸ Nat.zero_le _, htail ▸ hnode, fun j q _ hle hq => ?_⟩
    obtain rfl : j = 0 := by omega
    obtain rfl := Option.some.inj (hnode.symm.trans hq)
    exact hself
  · exact forall_mem_set (fun x hx => (h.gets x hx).grow hg fun q _ => hset q)
      (GetOk.of_cur_none rfl)

/-- **A claim** of the first item that is not claimed. -/
theorem claim (h : Order cells ptr lst threads g) (hnd : g.nodes.Nodup) {cur : Ptr}
    {i : Item (Tagged α)} (hi : cells cur = some i) (hcur : Reached threads g cur g.claimed) :
    Order (Function.update cells cur (some { i with claimed := true })) ptr lst threads
      { g with claimed := g.claimed + 1 } := by
  have hg : Grows g { g with claimed := g.claimed + 1 } :=
    ⟨rfl, le_refl _, Nat.le_succ _, List.prefix_refl _⟩
  have hlt := Ghost.node_lt hcur.node
  refine ⟨h.base_le.trans (Nat.le_succ _), hlt, h.last, h.newest, fun k p hk hp => ?_,
    fun hne => (h.reach hne).grow hg fun _ _ hj => hj, h.root, h.once,
    fun x hx => (h.puts x hx).grow hg, fun x hx => (h.gets x hx).grow hg fun _ _ hj => hj⟩
  have hp' : g.node k = some p := hp
  obtain ⟨i', hi', hok⟩ := h.item k p hk hp'
  by_cases heq : p = cur
  · subst heq
    obtain rfl : i' = i := Option.some.inj (hi'.symm.trans hi)
    obtain rfl : k = g.claimed := Ghost.eq_of_node hnd hk hcur.base hp' hcur.node
    refine ⟨_, Function.update_self _ _ _, hok.payload, ?_, fun _ => Nat.lt_succ_self _, hok.prev,
      hok.linked, hok.next⟩
    simp
  · refine ⟨i', (Function.update_of_ne heq _ _).trans hi', ?_⟩
    have hne : k ≠ g.claimed := by
      rintro rfl
      exact heq (Option.some.inj (hp'.symm.trans hcur.node))
    refine hok.grow hg ?_ (fun b hb => Or.inl hb) (fun _ _ => Iff.rfl) hk fun _ hmem => hmem
    rw [hok.claimed]
    congr 1
    simp only [eq_iff_iff]
    omega

/-- `lst` moves on to the item after it. -/
theorem moveLst (h : Order cells ptr lst threads g) {nlst : Ptr} (hne : nlst ≠ 0)
    (hnlst : Reached threads g nlst (g.tail + 1)) :
    Order cells ptr nlst threads { g with tail := g.tail + 1 } := by
  have hg : Grows g { g with tail := g.tail + 1 } :=
    ⟨rfl, Nat.le_succ _, le_refl _, List.prefix_refl _⟩
  refine ⟨h.base_le, h.claimed_le, h.last, h.newest, fun k p hk hp => ?_,
    fun _ => hnlst.grow hg fun _ _ hj => hj, fun h0 => absurd h0 hne, h.once,
    fun x hx => (h.puts x hx).grow hg, fun x hx => (h.gets x hx).grow hg fun _ _ hj => hj⟩
  obtain ⟨i, hi, hok⟩ := h.item k p hk hp
  exact ⟨i, hi, hok.grow hg hok.claimed (fun b hb => Or.inl hb) (fun _ _ => Iff.rfl) hk
    fun _ hmem => hmem⟩

/-- **A release** forgets the items before one that no other get is behind. -/
theorem retire (h : Order cells ptr lst threads g) {cur : Ptr} {k : ℕ} (zombies : List Ptr)
    (hcur : Reached threads g cur k) (htail : k ≤ g.tail)
    (hahead : ∀ pc ∈ threads, ∀ p, pc.cur = some p → ∀ j, HeldAt threads g pc p j → k ≤ j)
    (hrel : ∀ pc ∈ threads, pc.releasing = false) :
    Order cells ptr lst threads { g with base := k, zombies := zombies } := by
  have hreach : ∀ p j, Reached threads g p j → k ≤ j →
      Reached threads { g with base := k, zombies := zombies } p j := by
    intro p j hp hle
    exact ⟨hle, hp.claimed, hp.node, fun j' q hbase => hp.joined j' q (hcur.base.trans hbase)⟩
  have hlst : lst ≠ 0 := by
    intro h0
    obtain ⟨hbase, -, hnot⟩ := h.root h0
    have hlt : 0 < g.hist.length := Nat.lt_of_le_of_lt (Nat.zero_le k) (Ghost.node_lt hcur.node)
    have hzero : g.node 0 = some g.hist[0].1 := by
      rw [Ghost.node, List.getElem?_eq_getElem hlt]
      rfl
    exact hnot _ hzero (hcur.joined 0 _ hbase.le (Nat.zero_le k) hzero)
  refine ⟨hcur.claimed, h.claimed_le, fun _ => Ghost.node_lt hcur.node, h.newest,
    fun j p hj hp => ?_, fun hne => hreach lst _ (h.reach hne) htail, fun h0 => absurd h0 hlst,
    h.once, fun x hx => ?_, fun x hx => ?_⟩
  · obtain ⟨i, hi, hok⟩ := h.item j p (hcur.base.trans hj) hp
    exact ⟨i, hi, hok.payload, hok.claimed, hok.needrel, hok.prev, hok.linked,
      fun j' a hjk hbase => hok.next j' a hjk (hcur.base.trans hbase)⟩
  · -- an item that is being linked comes after every item that was reached
    have hput := h.puts x hx
    have hafter : ∀ item j, g.base ≤ j → g.node j = some item → x.joins = some item → k < j := by
      intro item j hbase hnode hjoins
      by_contra hle
      exact hcur.joined j item hbase (Nat.le_of_not_lt hle) hnode x hx hjoins
    cases x with
    | linkNext item oldhead | linkPrev item oldhead =>
      obtain ⟨j, hbase, hitem, hold⟩ := hput
      have hlt := hafter item j hbase hitem rfl
      refine ⟨j, hlt.le, hitem, hold.imp id ?_⟩
      rintro ⟨hne, j', rfl, -, hj'⟩
      exact ⟨hne, j', rfl, Nat.le_of_lt_succ hlt, hj'⟩
    | _ => trivial
  · intro p hp
    obtain ⟨j, hheld⟩ := h.gets x hx p hp
    have hle := hahead x hx p hp j hheld
    refine ⟨j, hreach p j hheld.reached hle, hheld.early, hheld.past, hheld.claims, fun b hb => ?_,
      fun hr => ?_⟩
    · exact hreach b (j + 1) (hheld.nlst b hb) (Nat.le_succ_of_le hle)
    · rw [hrel x hx] at hr
      cases hr

end Order

end WaterNet.Queue.Link
