import WaterNet.Queue.LinkOrder

/-!
# The release of items (`queue.rs`)

`doingrel` lets one get at a time be in `taildealloc`.  Its loop goes through the items before the
one it was entered with, the last of them first, and pushes each into the cache.

* `behind` — the items that `taildealloc` would recycle, found by way of `next`;
* `Releases` — who is in `taildealloc`, and what is left to be pushed;
* `Order.chained_older` — when `doingrel` is free, these are all items before the one it starts at.
-/

namespace WaterNet.Queue.Link

open Lib Lib.Pool

variable {α : Type*}

/-- The items that are reached from one by way of `next`. -/
def behind (cells : Cells (Tagged α)) : ℕ → Ptr → List Ptr
  | 0, _ => []
  | fuel + 1, p =>
    match cells p with
    | none => []
    | some i => if i.next = 0 then [] else i.next :: behind cells fuel i.next

/-- Items each of which leads to the next one, the last nowhere. -/
def Chained (cells : Cells (Tagged α)) : List Ptr → Prop
  | [] => True
  | p :: ps => (cells p).map Item.next = some (ps.headD 0) ∧ Chained cells ps

theorem Chained.congr {cells cells' : Cells (Tagged α)} {ps : List Ptr} (h : Chained cells ps)
    (hsame : ∀ p ∈ ps, (cells' p).map Item.next = (cells p).map Item.next) : Chained cells' ps := by
  induction ps with
  | nil => trivial
  | cons p ps ih =>
    refine ⟨(hsame p List.mem_cons_self).trans h.1, ih h.2 fun q hq => ?_⟩
    exact hsame q (List.mem_cons_of_mem p hq)

theorem behind_eq {cells : Cells (Tagged α)} {ps : List Ptr} {p : Ptr} {fuel : ℕ}
    (hp : (cells p).map Item.next = some (ps.headD 0)) (h : Chained cells ps)
    (hne : ∀ q ∈ ps, q ≠ 0) (hfuel : ps.length ≤ fuel) : behind cells fuel p = ps := by
  induction ps generalizing p fuel with
  | nil =>
    cases fuel with
    | zero => rfl
    | succ fuel =>
      obtain ⟨i, hi, hnext⟩ := Option.map_eq_some_iff.mp hp
      have hzero : i.next = 0 := hnext
      simp [behind, hi, hzero]
  | cons q ps ih =>
    obtain ⟨fuel, rfl⟩ := Nat.exists_eq_succ_of_ne_zero (Nat.ne_zero_of_lt hfuel)
    obtain ⟨i, hi, hnext⟩ := Option.map_eq_some_iff.mp hp
    have hq : i.next = q := hnext
    have hrest := ih h.1 h.2 (fun x hx => hne x (List.mem_cons_of_mem q hx))
      (Nat.le_of_succ_le_succ hfuel)
    simp [behind, hi, hq, hne q List.mem_cons_self, hrest]

namespace Pc

def releases (pc : Pc α) : ℕ := if pc.releasing then 1 else 0

/-- In `taildealloc`. -/
def tailing : Pc α → Bool
  | .tailFirst _ | .tailNext .. | .pushPos .. | .pushSwap .. | .pushFree .. | .tailClear _ => true
  | _ => false

theorem tailing_of_releasing_false {pc : Pc α} (h : pc.releasing = false) : pc.tailing = false := by
  cases pc <;> first | rfl | cases h

theorem of_releasing {pc : Pc α} (h : pc.releasing = true) :
    pc.early = true ∧ pc.past = false ∧ pc.claims = none ∧ pc.nlst = none := by
  cases pc <;> first | exact ⟨rfl, rfl, rfl, rfl⟩ | cases h

end Pc

/-- What a release is about to do next. -/
def RelOk (cells : Cells (Tagged α)) (zombies : List Ptr) : Pc α → Prop
  | .tailFirst cur => (cells cur).map Item.next = some (zombies.headD 0)
  | .tailNext _ tail => zombies.head? = some tail
  | .pushPos _ _ ncur | .pushSwap _ _ _ ncur | .pushFree _ _ ncur => ncur = zombies.headD 0
  | .tailClear _ | .endRel _ => zombies = []
  | _ => True

theorem RelOk.of_not_releasing {cells : Cells (Tagged α)} {zombies : List Ptr} {pc : Pc α}
    (h : pc.releasing = false) : RelOk cells zombies pc := by
  cases pc <;> trivial

/-- **One release at a time**, and what it has left to push. -/
structure Releases (cells : Cells (Tagged α)) (doingrel : Bool) (threads : List (Pc α))
    (g : Ghost α) : Prop where
  mutex : total Pc.releases threads = if doingrel then 1 else 0
  chained : Chained cells g.zombies
  ok : ∀ pc ∈ threads, RelOk cells g.zombies pc
  rest : (∀ pc ∈ threads, pc.tailing = false) → g.zombies = [] ∧
    ∀ p, g.node g.base = some p → (cells p).map Item.next = some 0

namespace Releases

variable {cells cells' : Cells (Tagged α)} {doingrel : Bool} {threads : List (Pc α)}
  {g g' : Ghost α} {t : ℕ} {pc pc' : Pc α}

theorem none_releasing (h : Releases cells false threads g) :
    ∀ pc ∈ threads, pc.releasing = false := by
  intro pc hpc
  have hle := le_total Pc.releases hpc
  have hzero : total Pc.releases threads = 0 := h.mutex
  rw [Pc.releases] at hle
  by_contra hrel
  rw [Bool.not_eq_false] at hrel
  rw [if_pos hrel] at hle
  omega

/-- The others are not in it while one is. -/
theorem others_not_releasing (h : Releases cells doingrel threads g) (ht : threads[t]? = some pc)
    (hpc : pc.releasing = true) {t' : ℕ} {x : Pc α} (hne : t' ≠ t) (ht' : threads[t']? = some x) :
    x.releasing = false := by
  have hle := add_le_total Pc.releases hne.symm ht ht'
  have hmutex := h.mutex
  rw [Pc.releases, if_pos hpc, Pc.releases] at hle
  by_contra hrel
  rw [Bool.not_eq_false] at hrel
  rw [if_pos hrel] at hle
  split at hmutex <;> omega

/-- After a step of the one that is in it, the others are trivially right. -/
theorem ok_of_releasing (h : Releases cells doingrel threads g) (ht : threads[t]? = some pc)
    (hpc : pc.releasing = true) (hpc' : RelOk cells' g'.zombies pc') :
    ∀ x ∈ threads.set t pc', RelOk cells' g'.zombies x := by
  intro x hx
  obtain ⟨j, hj⟩ := List.mem_iff_getElem?.mp hx
  rcases getElem?_set_eq_some hj with ⟨-, rfl⟩ | ⟨hne, hold⟩
  · exact hpc'
  · exact RelOk.of_not_releasing (h.others_not_releasing ht hpc hne hold)

/-- A step outside, which leaves `next` of the items concerned alone. -/
theorem stay (h : Releases cells doingrel threads g) (ht : threads[t]? = some pc)
    (hrel : pc'.releasing = pc.releasing) (htail : pc'.tailing = pc.tailing)
    (hzombies : g'.zombies = g.zombies)
    (hchain : ∀ p ∈ g.zombies, (cells' p).map Item.next = (cells p).map Item.next)
    (hfirst : ∀ cur, Pc.tailFirst cur ∈ threads →
      (cells' cur).map Item.next = (cells cur).map Item.next)
    (hbase : (∀ p, g.node g.base = some p → (cells p).map Item.next = some 0) →
      ∀ p, g'.node g'.base = some p → (cells' p).map Item.next = some 0)
    (hok : RelOk cells' g'.zombies pc') : Releases cells' doingrel (threads.set t pc') g' := by
  refine ⟨?_, ?_, forall_mem_set (fun x hx => ?_) hok, fun hall => ?_⟩
  · have hset := total_set Pc.releases ht pc'
    have hsame : Pc.releases pc' = Pc.releases pc := by rw [Pc.releases, Pc.releases, hrel]
    rw [← h.mutex]
    omega
  · rw [hzombies]
    exact h.chained.congr hchain
  · have hold := h.ok x hx
    rw [hzombies]
    cases x with
    | tailFirst cur => exact (hfirst cur hx).trans hold
    | _ => exact hold
  · have hpc' : pc.tailing = false := by
      rw [← htail]
      exact hall pc' (List.mem_set (List.getElem?_eq_some_iff.mp ht).1 _)
    have hold : ∀ x ∈ threads, x.tailing = false := by
      intro x hx
      by_cases heq : x = pc
      · rw [heq]
        exact hpc'
      · exact hall x (mem_set_of_ne ht hx heq)
    obtain ⟨hnil, hnext⟩ := h.rest hold
    exact ⟨hzombies.trans hnil, hbase hnext⟩

/-- A release begins. -/
theorem start (h : Releases cells false threads g) (ht : threads[t]? = some pc) {cur : Ptr}
    (hzombies : Chained cells g'.zombies)
    (hcur : (cells cur).map Item.next = some (g'.zombies.headD 0)) :
    Releases cells true (threads.set t (.tailFirst cur)) g' := by
  have hnone := h.none_releasing
  refine ⟨?_, hzombies, forall_mem_set (fun x hx => RelOk.of_not_releasing (hnone x hx)) hcur,
    fun hall => ?_⟩
  · have hset := total_set Pc.releases ht (.tailFirst cur)
    have hpc : Pc.releases pc = 0 := by
      rw [Pc.releases, hnone pc (List.mem_of_getElem? ht)]
      rfl
    have hnew : Pc.releases (Pc.tailFirst cur : Pc α) = 1 := rfl
    have hmutex : total Pc.releases threads = 0 := h.mutex
    rw [if_pos rfl]
    omega
  · have htail := hall (.tailFirst cur) (List.mem_set (List.getElem?_eq_some_iff.mp ht).1 _)
    cases htail

/-- Its loop takes the next item. -/
theorem next (h : Releases cells doingrel threads g) {cur tail : Ptr} {zombies : List Ptr}
    (ht : threads[t]? = some (.tailNext cur tail)) (hz : g.zombies = tail :: zombies) :
    Releases cells doingrel (threads.set t (.pushPos cur tail (zombies.headD 0)))
      { g with zombies := zombies } := by
  have hchain := h.chained
  rw [hz] at hchain
  refine ⟨?_, hchain.2, h.ok_of_releasing ht rfl rfl, fun hall => ?_⟩
  · have hset := total_set Pc.releases ht (.pushPos cur tail (zombies.headD 0))
    have hsame : Pc.releases (Pc.pushPos cur tail (zombies.headD 0) : Pc α) =
      Pc.releases (Pc.tailNext cur tail : Pc α) := rfl
    rw [← h.mutex]
    omega
  · have htail := hall _ (List.mem_set (List.getElem?_eq_some_iff.mp ht).1 _)
    cases htail

/-- It ends with nothing left, and nothing leads there any more. -/
theorem clear (h : Releases cells doingrel threads g) {cur : Ptr}
    (ht : threads[t]? = some (.tailClear cur)) (hcur : g.node g.base = some cur)
    (hnext : (cells' cur).map Item.next = some 0) :
    Releases cells' doingrel (threads.set t (.endRel cur)) g := by
  have hz : g.zombies = [] := h.ok _ (List.mem_of_getElem? ht)
  refine ⟨?_, hz ▸ trivial, h.ok_of_releasing ht rfl hz, fun _ => ⟨hz, fun p hp => ?_⟩⟩
  · have hset := total_set Pc.releases ht (.endRel cur)
    have hsame : Pc.releases (Pc.endRel cur : Pc α) = Pc.releases (Pc.tailClear cur : Pc α) := rfl
    rw [← h.mutex]
    omega
  · obtain rfl := Option.some.inj (hcur.symm.trans hp)
    exact hnext

/-- `doingrel` is given back. -/
theorem finish (h : Releases cells doingrel threads g) {cur : Ptr}
    (ht : threads[t]? = some (.endRel cur)) :
    Releases cells false (threads.set t (.testAgain cur)) g := by
  refine ⟨?_, h.chained, h.ok_of_releasing ht rfl trivial, fun hall => h.rest fun x hx => ?_⟩
  · have hset := total_set Pc.releases ht (.testAgain cur)
    have hold : Pc.releases (Pc.endRel cur : Pc α) = 1 := rfl
    have hnew : Pc.releases (Pc.testAgain cur : Pc α) = 0 := rfl
    have hmutex := h.mutex
    have hfalse : (if false = true then 1 else 0) = 0 := rfl
    rw [hfalse]
    split at hmutex <;> omega
  · by_cases heq : x = .endRel cur
    · rw [heq]
      rfl
    · exact hall x (mem_set_of_ne ht hx heq)

end Releases

/-! ### What a release finds -/

namespace Ghost

/-- The items of the list before position `k`. -/
def older (g : Ghost α) (k : ℕ) : List Ptr := ((g.hist.take k).drop g.base).map Prod.fst

theorem nodes_split (g : Ghost α) {k : ℕ} (hbase : g.base ≤ k) (hk : k ≤ g.hist.length)
    (zombies : List Ptr) : g.nodes = g.older k ++ { g with base := k, zombies := zombies }.nodes := by
  have hlen : g.base ≤ (g.hist.take k).length := by
    rw [List.length_take]
    omega
  rw [nodes, older, nodes, ← List.map_append, ← List.drop_append_of_le_length hlen,
    List.take_append_drop]

theorem older_base (g : Ghost α) : g.older g.base = [] := by
  rw [older, List.drop_take, Nat.sub_self, List.take_zero]
  rfl

theorem older_succ {g : Ghost α} {k : ℕ} {p : Ptr} (hbase : g.base ≤ k) (hp : g.node k = some p) :
    g.older (k + 1) = g.older k ++ [p] := by
  obtain ⟨x, hx, rfl⟩ := Option.map_eq_some_iff.mp hp
  have hlen : g.base ≤ (g.hist.take k).length := by
    have hlt := node_lt hp
    rw [List.length_take]
    omega
  rw [older, older, List.take_add_one, hx, Option.toList_some, List.drop_append_of_le_length hlen,
    List.map_append]
  rfl

theorem mem_older {g : Ghost α} {j k : ℕ} {p : Ptr} (hbase : g.base ≤ j) (hlt : j < k)
    (hp : g.node j = some p) : p ∈ g.older k := by
  obtain ⟨x, hx, rfl⟩ := Option.map_eq_some_iff.mp hp
  refine List.mem_map_of_mem (List.mem_of_getElem? (i := j - g.base) ?_)
  rw [List.getElem?_drop, Nat.add_sub_cancel' hbase, List.getElem?_take, if_pos hlt]
  exact hx

theorem exists_of_mem_older {g : Ghost α} {k : ℕ} {p : Ptr} (hp : p ∈ g.older k) :
    ∃ j, g.base ≤ j ∧ j < k ∧ g.node j = some p := by
  obtain ⟨x, hx, rfl⟩ := List.mem_map.mp hp
  obtain ⟨j, hj⟩ := List.mem_iff_getElem?.mp hx
  rw [List.getElem?_drop, List.getElem?_take] at hj
  split at hj
  · rename_i hlt
    exact ⟨g.base + j, Nat.le_add_right _ _, hlt, Option.map_eq_some_iff.mpr ⟨x, hj, rfl⟩⟩
  · cases hj

end Ghost

/-- **What a release recycles** are the items before the one it starts at. -/
theorem Order.chained_older {cells : Cells (Tagged α)} {ptr lst : Ptr} {threads : List (Pc α)}
    {g : Ghost α} (h : Order cells ptr lst threads g)
    (hrest : ∀ p, g.node g.base = some p → (cells p).map Item.next = some 0) {cur : Ptr} {k : ℕ}
    (hcur : Reached threads g cur k) : Chained cells (g.older k).reverse ∧
      (cells cur).map Item.next = some ((g.older k).reverse.headD 0) := by
  obtain ⟨d, rfl⟩ := Nat.exists_eq_add_of_le hcur.base
  induction d generalizing cur with
  | zero =>
    rw [Nat.add_zero, g.older_base]
    exact ⟨trivial, hrest cur hcur.node⟩
  | succ d ih =>
    have hlt : g.base + d < g.hist.length :=
      Nat.lt_of_succ_lt (Ghost.node_lt hcur.node)
    obtain ⟨p, hp⟩ : ∃ p, g.node (g.base + d) = some p :=
      ⟨_, by rw [Ghost.node, List.getElem?_eq_getElem hlt]; rfl⟩
    have hreach : Reached threads g p (g.base + d) :=
      ⟨Nat.le_add_right _ _, (Nat.le_succ _).trans hcur.claimed, hp,
        fun j q hbase hle => hcur.joined j q hbase (hle.trans (Nat.le_succ _))⟩
    obtain ⟨hchain, hnext⟩ := ih hreach
    have hsucc : g.older (g.base + (d + 1)) = g.older (g.base + d) ++ [p] :=
      Ghost.older_succ (Nat.le_add_right _ _) hp
    rw [hsucc, List.reverse_append]
    refine ⟨⟨hnext, hchain⟩, ?_⟩
    obtain ⟨i, hi, hok⟩ := h.item _ cur hcur.base hcur.node
    rcases hok.next (g.base + d) p rfl (Nat.le_add_right _ _) hp with heq | ⟨oldhead, hmem⟩
    · rw [hi]
      exact congrArg some heq
    · exact absurd rfl (hcur.joined _ cur hcur.base (le_refl _) hcur.node _ hmem)

end WaterNet.Queue.Link
