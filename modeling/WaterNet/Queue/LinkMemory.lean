import WaterNet.Queue.LinkStep

/-!
# Who holds an item (`queue.rs`)

An item that is allocated is linked, or on its way into the cache, or in the cache, or in the hands
of one thread: of a put that fills it, or of the release that recycles it.  It is never in two of
these places.

* `tally` — in how many places an address is;
* `Memory` — at most one, and only if it is allocated;
* `Memory.change` and the lemmas after it — every move from one place to another keeps this;
* `Stage` — what a put has stored in its item so far, which nobody else touches.
-/

namespace WaterNet.Queue.Link

open Lib Lib.Pool

variable {α : Type*}

namespace Pc

/-- The item that the thread alone holds: a put's before it is linked, or one being recycled. -/
def owned : Pc α → Option Ptr
  | .reset _ item _ | .bumpSent item _ | .swapPtr item _ => some item
  | .pushPos _ tail _ | .pushSwap _ _ tail _ => some tail
  | .pushFree _ old _ => some old
  | _ => none

def owns (p : Ptr) (pc : Pc α) : ℕ := if pc.owned = some p then 1 else 0

end Pc

def isPtr (p x : Ptr) : ℕ := if x = p then 1 else 0

/-- A slot of the cache that is not empty. -/
def inSlot (p x : Ptr) : ℕ := if x = p ∧ x ≠ 0 then 1 else 0

/-- In how many places the address is: linked, on its way into the cache, in it, with a thread. -/
def tally (nodes zombies block : List Ptr) (threads : List (Pc α)) (p : Ptr) : ℕ :=
  total (isPtr p) nodes + total (isPtr p) zombies + total (inSlot p) block +
    total (Pc.owns p) threads

/-- **No item is in two places**, and none that is in one was deallocated. -/
structure Memory (cells : Cells (Tagged α)) (asked : ℕ) (recycle : PointerCache)
    (threads : List (Pc α)) (nodes zombies : List Ptr) : Prop where
  null : cells 0 = none
  once : ∀ p, tally nodes zombies recycle.block threads p ≤ 1
  alloc : ∀ p, 0 < tally nodes zombies recycle.block threads p → (cells p).isSome = true
  block : recycle.block.length = recycle.mask.toNat + 1
  asked : ∃ used : List Ptr, used.length ≤ asked ∧ ∀ p, (cells p).isSome = true → p ∈ used

theorem pos_of_mem {p : Ptr} {l : List Ptr} (h : p ∈ l) : 0 < total (isPtr p) l := by
  have hle := le_total (isPtr p) h
  rw [isPtr, if_pos rfl] at hle
  exact hle

theorem owns_pos {p : Ptr} {pc : Pc α} {threads : List (Pc α)} (h : pc ∈ threads)
    (howned : pc.owned = some p) : 0 < total (Pc.owns p) threads := by
  have hle := le_total (Pc.owns p) h
  rw [Pc.owns, if_pos howned] at hle
  exact hle

theorem owns_of_none {pc : Pc α} (h : pc.owned = none) (q : Ptr) : Pc.owns q pc = 0 := by
  rw [Pc.owns, h, if_neg (by simp)]

theorem owns_of_some {pc : Pc α} {p : Ptr} (h : pc.owned = some p) (q : Ptr) :
    Pc.owns q pc = isPtr q p := by
  rw [Pc.owns, h, isPtr]
  simp only [Option.some.injEq]

theorem inSlot_pos {p : Ptr} {block : List Ptr} (h : p ∈ block) (hp : p ≠ 0) :
    0 < total (inSlot p) block := by
  have hle := le_total (inSlot p) h
  rw [inSlot, if_pos ⟨rfl, hp⟩] at hle
  exact hle

namespace Memory

variable {cells cells' : Cells (Tagged α)} {asked : ℕ} {recycle recycle' : PointerCache}
  {threads threads' : List (Pc α)} {nodes nodes' zombies zombies' : List Ptr} {t : ℕ}
  {pc pc' : Pc α} {p : Ptr}

theorem ne_zero (h : Memory cells asked recycle threads nodes zombies)
    (hp : 0 < tally nodes zombies recycle.block threads p) : p ≠ 0 := by
  rintro rfl
  have hsome := h.alloc 0 hp
  rw [h.null] at hsome
  cases hsome

theorem node_isSome (h : Memory cells asked recycle threads nodes zombies) (hp : p ∈ nodes) :
    (cells p).isSome = true := by
  have hpos := pos_of_mem hp
  exact h.alloc p (by rw [tally]; omega)

theorem node_ne_zero (h : Memory cells asked recycle threads nodes zombies) (hp : p ∈ nodes) :
    p ≠ 0 := by
  have hpos := pos_of_mem hp
  exact h.ne_zero (by rw [tally]; omega)

theorem zombie_ne_zero (h : Memory cells asked recycle threads nodes zombies) (hp : p ∈ zombies) :
    p ≠ 0 := by
  have hpos := pos_of_mem hp
  exact h.ne_zero (by rw [tally]; omega)

theorem zombie_isSome (h : Memory cells asked recycle threads nodes zombies) (hp : p ∈ zombies) :
    (cells p).isSome = true := by
  have hpos := pos_of_mem hp
  exact h.alloc p (by rw [tally]; omega)

theorem owned_isSome (h : Memory cells asked recycle threads nodes zombies) (hpc : pc ∈ threads)
    (howned : pc.owned = some p) : (cells p).isSome = true := by
  have hpos := owns_pos hpc howned
  exact h.alloc p (by rw [tally]; omega)

theorem owned_ne_zero (h : Memory cells asked recycle threads nodes zombies) (hpc : pc ∈ threads)
    (howned : pc.owned = some p) : p ≠ 0 := by
  have hpos := owns_pos hpc howned
  exact h.ne_zero (by rw [tally]; omega)

/-- A linked item is in nobody's hands. -/
theorem node_not_owned (h : Memory cells asked recycle threads nodes zombies) (hp : p ∈ nodes)
    (hpc : pc ∈ threads) : pc.owned ≠ some p := by
  intro howned
  have hpos := pos_of_mem hp
  have hown := owns_pos hpc howned
  have honce := h.once p
  rw [tally] at honce
  omega

theorem node_not_zombie (h : Memory cells asked recycle threads nodes zombies) (hp : p ∈ nodes) :
    p ∉ zombies := by
  intro hz
  have hpos := pos_of_mem hp
  have hpos' := pos_of_mem hz
  have honce := h.once p
  rw [tally] at honce
  omega

theorem zombie_not_owned (h : Memory cells asked recycle threads nodes zombies) (hp : p ∈ zombies)
    (hpc : pc ∈ threads) : pc.owned ≠ some p := by
  intro howned
  have hpos := pos_of_mem hp
  have hown := owns_pos hpc howned
  have honce := h.once p
  rw [tally] at honce
  omega

/-- Two threads do not hold the same item. -/
theorem owned_apart (h : Memory cells asked recycle threads nodes zombies) {t' : ℕ}
    (ht : threads[t]? = some pc) (ht' : threads[t']? = some pc') (hne : t ≠ t')
    (howned : pc.owned = some p) : pc'.owned ≠ some p := by
  intro howned'
  have hle := add_le_total (Pc.owns p) hne ht ht'
  have honce := h.once p
  rw [Pc.owns, if_pos howned, Pc.owns, if_pos howned'] at hle
  rw [tally] at honce
  omega

theorem nodup (h : Memory cells asked recycle threads nodes zombies) : nodes.Nodup := by
  rw [List.nodup_iff_pairwise_ne, List.pairwise_iff_getElem]
  intro i j hi hj hij heq
  have hle := add_le_total (isPtr nodes[i]) (Nat.ne_of_lt hij) (List.getElem?_eq_getElem hi)
    (List.getElem?_eq_getElem hj)
  have honce := h.once nodes[i]
  rw [isPtr, if_pos rfl, isPtr, if_pos heq.symm] at hle
  rw [tally] at honce
  omega

/-- **Items change places.**  Nothing is then in more places than before, and what is somewhere was
not deallocated. -/
theorem change (h : Memory cells asked recycle threads nodes zombies)
    (hle : ∀ p, tally nodes' zombies' recycle'.block threads' p ≤
      tally nodes zombies recycle.block threads p)
    (hkeep : ∀ p, 0 < tally nodes' zombies' recycle'.block threads' p →
      (cells p).isSome = true → (cells' p).isSome = true)
    (hsub : ∀ p, (cells' p).isSome = true → (cells p).isSome = true)
    (hlen : recycle'.block.length = recycle.block.length) (hmask : recycle'.mask = recycle.mask) :
    Memory cells' asked recycle' threads' nodes' zombies' := by
  refine ⟨?_, fun p => (hle p).trans (h.once p), fun p hp => ?_, ?_, ?_⟩
  · by_contra hsome
    have hzero := hsub 0 (Option.isSome_iff_ne_none.mpr hsome)
    rw [h.null] at hzero
    cases hzero
  · exact hkeep p hp (h.alloc p (Nat.lt_of_lt_of_le hp (hle p)))
  · rw [hlen, hmask]
    exact h.block
  · obtain ⟨used, hused, hin⟩ := h.asked
    exact ⟨used, hused, fun p hp => hin p (hsub p hp)⟩

/-- A step that moves no item. -/
theorem keep (h : Memory cells asked recycle threads nodes zombies) (ht : threads[t]? = some pc)
    (howned : pc'.owned = pc.owned) (hblock : recycle'.block = recycle.block)
    (hmask : recycle'.mask = recycle.mask)
    (hcells : ∀ p, (cells' p).isSome = (cells p).isSome) :
    Memory cells' asked recycle' (threads.set t pc') nodes zombies := by
  have hle : ∀ p, tally nodes zombies recycle'.block (threads.set t pc') p ≤
      tally nodes zombies recycle.block threads p := by
    intro p
    have hset := total_set (Pc.owns p) ht pc'
    have hsame : Pc.owns p pc' = Pc.owns p pc := by rw [Pc.owns, Pc.owns, howned]
    rw [tally, tally, hblock]
    omega
  refine h.change hle (fun p _ hp => ?_) (fun p hp => ?_) (by rw [hblock]) hmask
  · rw [hcells]
    exact hp
  · rw [← hcells]
    exact hp

/-- What a `swap` on a slot does to the slots. -/
theorem inSlot_swap (p : Ptr) (c : PointerCache) (slot new : Ptr) :
    total (inSlot p) (c.swap slot new).2.block + inSlot p (c.swap slot new).1 ≤
      total (inSlot p) c.block + inSlot p new := by
  by_cases hlt : slot < c.block.length
  · have hget := List.getElem?_eq_getElem hlt
    have hset := total_set (inSlot p) hget new
    have hold : (c.swap slot new).1 = c.block[slot] := by
      show c.block.getD slot 0 = _
      rw [List.getD_eq_getElem?_getD, hget, Option.getD_some]
    rw [hold]
    exact hset.le
  · have hnone : c.block[slot]? = none := List.getElem?_eq_none (Nat.le_of_not_lt hlt)
    have hold : (c.swap slot new).1 = 0 := by
      show c.block.getD slot 0 = _
      rw [List.getD_eq_getElem?_getD, hnone, Option.getD_none]
    have hblock : (c.swap slot new).2.block = c.block :=
      List.set_eq_of_length_le (Nat.le_of_not_lt hlt)
    rw [hold, hblock, inSlot, if_neg fun hand => hand.2 rfl]
    omega

/-- A pop takes an item from the cache. -/
theorem pop (h : Memory cells asked recycle threads nodes zombies) (ht : threads[t]? = some pc)
    (hpc : pc.owned = none) {slot : ℕ} (hpc' : pc'.owned =
      if (recycle.swap slot 0).1 ≠ 0 then some (recycle.swap slot 0).1 else none) :
    Memory cells asked (recycle.swap slot 0).2 (threads.set t pc') nodes zombies := by
  refine h.change (fun p => ?_) (fun p _ hp => hp) (fun p hp => hp) List.length_set rfl
  have hset := total_set (Pc.owns p) ht pc'
  have hslot := inSlot_swap p recycle slot 0
  have hzero : inSlot p 0 = 0 := if_neg fun hand => hand.2 rfl
  have hnone : Pc.owns p pc = 0 := by rw [Pc.owns, hpc, if_neg (by simp)]
  have hnew : Pc.owns p pc' = inSlot p (recycle.swap slot 0).1 := by
    rw [Pc.owns, hpc', inSlot]
    by_cases h0 : (recycle.swap slot 0).1 = 0 <;> simp [h0]
  rw [tally, tally]
  omega

/-- A push puts its item into the cache and takes out what was in the slot. -/
theorem push (h : Memory cells asked recycle threads nodes zombies) (ht : threads[t]? = some pc)
    {slot : ℕ} {tail : Ptr} (hpc : pc.owned = some tail) (hpc' : pc'.owned =
      if (recycle.swap slot tail).1 ≠ 0 then some (recycle.swap slot tail).1 else none) :
    Memory cells asked (recycle.swap slot tail).2 (threads.set t pc') nodes zombies := by
  have htail : tail ≠ 0 := h.owned_ne_zero (List.mem_of_getElem? ht) hpc
  refine h.change (fun p => ?_) (fun p _ hp => hp) (fun p hp => hp) List.length_set rfl
  have hset := total_set (Pc.owns p) ht pc'
  have hslot := inSlot_swap p recycle slot tail
  have hold : Pc.owns p pc = inSlot p tail := by
    rw [Pc.owns, hpc, inSlot]
    simp [htail]
  have hnew : Pc.owns p pc' = inSlot p (recycle.swap slot tail).1 := by
    rw [Pc.owns, hpc', inSlot]
    by_cases h0 : (recycle.swap slot tail).1 = 0 <;> simp [h0]
  rw [tally, tally]
  omega

/-- A put allocates its item. -/
theorem box (h : Memory cells asked recycle threads nodes zombies) (ht : threads[t]? = some pc)
    (hpc : pc.owned = none) (hp : p ≠ 0) (hfree : cells p = none) (hpc' : pc'.owned = some p)
    (i : Item (Tagged α)) :
    Memory (Function.update cells p (some i)) (asked + 1) recycle (threads.set t pc') nodes
      zombies := by
  have htally : ∀ q, tally nodes zombies recycle.block (threads.set t pc') q =
      tally nodes zombies recycle.block threads q + isPtr q p := by
    intro q
    have hset := total_set (Pc.owns q) ht pc'
    rw [owns_of_none hpc, owns_of_some hpc'] at hset
    rw [tally, tally]
    omega
  have hzero : tally nodes zombies recycle.block threads p = 0 := by
    by_contra hpos
    have hsome := h.alloc p (Nat.pos_of_ne_zero hpos)
    rw [hfree] at hsome
    cases hsome
  refine ⟨?_, fun q => ?_, fun q hq => ?_, h.block, ?_⟩
  · rw [Function.update_of_ne hp.symm]
    exact h.null
  · have honce := h.once q
    rw [htally]
    by_cases heq : p = q
    · rw [isPtr, if_pos heq, ← heq, hzero]
    · rw [isPtr, if_neg heq]
      exact honce
  · by_cases heq : q = p
    · rw [heq, Function.update_self]
      rfl
    · rw [Function.update_of_ne heq]
      rw [htally, isPtr, if_neg (Ne.symm heq)] at hq
      exact h.alloc q hq
  · obtain ⟨used, hused, hin⟩ := h.asked
    refine ⟨p :: used, Nat.succ_le_succ hused, fun q hq => ?_⟩
    by_cases heq : q = p
    · exact heq ▸ List.mem_cons_self
    · rw [Function.update_of_ne heq] at hq
      exact List.mem_cons_of_mem p (hin q hq)

/-- A put links its item. -/
theorem link (h : Memory cells asked recycle threads nodes zombies) (ht : threads[t]? = some pc)
    (hpc : pc.owned = some p) (hpc' : pc'.owned = none) :
    Memory cells asked recycle (threads.set t pc') (nodes ++ [p]) zombies := by
  refine h.change (fun q => ?_) (fun q _ hq => hq) (fun q hq => hq) rfl rfl
  have hset := total_set (Pc.owns q) ht pc'
  rw [owns_of_some hpc, owns_of_none hpc'] at hset
  rw [tally, tally, total_append, total_cons, total_nil]
  omega

/-- The items before one leave the list, all at once. -/
theorem retire {older : List Ptr} (h : Memory cells asked recycle threads (older ++ nodes) [])
    (ht : threads[t]? = some pc) (howned : pc'.owned = pc.owned) :
    Memory cells asked recycle (threads.set t pc') nodes older.reverse := by
  refine h.change (fun q => ?_) (fun q _ hq => hq) (fun q hq => hq) rfl rfl
  have hset := total_set (Pc.owns q) ht pc'
  have hsame : Pc.owns q pc' = Pc.owns q pc := by rw [Pc.owns, Pc.owns, howned]
  have hrev : total (isPtr q) older.reverse = total (isPtr q) older := by
    rw [total, total, List.map_reverse, List.sum_reverse]
  rw [tally, tally, hrev, total_append, total_nil]
  omega

/-- The release takes the next of them to push it. -/
theorem grab (h : Memory cells asked recycle threads nodes (p :: zombies))
    (ht : threads[t]? = some pc) (hpc : pc.owned = none) (hpc' : pc'.owned = some p) :
    Memory cells asked recycle (threads.set t pc') nodes zombies := by
  refine h.change (fun q => ?_) (fun q _ hq => hq) (fun q hq => hq) rfl rfl
  have hset := total_set (Pc.owns q) ht pc'
  rw [owns_of_some hpc', owns_of_none hpc] at hset
  rw [tally, tally, total_cons]
  omega

/-- What a push displaced is deallocated. -/
theorem free (h : Memory cells asked recycle threads nodes zombies) (ht : threads[t]? = some pc)
    (hpc : pc.owned = some p) (hpc' : pc'.owned = none) :
    Memory (Function.update cells p none) asked recycle (threads.set t pc') nodes zombies := by
  have htally : ∀ q, tally nodes zombies recycle.block (threads.set t pc') q +
      isPtr q p = tally nodes zombies recycle.block threads q := by
    intro q
    have hset := total_set (Pc.owns q) ht pc'
    rw [owns_of_some hpc, owns_of_none hpc'] at hset
    rw [tally, tally]
    omega
  refine h.change (fun q => ?_) (fun q hq hsome => ?_) (fun q hq => ?_) rfl rfl
  · have hq := htally q
    omega
  · -- nothing is left at the address that is freed
    have hne : q ≠ p := by
      rintro rfl
      have hsum := htally q
      have honce := h.once q
      rw [isPtr, if_pos rfl] at hsum
      omega
    rw [Function.update_of_ne hne]
    exact hsome
  · by_cases heq : q = p
    · rw [heq, Function.update_self] at hq
      cases hq
    · rw [Function.update_of_ne heq] at hq
      exact hq

end Memory

/-! ### The item of a put -/

/-- The stores before this one were made. -/
def Field.Done : Field → Item (Tagged α) → Prop
  | .claimed, _ => True
  | .needrel, i => i.claimed = false
  | .next, i => i.claimed = false ∧ i.needrel = false
  | .prev, i => i.claimed = false ∧ i.needrel = false ∧ i.next = 0
  | .payload, i => i.claimed = false ∧ i.needrel = false ∧ i.next = 0 ∧ i.prev = 0

/-- What a put has stored in its item. -/
def Stage (cells : Cells (Tagged α)) : Pc α → Prop
  | .reset f item _ => ∃ i, cells item = some i ∧ f.Done i
  | .bumpSent item v | .swapPtr item v => cells item = some (Item.new v)
  | _ => True

theorem Stage.congr {cells cells' : Cells (Tagged α)} {pc : Pc α} (h : Stage cells pc)
    (hsame : ∀ p, pc.owned = some p → cells' p = cells p) : Stage cells' pc := by
  cases pc with
  | reset f item v =>
    obtain ⟨i, hi, hdone⟩ := h
    exact ⟨i, (hsame item rfl).trans hi, hdone⟩
  | bumpSent item v | swapPtr item v => exact (hsame item rfl).trans h
  | _ => trivial

theorem Stage.of_owned_none {cells : Cells (Tagged α)} {pc : Pc α} (h : pc.owned = none) :
    Stage cells pc := by
  cases pc with
  | reset f item v | bumpSent item v | swapPtr item v => cases h
  | _ => trivial

/-- The other puts' items are as they were. -/
theorem stages_set {cells cells' : Cells (Tagged α)} {threads : List (Pc α)} {t : ℕ} {pc' : Pc α}
    (h : ∀ pc ∈ threads, Stage cells pc)
    (hsame : ∀ (t' : ℕ) (x : Pc α) (p : Ptr), t' ≠ t → threads[t']? = some x → x.owned = some p →
      cells' p = cells p)
    (hnew : Stage cells' pc') : ∀ pc ∈ threads.set t pc', Stage cells' pc := by
  intro x hx
  obtain ⟨t', ht'⟩ := List.mem_iff_getElem?.mp hx
  rcases getElem?_set_eq_some ht' with ⟨-, rfl⟩ | ⟨hne, hold⟩
  · exact hnew
  · exact (h x (List.mem_of_getElem? hold)).congr fun p hp => hsame t' x p hne hold hp

/-- A store into an item that is reused. -/
theorem Stage.store {cells : Cells (Tagged α)} {f : Field} {item : Ptr} {v : Tagged α}
    {i : Item (Tagged α)} (hi : cells item = some i) (h : Stage cells (.reset f item v)) :
    Stage (Function.update cells item (some (f.store v i))) (match f.after with
      | some f => .reset f item v
      | none => .bumpSent item v) := by
  obtain ⟨i', hi', hdone⟩ := h
  obtain rfl : i = i' := Option.some.inj (hi.symm.trans hi')
  have hat : Function.update cells item (some (f.store v i)) item = some (f.store v i) :=
    Function.update_self _ _ _
  cases f with
  | claimed => exact ⟨_, hat, rfl⟩
  | needrel => exact ⟨_, hat, hdone, rfl⟩
  | next => exact ⟨_, hat, hdone.1, hdone.2, rfl⟩
  | prev => exact ⟨_, hat, hdone.1, hdone.2.1, hdone.2.2, rfl⟩
  | payload =>
    obtain ⟨h1, h2, h3, h4⟩ := hdone
    refine hat.trans (congrArg some ?_)
    obtain ⟨next, prev, claimed, needrel, payload⟩ := i
    simp only at h1 h2 h3 h4
    rw [h1, h2, h3, h4]
    rfl

end WaterNet.Queue.Link
