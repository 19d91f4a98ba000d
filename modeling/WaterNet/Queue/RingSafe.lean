import WaterNet.Queue.RingStep

/-!
# A full ring loses nothing while every put finds its item free (`queue.rs`)

`put` is meant to spin until its item is free.  Its loop spins the other way round, so a put goes
on from whatever state it finds; this module is about the runs in which it finds its item free.

* `SlotOk` — an item is held by at most one call, and its state word says which;
* `Inv`, `inv_step` — the invariant: every value put is in exactly one place;
* `LenOk`, `lenOk_step` — `len` lags behind the items by the calls between their last two steps;
* `Safe`, `never_loses` — **no value is lost** in runs whose steps are all orderly.
-/

namespace WaterNet.Queue.Ring

open Lib Lib.Pool Lib.Machine

variable {α : Type*}

/-! ### Who holds what -/

namespace Pc

/-- Has set the state of item `pos` from 0 to 1 and not yet copied its value. -/
def claiming (pos : ℕ) : Pc α → ℕ
  | .putSpin p _ true | .putCopy p _ => if p = pos then 1 else 0
  | _ => 0

def storing (pos : ℕ) : Pc α → ℕ
  | .putStore p => if p = pos then 1 else 0
  | _ => 0

def copying (pos : ℕ) : Pc α → ℕ
  | .getCopy p => if p = pos then 1 else 0
  | _ => 0

def emptying (pos : ℕ) : Pc α → ℕ
  | .getStore p _ => if p = pos then 1 else 0
  | _ => 0

/-- In `put`, the item not yet in state 2. -/
def putting : Pc α → ℕ
  | .putTx _ | .putSpin .. | .putCopy .. | .putStore _ => 1
  | _ => 0

/-- The item is in state 2 and not yet counted in `len`. -/
def adding : Pc α → ℕ
  | .putLen => 1
  | _ => 0

/-- The item is free again and still counted in `len`. -/
def subtracting : Pc α → ℕ
  | .getLen _ => 1
  | _ => 0

/-- The value a put has not yet copied into its item. -/
def brings : Pc α → Option (Tagged α)
  | .putTx v | .putSpin _ v _ | .putCopy _ v => some v
  | _ => none

/-- The value a get has copied out of its item. -/
def takes : Pc α → Option (Tagged α)
  | .getStore _ v | .getLen v => some v
  | _ => none

/-- Brings, or takes, the value of put number `n`. -/
def bringing (n : ℕ) (pc : Pc α) : ℕ := pc.brings.elim 0 (ofPut n)

def taking (n : ℕ) (pc : Pc α) : ℕ := pc.takes.elim 0 (ofPut n)

/-- Both program points hold item `pos` in the same way. -/
def SameAt (pc pc' : Pc α) (pos : ℕ) : Prop :=
  pc'.claiming pos = pc.claiming pos ∧ pc'.storing pos = pc.storing pos ∧
    pc'.copying pos = pc.copying pos ∧ pc'.emptying pos = pc.emptying pos

/-- The item the thread is at. -/
def item : Pc α → Option ℕ
  | .putSpin pos .. | .putCopy pos _ | .putStore pos | .getSwap _ pos | .getCopy pos
  | .getStore pos _ => some pos
  | _ => none

theorem roles_of_ne {pc : Pc α} {pos p : ℕ} (hp : p ≠ pos) (hpc : pc.item = some pos ∨ pc.item = none) :
    pc.claiming p = 0 ∧ pc.storing p = 0 ∧ pc.copying p = 0 ∧ pc.emptying p = 0 := by
  have hne : pc.item ≠ some p := by
    rcases hpc with h | h <;> rw [h] <;> simp [hp.symm]
  cases pc with
  | putSpin pos v claimed =>
    cases claimed <;> simp_all [item, claiming, storing, copying, emptying]
  | _ => simp_all [item, claiming, storing, copying, emptying]

/-- A step at one item leaves every other item's holders alone. -/
theorem sameAt_of_ne {pc pc' : Pc α} {pos p : ℕ} (hp : p ≠ pos)
    (hpc : pc.item = some pos ∨ pc.item = none) (hpc' : pc'.item = some pos ∨ pc'.item = none) :
    pc.SameAt pc' p := by
  obtain ⟨h1, h2, h3, h4⟩ := roles_of_ne hp hpc
  obtain ⟨h1', h2', h3', h4'⟩ := roles_of_ne hp hpc'
  exact ⟨h1'.trans h1.symm, h2'.trans h2.symm, h3'.trans h3.symm, h4'.trans h4.symm⟩

end Pc

/-- The value of put number `n` is the live one of the item. -/
def liveAs (n : ℕ) (l : Option (Tagged α)) : ℕ := l.elim 0 (ofPut n)

/-- An item that counts as filled: written, or being read. -/
def occupied (item : SizedRingQueueItem (Tagged α)) : ℕ :=
  if item.state = 2 ∨ item.state = 3 then 1 else 0

/-- What an item goes through, from one put to the next. -/
inductive Phase where
  | free
  /-- state 1, the old value still there -/
  | claimed
  /-- state 1, the new value copied in -/
  | filled
  | written
  /-- state 3, the value still there -/
  | reading
  /-- state 3, the value copied out -/
  | emptied
  deriving DecidableEq

namespace Phase

def state : Phase → UInt64
  | .free => 0
  | .claimed | .filled => 1
  | .written => 2
  | .reading | .emptied => 3

/-- Between the copy in and the copy out. -/
def live : Phase → Bool
  | .filled | .written | .reading => true
  | _ => false

/-- How many threads have claimed the item, and so on: never more than one in all. -/
def claiming (ph : Phase) : ℕ := if ph = .claimed then 1 else 0

def storing (ph : Phase) : ℕ := if ph = .filled then 1 else 0

def copying (ph : Phase) : ℕ := if ph = .reading then 1 else 0

def emptying (ph : Phase) : ℕ := if ph = .emptied then 1 else 0

end Phase

/-- **One item.**  Its state word, the threads that hold it and what is live in it fit one phase. -/
structure SlotOk (threads : List (Pc α)) (pos : ℕ) (item : SizedRingQueueItem (Tagged α))
    (live : Option (Tagged α)) (ph : Phase) : Prop where
  state : item.state = ph.state
  claiming : total (Pc.claiming pos) threads = ph.claiming
  storing : total (Pc.storing pos) threads = ph.storing
  copying : total (Pc.copying pos) threads = ph.copying
  emptying : total (Pc.emptying pos) threads = ph.emptying
  isLive : live.isSome = ph.live
  value : ∀ v, live = some v → item.value = some v

section SlotOk

variable {threads : List (Pc α)} {pos t : ℕ} {item item' : SizedRingQueueItem (Tagged α)}
  {live live' : Option (Tagged α)} {ph ph' : Phase} {pc pc' : Pc α}

/-- **An item goes from one phase to another**, as the thread `t` goes from `pc` to `pc'`. -/
theorem SlotOk.change (h : SlotOk threads pos item live ph) (ht : threads[t]? = some pc)
    (hclaiming : ph.claiming + pc'.claiming pos = ph'.claiming + pc.claiming pos)
    (hstoring : ph.storing + pc'.storing pos = ph'.storing + pc.storing pos)
    (hcopying : ph.copying + pc'.copying pos = ph'.copying + pc.copying pos)
    (hemptying : ph.emptying + pc'.emptying pos = ph'.emptying + pc.emptying pos)
    (hstate : item'.state = ph'.state) (hlive : live'.isSome = ph'.live)
    (hvalue : ∀ v, live' = some v → item'.value = some v) :
    SlotOk (threads.set t pc') pos item' live' ph' := by
  have e1 := total_set (Pc.claiming pos) ht pc'
  have e2 := total_set (Pc.storing pos) ht pc'
  have e3 := total_set (Pc.copying pos) ht pc'
  have e4 := total_set (Pc.emptying pos) ht pc'
  have h1 := h.claiming
  have h2 := h.storing
  have h3 := h.copying
  have h4 := h.emptying
  exact ⟨hstate, by omega, by omega, by omega, by omega, hlive, hvalue⟩

theorem SlotOk.move (h : SlotOk threads pos item live ph) (ht : threads[t]? = some pc)
    (hsame : pc.SameAt pc' pos) : SlotOk (threads.set t pc') pos item live ph := by
  obtain ⟨h1, h2, h3, h4⟩ := hsame
  exact h.change ht (by rw [h1]) (by rw [h2]) (by rw [h3]) (by rw [h4]) h.state h.isLive h.value

/-- The phase of an item that a thread holds. -/
theorem SlotOk.eq_claimed (h : SlotOk threads pos item live ph) (ht : threads[t]? = some pc)
    (hpc : 0 < pc.claiming pos) : ph = .claimed := by
  have hle := le_total (Pc.claiming pos) (List.mem_of_getElem? ht)
  rw [h.claiming, Phase.claiming] at hle
  by_contra hph
  rw [if_neg hph] at hle
  omega

theorem SlotOk.eq_filled (h : SlotOk threads pos item live ph) (ht : threads[t]? = some pc)
    (hpc : 0 < pc.storing pos) : ph = .filled := by
  have hle := le_total (Pc.storing pos) (List.mem_of_getElem? ht)
  rw [h.storing, Phase.storing] at hle
  by_contra hph
  rw [if_neg hph] at hle
  omega

theorem SlotOk.eq_reading (h : SlotOk threads pos item live ph) (ht : threads[t]? = some pc)
    (hpc : 0 < pc.copying pos) : ph = .reading := by
  have hle := le_total (Pc.copying pos) (List.mem_of_getElem? ht)
  rw [h.copying, Phase.copying] at hle
  by_contra hph
  rw [if_neg hph] at hle
  omega

theorem SlotOk.eq_emptied (h : SlotOk threads pos item live ph) (ht : threads[t]? = some pc)
    (hpc : 0 < pc.emptying pos) : ph = .emptied := by
  have hle := le_total (Pc.emptying pos) (List.mem_of_getElem? ht)
  rw [h.emptying, Phase.emptying] at hle
  by_contra hph
  rw [if_neg hph] at hle
  omega

theorem SlotOk.eq_free (h : SlotOk threads pos item live ph) (hstate : item.state = 0) :
    ph = .free := by
  have hph := h.state
  rw [hstate] at hph
  revert hph
  cases ph <;> decide

theorem SlotOk.eq_written (h : SlotOk threads pos item live ph) (hstate : item.state = 2) :
    ph = .written := by
  have hph := h.state
  rw [hstate] at hph
  revert hph
  cases ph <;> decide

end SlotOk

/-- Every item of the block, with the value that is live in it. -/
def SlotsOk (threads : List (Pc α)) (block : List (SizedRingQueueItem (Tagged α)))
    (live : List (Option (Tagged α))) : Prop :=
  ∀ pos item l, block[pos]? = some item → live[pos]? = some l →
    ∃ ph, SlotOk threads pos item l ph

theorem SlotsOk.move {threads : List (Pc α)} {block : List (SizedRingQueueItem (Tagged α))}
    {live : List (Option (Tagged α))} {t : ℕ} {pc pc' : Pc α} (h : SlotsOk threads block live)
    (ht : threads[t]? = some pc) (hsame : ∀ pos, pc.SameAt pc' pos) :
    SlotsOk (threads.set t pc') block live := by
  intro pos item l hitem hl
  obtain ⟨ph, h⟩ := h pos item l hitem hl
  exact ⟨ph, h.move ht (hsame pos)⟩

/-- A step that changes one item and what is live in it: the other items are held as before. -/
theorem SlotsOk.set {threads : List (Pc α)} {block : List (SizedRingQueueItem (Tagged α))}
    {live : List (Option (Tagged α))} {t pos : ℕ} {pc pc' : Pc α}
    {item : SizedRingQueueItem (Tagged α)} {l : Option (Tagged α)} {ph : Phase} (h : SlotsOk threads block live)
    (ht : threads[t]? = some pc) (hsame : ∀ p, p ≠ pos → pc.SameAt pc' p)
    (hpos : SlotOk (threads.set t pc') pos item l ph) :
    SlotsOk (threads.set t pc') (block.set pos item) (live.set pos l) := by
  intro p item' l' hitem' hl'
  rcases getElem?_set_eq_some hitem' with ⟨rfl, rfl⟩ | ⟨hp, hitem'⟩
  · rcases getElem?_set_eq_some hl' with ⟨-, rfl⟩ | ⟨hp, -⟩
    · exact ⟨ph, hpos⟩
    · exact absurd rfl hp
  · rcases getElem?_set_eq_some hl' with ⟨rfl, -⟩ | ⟨-, hl'⟩
    · exact absurd rfl hp
    · obtain ⟨ph', h⟩ := h p item' l' hitem' hl'
      exact ⟨ph', h.move ht (hsame p hp)⟩

/-! ### The life of a value -/

/-- **Every value put is in one place**: with its put, live in an item, with the get that copied
it out, or returned; and it is the value that was put. -/
structure Values (threads : List (Pc α)) (live : List (Option (Tagged α)))
    (returned : List (Tagged α)) (puts : List α) : Prop where
  once : ∀ n, total (Pc.bringing n) threads + total (liveAs n) live +
      total (Pc.taking n) threads + total (ofPut n) returned =
    if n < puts.length then 1 else 0
  brought : ∀ pc ∈ threads, ∀ v, pc.brings = some v → puts[v.origin]? = some v.value
  stored : ∀ l ∈ live, ∀ v, l = some v → puts[v.origin]? = some v.value
  taken : ∀ pc ∈ threads, ∀ v, pc.takes = some v → puts[v.origin]? = some v.value
  given : ∀ v ∈ returned, puts[v.origin]? = some v.value

section Values

variable {threads : List (Pc α)} {live : List (Option (Tagged α))} {returned : List (Tagged α)}
  {puts : List α} {t pos : ℕ} {pc pc' : Pc α} {v : Tagged α}

theorem Values.move (h : Values threads live returned puts) (ht : threads[t]? = some pc)
    (hbrings : pc'.brings = pc.brings) (htakes : pc'.takes = pc.takes) :
    Values (threads.set t pc') live returned puts := by
  have hmem := List.mem_of_getElem? ht
  refine ⟨?_, ?_, h.stored, ?_, h.given⟩
  · intro n
    have e1 := total_set (Pc.bringing n) ht pc'
    have e2 := total_set (Pc.taking n) ht pc'
    simp only [Pc.bringing, Pc.taking, hbrings, htakes] at e1 e2
    rw [← h.once n]
    omega
  · apply forall_mem_set h.brought
    intro v hv
    exact h.brought pc hmem v (hbrings ▸ hv)
  · apply forall_mem_set h.taken
    intro v hv
    exact h.taken pc hmem v (htakes ▸ hv)

/-- A put begins: its value is the next one. -/
theorem Values.start (h : Values threads live returned puts) (ht : threads[t]? = some .idle)
    (x : α) : Values (threads.set t (.putTx ⟨puts.length, x⟩)) live returned (puts ++ [x]) := by
  have hold : ∀ v : Tagged α, puts[v.origin]? = some v.value →
      (puts ++ [x])[v.origin]? = some v.value := by
    intro v hv
    rw [List.getElem?_append_left (List.getElem?_eq_some_iff.mp hv).1]
    exact hv
  refine ⟨?_, ?_, ?_, ?_, ?_⟩
  · intro n
    have e1 : total (Pc.bringing n) (threads.set t (.putTx ⟨puts.length, x⟩)) + 0 =
        total (Pc.bringing n) threads + (if puts.length = n then 1 else 0) := total_set _ ht _
    have e2 : total (Pc.taking n) (threads.set t (.putTx ⟨puts.length, x⟩)) + 0 =
        total (Pc.taking n) threads + 0 := total_set _ ht _
    have honce := h.once n
    rw [List.length_append, List.length_singleton]
    split_ifs at e1 honce ⊢ <;> omega
  · apply forall_mem_set (fun pc hpc v hv => hold v (h.brought pc hpc v hv))
    intro v hv
    cases hv
    exact List.getElem?_concat_length
  · exact fun l hl v hv => hold v (h.stored l hl v hv)
  · apply forall_mem_set (fun pc hpc v hv => hold v (h.taken pc hpc v hv))
    intro v hv
    cases hv
  · exact fun v hv => hold v (h.given v hv)

/-- A put copies its value into an item in which nothing is live. -/
theorem Values.copyIn (h : Values threads live returned puts)
    (ht : threads[t]? = some (.putCopy pos v)) (hl : live[pos]? = some none) :
    Values (threads.set t (.putStore pos)) (live.set pos (some v)) returned puts := by
  refine ⟨?_, ?_, ?_, ?_, h.given⟩
  · intro n
    have e1 : total (Pc.bringing n) (threads.set t (.putStore pos)) + ofPut n v =
        total (Pc.bringing n) threads + 0 := total_set _ ht _
    have e2 : total (Pc.taking n) (threads.set t (.putStore pos)) + 0 =
        total (Pc.taking n) threads + 0 := total_set _ ht _
    have e3 : total (liveAs n) (live.set pos (some v)) + 0 = total (liveAs n) live + ofPut n v :=
      total_set _ hl _
    rw [← h.once n]
    omega
  · apply forall_mem_set h.brought
    intro v hv
    cases hv
  · intro l hl' x hx
    rcases List.mem_or_eq_of_mem_set hl' with hl' | rfl
    · exact h.stored l hl' x hx
    · cases hx
      exact h.brought _ (List.mem_of_getElem? ht) v rfl
  · apply forall_mem_set h.taken
    intro v hv
    cases hv

/-- A get copies out the value that is live in its item. -/
theorem Values.copyOut (h : Values threads live returned puts)
    (ht : threads[t]? = some (.getCopy pos)) (hl : live[pos]? = some (some v)) :
    Values (threads.set t (.getStore pos v)) (live.set pos none) returned puts := by
  refine ⟨?_, ?_, ?_, ?_, h.given⟩
  · intro n
    have e1 : total (Pc.bringing n) (threads.set t (.getStore pos v)) + 0 =
        total (Pc.bringing n) threads + 0 := total_set _ ht _
    have e2 : total (Pc.taking n) (threads.set t (.getStore pos v)) + 0 =
        total (Pc.taking n) threads + ofPut n v := total_set _ ht _
    have e3 : total (liveAs n) (live.set pos none) + ofPut n v = total (liveAs n) live + 0 :=
      total_set _ hl _
    rw [← h.once n]
    omega
  · apply forall_mem_set h.brought
    intro v hv
    cases hv
  · intro l hl' x hx
    rcases List.mem_or_eq_of_mem_set hl' with hl' | rfl
    · exact h.stored l hl' x hx
    · cases hx
  · apply forall_mem_set h.taken
    intro x hx
    cases hx
    exact h.stored _ (List.mem_of_getElem? hl) v rfl

theorem Values.giveBack (h : Values threads live returned puts)
    (ht : threads[t]? = some (.getLen v)) :
    Values (threads.set t .idle) live (returned ++ [v]) puts := by
  refine ⟨?_, ?_, h.stored, ?_, ?_⟩
  · intro n
    have e1 : total (Pc.bringing n) (threads.set t .idle) + 0 =
        total (Pc.bringing n) threads + 0 := total_set _ ht _
    have e2 : total (Pc.taking n) (threads.set t .idle) + ofPut n v =
        total (Pc.taking n) threads + 0 := total_set _ ht _
    rw [← h.once n, total_append, total_cons, total_nil]
    omega
  · apply forall_mem_set h.brought
    intro v hv
    cases hv
  · apply forall_mem_set h.taken
    intro v hv
    cases hv
  · intro x hx
    rcases List.mem_append.mp hx with hx | hx
    · exact h.given x hx
    · rw [List.mem_singleton.mp hx]
      exact h.taken _ (List.mem_of_getElem? ht) v rfl

end Values

/-! ### The invariant -/

structure Inv (bsize : ℕ) (w : World α) : Prop where
  mask : w.q.mask = 2 ^ bsize - 1
  block : w.q.block.length = 2 ^ bsize
  live : w.live.length = 2 ^ bsize
  slots : SlotsOk w.threads w.q.block w.live
  values : Values w.threads w.live w.returned w.puts
  counted : total Pc.putting w.threads + total occupied w.q.block +
    total Pc.subtracting w.threads + w.returned.length = w.puts.length

/-- The first `compare_and_swap` of a put finds its item free. -/
def spinsFree (w : World α) : Act α → Bool
  | .step t =>
    match w.threads[t]? with
    | some (.putSpin pos _ false) => (w.q.block[pos]?).all (·.state == 0)
    | _ => true
  | _ => true

theorem spinsFree_state {w : World α} {t pos : ℕ} {v : Tagged α}
    {item : SizedRingQueueItem (Tagged α)} (h : spinsFree w (.step t) = true)
    (ht : w.threads[t]? = some (.putSpin pos v false)) (hitem : w.q.block[pos]? = some item) :
    item.state = 0 := by
  simpa [spinsFree, ht, hitem] using h

section Inv

variable {bsize t pos : ℕ} {w : World α} {pc pc' : Pc α} {item item' : SizedRingQueueItem (Tagged α)}

/-- The value that is live in an item of the block. -/
theorem Inv.exists_live (h : Inv bsize w) (hitem : w.q.block[pos]? = some item) :
    ∃ l ph, w.live[pos]? = some l ∧ SlotOk w.threads pos item l ph := by
  have hlt : pos < w.live.length := by
    rw [h.live, ← h.block]
    exact (List.getElem?_eq_some_iff.mp hitem).1
  obtain ⟨ph, hslot⟩ := h.slots pos item _ hitem (List.getElem?_eq_getElem hlt)
  exact ⟨_, ph, List.getElem?_eq_getElem hlt, hslot⟩

/-- A step that touches no item and moves no value. -/
theorem Inv.move (h : Inv bsize w) (ht : w.threads[t]? = some pc) {q : SizedRingQueue (Tagged α)}
    (hblock : q.block = w.q.block) (hmask : q.mask = w.q.mask) (hsame : ∀ p, pc.SameAt pc' p)
    (hbrings : pc'.brings = pc.brings) (htakes : pc'.takes = pc.takes)
    (hputting : pc'.putting = pc.putting) (hsub : pc'.subtracting = pc.subtracting) :
    Inv bsize ((w.setQ q).setPc t pc') := by
  have e1 := total_set Pc.putting ht pc'
  have e2 := total_set Pc.subtracting ht pc'
  have hcounted := h.counted
  constructor
  · exact hmask.trans h.mask
  · show q.block.length = 2 ^ bsize
    rw [hblock, h.block]
  · exact h.live
  · show SlotsOk (w.threads.set t pc') q.block w.live
    rw [hblock]
    exact h.slots.move ht hsame
  · exact h.values.move ht hbrings htakes
  · show total Pc.putting (w.threads.set t pc') + total occupied q.block +
      total Pc.subtracting (w.threads.set t pc') + w.returned.length = w.puts.length
    rw [hblock]
    omega

/-- A step that changes the state word of one item. -/
theorem Inv.setState (h : Inv bsize w) (ht : w.threads[t]? = some pc)
    (hitem : w.q.block[pos]? = some item) {l : Option (Tagged α)} {ph : Phase}
    (hl : w.live[pos]? = some l) (hslot : SlotOk (w.threads.set t pc') pos item' l ph)
    (hsame : ∀ p, p ≠ pos → pc.SameAt pc' p) (hbrings : pc'.brings = pc.brings)
    (htakes : pc'.takes = pc.takes)
    (hcount : pc'.putting + occupied item' + pc'.subtracting =
      pc.putting + occupied item + pc.subtracting) :
    Inv bsize ((w.setItem pos item').setPc t pc') := by
  have e1 := total_set Pc.putting ht pc'
  have e2 := total_set Pc.subtracting ht pc'
  have e3 := total_set occupied hitem item'
  have hcounted := h.counted
  have hslots := h.slots.set ht hsame hslot
  obtain ⟨hlt, hget⟩ := List.getElem?_eq_some_iff.mp hl
  rw [← hget, List.set_getElem_self hlt] at hslots
  constructor
  · exact h.mask
  · show (w.q.block.set pos item').length = 2 ^ bsize
    rw [List.length_set, h.block]
  · exact h.live
  · exact hslots
  · exact h.values.move ht hbrings htakes
  · show total Pc.putting (w.threads.set t pc') + total occupied (w.q.block.set pos item') +
      total Pc.subtracting (w.threads.set t pc') + w.returned.length = w.puts.length
    omega

end Inv

/-- **The invariant is kept** by every step, as long as a put finds its item free. -/
theorem inv_step {bsize : ℕ} {w w' : World α} {a : Act α} (h : Inv bsize w)
    (hfree : spinsFree w a = true) (hstep : w.step a = some w') : Inv bsize w' := by
  have hcounted := h.counted
  cases World.step_trans hstep with
  | @startPut t v ht =>
    have e1 := total_set Pc.putting ht (.putTx ⟨w.puts.length, v⟩)
    have e2 := total_set Pc.subtracting ht (.putTx ⟨w.puts.length, v⟩)
    simp only [Pc.putting, Pc.subtracting] at e1 e2
    refine ⟨h.mask, h.block, h.live, ?_, h.values.start ht v, ?_⟩
    · exact h.slots.move ht (fun p => ⟨rfl, rfl, rfl, rfl⟩)
    · show total Pc.putting (w.threads.set t _) + total occupied w.q.block +
        total Pc.subtracting (w.threads.set t _) + w.returned.length = (w.puts ++ [v]).length
      rw [List.length_append, List.length_singleton]
      omega
  | startGet ht => exact h.move (q := w.q) ht rfl rfl (fun p => ⟨rfl, rfl, rfl, rfl⟩) rfl rfl rfl rfl
  | putTx ht => exact h.move ht rfl rfl (fun p => ⟨rfl, rfl, rfl, rfl⟩) rfl rfl rfl rfl
  | @claim t pos v claimed item ht hitem hstate =>
    obtain ⟨l, ph, hl, hslot⟩ := h.exists_live hitem
    obtain rfl := hslot.eq_free hstate
    cases claimed with
    | true => cases hslot.eq_claimed ht (by simp [Pc.claiming])
    | false =>
      have hnext : SlotOk (w.threads.set t (.putSpin pos v true)) pos { item with state := 1 } l
          .claimed := by
        refine hslot.change ht ?_ rfl rfl rfl rfl hslot.isLive hslot.value
        simp [Phase.claiming, Pc.claiming]
      refine h.setState ht hitem hl hnext (fun p hp => Pc.sameAt_of_ne hp (.inl rfl) (.inl rfl)) rfl rfl ?_
      simp [occupied, hstate, Pc.putting, Pc.subtracting]
  | @leave t pos v claimed item ht hitem hstate =>
    cases claimed with
    | false => exact absurd (spinsFree_state hfree ht hitem) hstate
    | true => exact h.move (q := w.q) ht rfl rfl (fun p => ⟨rfl, rfl, rfl, rfl⟩) rfl rfl rfl rfl
  | @putCopy t pos v item ht hitem =>
    obtain ⟨l, ph, hl, hslot⟩ := h.exists_live hitem
    obtain rfl := hslot.eq_claimed ht (by simp [Pc.claiming])
    have hnone : l = none := Option.not_isSome_iff_eq_none.mp (by simp [hslot.isLive, Phase.live])
    have hnext : SlotOk (w.threads.set t (.putStore pos)) pos { item with value := some v } (some v)
        .filled := by
      refine hslot.change ht ?_ ?_ rfl rfl hslot.state rfl (fun x hx => hx)
      · simp [Phase.claiming, Pc.claiming]
      · simp [Phase.storing, Pc.storing]
    have e1 := total_set Pc.putting ht (.putStore pos)
    have e2 := total_set Pc.subtracting ht (.putStore pos)
    have e3 := total_set occupied hitem { item with value := some v }
    simp only [Pc.putting, Pc.subtracting] at e1 e2
    have hsame : occupied { item with value := some v } = occupied item := rfl
    refine ⟨h.mask, ?_, ?_, ?_, h.values.copyIn ht (hnone ▸ hl), ?_⟩
    · exact List.length_set.trans h.block
    · exact List.length_set.trans h.live
    · exact h.slots.set ht (fun p hp => Pc.sameAt_of_ne hp (.inl rfl) (.inl rfl)) hnext
    · show total Pc.putting (w.threads.set t _) + total occupied (w.q.block.set pos _) +
        total Pc.subtracting (w.threads.set t _) + w.returned.length = w.puts.length
      omega
  | @putStore t pos item ht hitem =>
    obtain ⟨l, ph, hl, hslot⟩ := h.exists_live hitem
    obtain rfl := hslot.eq_filled ht (by simp [Pc.storing])
    have hnext : SlotOk (w.threads.set t .putLen) pos { item with state := 2 } l .written := by
      refine hslot.change ht rfl ?_ rfl rfl rfl hslot.isLive hslot.value
      simp [Phase.storing, Pc.storing]
    have hstate : item.state = 1 := hslot.state
    refine h.setState ht hitem hl hnext
      (fun p hp => Pc.sameAt_of_ne hp (.inl rfl) (.inr rfl)) rfl rfl ?_
    simp [occupied, hstate, Pc.putting, Pc.subtracting]
  | putLen ht => exact h.move ht rfl rfl (fun p => ⟨rfl, rfl, rfl, rfl⟩) rfl rfl rfl rfl
  | getRx ht => exact h.move ht rfl rfl (fun p => ⟨rfl, rfl, rfl, rfl⟩) rfl rfl rfl rfl
  | @take t block pos item ht hitem hstate =>
    obtain ⟨l, ph, hl, hslot⟩ := h.exists_live hitem
    obtain rfl := hslot.eq_written hstate
    have hnext : SlotOk (w.threads.set t (.getCopy pos)) pos { item with state := 3 } l
        .reading := by
      refine hslot.change ht rfl rfl ?_ rfl rfl hslot.isLive hslot.value
      simp [Phase.copying, Pc.copying]
    refine h.setState ht hitem hl hnext (fun p hp => Pc.sameAt_of_ne hp (.inl rfl) (.inl rfl)) rfl rfl ?_
    simp [occupied, hstate, Pc.putting, Pc.subtracting]
  | @miss t block pos item ht hitem hstate =>
    cases block with
    | true => exact h.move (q := w.q) ht rfl rfl (fun p => ⟨rfl, rfl, rfl, rfl⟩) rfl rfl rfl rfl
    | false => exact h.move (q := w.q) ht rfl rfl (fun p => ⟨rfl, rfl, rfl, rfl⟩) rfl rfl rfl rfl
  | getBack ht => exact h.move ht rfl rfl (fun p => ⟨rfl, rfl, rfl, rfl⟩) rfl rfl rfl rfl
  | @getCopy t pos item v ht hitem hv =>
    obtain ⟨l, ph, hl, hslot⟩ := h.exists_live hitem
    obtain rfl := hslot.eq_reading ht (by simp [Pc.copying])
    -- what is copied out of the item is the value that is live in it
    obtain ⟨x, rfl⟩ := Option.isSome_iff_exists.mp (show l.isSome = true from hslot.isLive)
    obtain rfl : v = x := Option.some.inj (hv.symm.trans (hslot.value x rfl))
    have hnext : SlotOk (w.threads.set t (.getStore pos v)) pos item none .emptied := by
      refine hslot.change ht rfl rfl ?_ ?_ hslot.state rfl (fun x hx => by cases hx)
      · simp [Phase.copying, Pc.copying]
      · simp [Phase.emptying, Pc.emptying]
    have e1 := total_set Pc.putting ht (.getStore pos v)
    have e2 := total_set Pc.subtracting ht (.getStore pos v)
    simp only [Pc.putting, Pc.subtracting] at e1 e2
    have hslots := h.slots.set ht (fun p hp => Pc.sameAt_of_ne hp (.inl rfl) (.inl rfl)) hnext
    obtain ⟨hlt, hget⟩ := List.getElem?_eq_some_iff.mp hitem
    rw [← hget, List.set_getElem_self hlt] at hslots
    refine ⟨h.mask, h.block, List.length_set.trans h.live, hslots, h.values.copyOut ht hl, ?_⟩
    show total Pc.putting (w.threads.set t _) + total occupied w.q.block +
      total Pc.subtracting (w.threads.set t _) + w.returned.length = w.puts.length
    omega
  | @getStore t pos v item ht hitem =>
    obtain ⟨l, ph, hl, hslot⟩ := h.exists_live hitem
    obtain rfl := hslot.eq_emptied ht (by simp [Pc.emptying])
    have hnext : SlotOk (w.threads.set t (.getLen v)) pos { item with state := 0 } l .free := by
      refine hslot.change ht rfl rfl rfl ?_ rfl hslot.isLive hslot.value
      simp [Phase.emptying, Pc.emptying]
    have hstate : item.state = 3 := hslot.state
    refine h.setState ht hitem hl hnext
      (fun p hp => Pc.sameAt_of_ne hp (.inl rfl) (.inr rfl)) rfl rfl ?_
    simp [occupied, hstate, Pc.putting, Pc.subtracting]
  | @getLen t v ht =>
    have e1 := total_set Pc.putting ht .idle
    have e2 := total_set Pc.subtracting ht .idle
    simp only [Pc.putting, Pc.subtracting] at e1 e2
    refine ⟨h.mask, h.block, h.live, ?_, h.values.giveBack ht, ?_⟩
    · exact h.slots.move ht (fun p => ⟨rfl, rfl, rfl, rfl⟩)
    · show total Pc.putting (w.threads.set t _) + total occupied w.q.block +
        total Pc.subtracting (w.threads.set t _) + (w.returned ++ [v]).length = w.puts.length
      rw [List.length_append, List.length_singleton]
      omega

theorem inv_init (α : Type*) (bsize n : ℕ) : Inv bsize (World.init α bsize n) := by
  have hidle : ∀ weight : Pc α → ℕ, weight .idle = 0 →
      total weight (List.replicate n .idle) = 0 := by
    intro weight hw
    apply total_eq_zero
    intro pc hpc
    rw [(List.mem_replicate.mp hpc).2, hw]
  have hpos := Nat.two_pow_pos bsize
  constructor
  · rfl
  · show (List.replicate (2 ^ bsize - 1 + 1) _).length = 2 ^ bsize
    rw [List.length_replicate]
    omega
  · exact List.length_replicate
  · intro pos item l hitem hl
    obtain ⟨-, rfl⟩ := List.mem_replicate.mp (List.mem_of_getElem? hitem)
    obtain ⟨-, rfl⟩ := List.mem_replicate.mp (List.mem_of_getElem? hl)
    exact ⟨.free, rfl, hidle _ rfl, hidle _ rfl, hidle _ rfl, hidle _ rfl, rfl,
      fun v hv => by cases hv⟩
  · constructor
    · intro k
      show total (Pc.bringing k) (List.replicate n .idle) +
        total (liveAs k) (List.replicate (2 ^ bsize) none) +
        total (Pc.taking k) (List.replicate n .idle) + 0 = 0
      rw [hidle _ rfl, hidle _ rfl, total_eq_zero]
      intro l hl
      rw [(List.mem_replicate.mp hl).2]
      rfl
    · intro pc hpc v hv
      rw [(List.mem_replicate.mp hpc).2] at hv
      cases hv
    · intro l hl v hv
      rw [(List.mem_replicate.mp hl).2] at hv
      cases hv
    · intro pc hpc v hv
      rw [(List.mem_replicate.mp hpc).2] at hv
      cases hv
    · intro v hv
      cases hv
  · show total Pc.putting (List.replicate n .idle) +
      total occupied (List.replicate (2 ^ bsize - 1 + 1) _) +
      total Pc.subtracting (List.replicate n .idle) + 0 = 0
    rw [hidle _ rfl, hidle _ rfl, total_eq_zero]
    intro item hitem
    rw [(List.mem_replicate.mp hitem).2]
    rfl

/-! ### The count -/

/-- The number of items that are written or being read. -/
def World.filled (w : World α) : ℕ := total occupied w.q.block

def World.adding (w : World α) : ℕ := total Pc.adding w.threads

def World.subtracting (w : World α) : ℕ := total Pc.subtracting w.threads

/-- What a step does to the filled items, to the calls that have yet to count theirs, and to
`len`. -/
inductive CountStep (w : World α) (a : Act α) (w' : World α) : Prop where
  | same (hf : w'.filled = w.filled) (ha : w'.adding = w.adding)
      (hs : w'.subtracting = w.subtracting) (hl : w'.q.len = w.q.len)
  | fill (hf : w'.filled = w.filled + 1) (ha : w'.adding = w.adding + 1)
      (hs : w'.subtracting = w.subtracting) (hl : w'.q.len = w.q.len)
  | add {t : ℕ} (hact : a = .step t) (ht : w.threads[t]? = some .putLen)
      (hf : w'.filled = w.filled) (ha : w'.adding + 1 = w.adding)
      (hs : w'.subtracting = w.subtracting) (hl : w'.q.len = w.q.len + 1)
  | empty (hf : w'.filled + 1 = w.filled) (ha : w'.adding = w.adding)
      (hs : w'.subtracting = w.subtracting + 1) (hl : w'.q.len = w.q.len)
  | sub {t : ℕ} {v : Tagged α} (hact : a = .step t) (ht : w.threads[t]? = some (.getLen v))
      (hf : w'.filled = w.filled) (ha : w'.adding = w.adding)
      (hs : w'.subtracting + 1 = w.subtracting) (hl : w'.q.len = w.q.len - 1)

/-- A step of a thread that is not at either of its last two operations. -/
theorem CountStep.of_same {w w' : World α} {a : Act α} {t : ℕ} {pc pc' : Pc α}
    (ht : w.threads[t]? = some pc) (hthreads : w'.threads = w.threads.set t pc')
    (hfilled : w'.filled = w.filled) (hlen : w'.q.len = w.q.len) (ha : pc'.adding = pc.adding)
    (hs : pc'.subtracting = pc.subtracting) : CountStep w a w' := by
  have e1 := total_set Pc.adding ht pc'
  have e2 := total_set Pc.subtracting ht pc'
  refine .same hfilled ?_ ?_ hlen
  · rw [World.adding, hthreads, World.adding]
    omega
  · rw [World.subtracting, hthreads, World.subtracting]
    omega

/-- Rewriting an item without filling or freeing it. -/
theorem filled_set {w : World α} {pos : ℕ} {item item' : SizedRingQueueItem (Tagged α)}
    (hitem : w.q.block[pos]? = some item) (h : occupied item' = occupied item) :
    total occupied (w.q.block.set pos item') = total occupied w.q.block := by
  have e := total_set occupied hitem item'
  omega

theorem countStep {bsize : ℕ} {w w' : World α} {a : Act α} (h : Inv bsize w)
    (hstep : w.step a = some w') : CountStep w a w' := by
  cases World.step_trans hstep with
  | startPut ht => exact .of_same ht rfl rfl rfl rfl rfl
  | startGet ht => exact .of_same ht rfl rfl rfl rfl rfl
  | putTx ht => exact .of_same ht rfl rfl rfl rfl rfl
  | @claim t pos v claimed item ht hitem hstate =>
    refine .of_same ht rfl (filled_set hitem ?_) rfl rfl rfl
    simp [occupied, hstate]
  | leave ht hitem hstate => exact .of_same ht rfl rfl rfl rfl rfl
  | putCopy ht hitem => exact .of_same ht rfl (filled_set hitem rfl) rfl rfl rfl
  | @putStore t pos item ht hitem =>
    obtain ⟨l, ph, hl, hslot⟩ := h.exists_live hitem
    obtain rfl := hslot.eq_filled ht (by simp [Pc.storing])
    have hstate : item.state = 1 := hslot.state
    have e1 := total_set Pc.adding ht .putLen
    have e2 := total_set Pc.subtracting ht .putLen
    have e3 := total_set occupied hitem { item with state := 2 }
    simp only [Pc.adding, Pc.subtracting, occupied, hstate] at e1 e2 e3
    exact .fill e3 e1 e2 rfl
  | putLen ht =>
    have e1 := total_set Pc.adding ht .idle
    have e2 := total_set Pc.subtracting ht .idle
    exact .add rfl ht rfl e1 e2 rfl
  | getRx ht => exact .of_same ht rfl rfl rfl rfl rfl
  | @take t block pos item ht hitem hstate =>
    refine .of_same ht rfl (filled_set hitem ?_) rfl rfl rfl
    simp [occupied, hstate]
  | @miss t block pos item ht hitem hstate =>
    cases block with
    | true => exact .of_same ht rfl rfl rfl rfl rfl
    | false => exact .of_same ht rfl rfl rfl rfl rfl
  | getBack ht => exact .of_same ht rfl rfl rfl rfl rfl
  | getCopy ht hitem hv => exact .of_same ht rfl rfl rfl rfl rfl
  | @getStore t pos v item ht hitem =>
    obtain ⟨l, ph, hl, hslot⟩ := h.exists_live hitem
    obtain rfl := hslot.eq_emptied ht (by simp [Pc.emptying])
    have hstate : item.state = 3 := hslot.state
    have e1 := total_set Pc.adding ht (.getLen v)
    have e2 := total_set Pc.subtracting ht (.getLen v)
    have e3 := total_set occupied hitem { item with state := 0 }
    simp only [Pc.adding, Pc.subtracting, occupied, hstate] at e1 e2 e3
    exact .empty e3 e1 e2 rfl
  | getLen ht =>
    have e1 := total_set Pc.adding ht .idle
    have e2 := total_set Pc.subtracting ht .idle
    exact .sub rfl ht rfl e1 e2 rfl

/-- A put adds to `len` while fewer freed items are still counted than there are items free or not
yet counted, and a get subtracts while fewer filled items are not yet counted than are counted. -/
def countsInTurn (w : World α) : Act α → Bool
  | .step t =>
    match w.threads[t]? with
    | some .putLen => w.filled + w.subtracting < w.adding + w.q.block.length
    | some (.getLen _) => w.adding < w.filled + w.subtracting
    | _ => true
  | _ => true

/-- `len` is the number of filled items, less those not yet counted, and more those that are
free again and still counted. -/
structure LenOk (bsize : ℕ) (w : World α) : Prop where
  low : w.adding ≤ w.filled + w.subtracting
  high : w.filled + w.subtracting ≤ w.adding + 2 ^ bsize
  len : w.q.len = UInt64.ofNat (w.filled + w.subtracting - w.adding)

theorem lenOk_step {bsize : ℕ} {w w' : World α} {a : Act α} (hinv : Inv bsize w)
    (h : LenOk bsize w) (hturn : countsInTurn w a = true) (hstep : w.step a = some w') :
    LenOk bsize w' := by
  have hlow := h.low
  have hhigh := h.high
  cases countStep hinv hstep with
  | same hf ha hs hl =>
    refine ⟨by omega, by omega, ?_⟩
    rw [hl, h.len, hf, ha, hs]
  | fill hf ha hs hl =>
    refine ⟨by omega, by omega, ?_⟩
    rw [hl, h.len]
    congr 1
    omega
  | @add t hact ht hf ha hs hl =>
    rw [hact] at hturn
    simp only [countsInTurn, ht, decide_eq_true_eq, hinv.block] at hturn
    refine ⟨by omega, by omega, ?_⟩
    rw [hl, h.len, show w'.filled + w'.subtracting - w'.adding =
      (w.filled + w.subtracting - w.adding) + 1 by omega, UInt64.ofNat_add]
    rfl
  | empty hf ha hs hl =>
    refine ⟨by omega, by omega, ?_⟩
    rw [hl, h.len]
    congr 1
    omega
  | @sub t v hact ht hf ha hs hl =>
    rw [hact] at hturn
    simp only [countsInTurn, ht, decide_eq_true_eq] at hturn
    refine ⟨by omega, by omega, ?_⟩
    rw [hl, h.len, show w.filled + w.subtracting - w.adding =
      (w'.filled + w'.subtracting - w'.adding) + 1 by omega, UInt64.ofNat_add]
    exact UInt64.add_sub_cancel _ _

theorem lenOk_init (α : Type*) (bsize n : ℕ) : LenOk bsize (World.init α bsize n) := by
  have hinv := inv_init α bsize n
  have hcounted : (World.init α bsize n).filled + (World.init α bsize n).subtracting = 0 := by
    have := hinv.counted
    simp only [World.init, List.length_nil] at this
    show total occupied (World.init α bsize n).q.block +
      total Pc.subtracting (World.init α bsize n).threads = 0
    simp only [World.init]
    omega
  have hadding : (World.init α bsize n).adding = 0 := by
    apply total_eq_zero
    intro pc hpc
    rw [(List.mem_replicate.mp hpc).2]
    rfl
  have hpos := Nat.two_pow_pos bsize
  refine ⟨by omega, by omega, ?_⟩
  rw [hcounted, hadding]
  rfl

/-! ### Nothing is lost -/

/-- The thread holds item `pos`: it is past the claim and has not released the item. -/
def Pc.Holds (pos : ℕ) (pc : Pc α) : Prop :=
  0 < pc.claiming pos + pc.storing pos + pc.copying pos + pc.emptying pos

/-- A put with its value still in hand, an item, a get with the value in hand, or a caller. -/
inductive World.Located (w : World α) (v : Tagged α) : Prop where
  | inPut {pc : Pc α} (hpc : pc ∈ w.threads) (hv : pc.brings = some v)
  | inRing {pos : ℕ} {item : SizedRingQueueItem (Tagged α)} (hitem : w.q.block[pos]? = some item)
      (hstate : item.state ≠ 0) (hv : item.value = some v)
      (hlive : w.live[pos]? = some (some v))
  | inGet {pc : Pc α} (hpc : pc ∈ w.threads) (hv : pc.takes = some v)
  | returned (hv : v ∈ w.returned)

/-- A put about to store holds its item alone, in state 1; every value put is with its put, in the
ring, or taken by a get; and neither the values stored and not taken nor `len` exceed the number of
items. -/
structure Safe (bsize : ℕ) (w : World α) : Prop where
  alone : ∀ (t pos : ℕ) (v : Tagged α) (item : SizedRingQueueItem (Tagged α)),
    w.threads[t]? = some (Pc.putCopy pos v) → w.q.block[pos]? = some item →
      item.state = 1 ∧
      ∀ (t' : ℕ) (pc : Pc α), t' ≠ t → w.threads[t']? = some pc → ¬ pc.Holds pos
  kept : ∀ (n : ℕ) (x : α), w.puts[n]? = some x → w.Located ⟨n, x⟩
  stored : w.puts.length ≤
    total Pc.putting w.threads + 2 ^ bsize + total Pc.subtracting w.threads + w.returned.length
  len : w.q.len.toNat ≤ 2 ^ bsize

theorem filled_le (w : World α) : w.filled ≤ w.q.block.length := by
  have h : total occupied w.q.block ≤ total (fun _ => 1) w.q.block := by
    apply total_mono
    intro item _
    rw [occupied]
    split <;> omega
  simpa [total, World.filled] using h

theorem Inv.alone {bsize : ℕ} {w : World α} (h : Inv bsize w) {t pos : ℕ} {v : Tagged α}
    {item : SizedRingQueueItem (Tagged α)} (ht : w.threads[t]? = some (.putCopy pos v))
    (hitem : w.q.block[pos]? = some item) : item.state = 1 ∧
      ∀ (t' : ℕ) (pc : Pc α), t' ≠ t → w.threads[t']? = some pc → ¬ pc.Holds pos := by
  obtain ⟨l, ph, hl, hslot⟩ := h.exists_live hitem
  obtain rfl := hslot.eq_claimed ht (by simp [Pc.claiming])
  refine ⟨hslot.state, ?_⟩
  intro t' pc hne ht' hholds
  -- the phase leaves room for no other holder
  have h1 := add_le_total (Pc.claiming pos) (Ne.symm hne) ht ht'
  have h2 := le_total (Pc.storing pos) (List.mem_of_getElem? ht')
  have h3 := le_total (Pc.copying pos) (List.mem_of_getElem? ht')
  have h4 := le_total (Pc.emptying pos) (List.mem_of_getElem? ht')
  have hclaiming : Pc.claiming pos (.putCopy pos v) = 1 := by simp [Pc.claiming]
  have e1 : total (Pc.claiming pos) w.threads = 1 := hslot.claiming
  have e2 : total (Pc.storing pos) w.threads = 0 := hslot.storing
  have e3 : total (Pc.copying pos) w.threads = 0 := hslot.copying
  have e4 : total (Pc.emptying pos) w.threads = 0 := hslot.emptying
  unfold Pc.Holds at hholds
  omega

/-- A weight above zero names the put whose value it is. -/
theorem eq_of_ofPut_pos {puts : List α} {n : ℕ} {x : α} {o : Option (Tagged α)}
    (hx : puts[n]? = some x) (hpos : 0 < o.elim 0 (ofPut n))
    (hgenuine : ∀ v, o = some v → puts[v.origin]? = some v.value) : o = some ⟨n, x⟩ := by
  cases o with
  | none => cases hpos
  | some v =>
    have hn : v.origin = n := by
      by_contra hne
      rw [Option.elim_some, ofPut, if_neg hne] at hpos
      cases hpos
    have hv := hgenuine v rfl
    rw [hn, hx] at hv
    obtain ⟨origin, value⟩ := v
    rw [Option.some.inj hv, ← hn]

theorem Inv.located {bsize : ℕ} {w : World α} (h : Inv bsize w) {n : ℕ} {x : α}
    (hx : w.puts[n]? = some x) : w.Located ⟨n, x⟩ := by
  have hval := h.values
  have honce := hval.once n
  rw [if_pos (List.getElem?_eq_some_iff.mp hx).1] at honce
  by_cases h1 : 0 < total (Pc.bringing n) w.threads
  · obtain ⟨pc, hpc, hpos⟩ := exists_of_total_pos h1
    exact .inPut hpc (eq_of_ofPut_pos hx hpos (hval.brought pc hpc))
  by_cases h2 : 0 < total (liveAs n) w.live
  · obtain ⟨l, hl, hpos⟩ := exists_of_total_pos h2
    obtain rfl := eq_of_ofPut_pos hx hpos (hval.stored l hl)
    obtain ⟨pos, hpos⟩ := List.mem_iff_getElem?.mp hl
    have hlt : pos < w.q.block.length := by
      rw [h.block, ← h.live]
      exact (List.getElem?_eq_some_iff.mp hpos).1
    have hitem := List.getElem?_eq_getElem hlt
    obtain ⟨ph, hslot⟩ := h.slots pos _ _ hitem hpos
    refine .inRing hitem ?_ (hslot.value _ rfl) hpos
    have hlive : ph.live = true := hslot.isLive.symm
    rw [hslot.state]
    revert hlive
    cases ph <;> decide
  by_cases h3 : 0 < total (Pc.taking n) w.threads
  · obtain ⟨pc, hpc, hpos⟩ := exists_of_total_pos h3
    exact .inGet hpc (eq_of_ofPut_pos hx hpos (hval.taken pc hpc))
  · obtain ⟨v, hv, hpos⟩ := exists_of_total_pos (show 0 < total (ofPut n) w.returned by omega)
    have heq := eq_of_ofPut_pos (o := some v) hx hpos (fun y hy => by
      cases hy
      exact hval.given v hv)
    exact .returned (Option.some.inj heq ▸ hv)

theorem safe_of_inv {bsize : ℕ} {w : World α} (h : Inv bsize w) (hlen : LenOk bsize w) :
    Safe bsize w := by
  have hfilled := filled_le w
  have hcounted := h.counted
  have hblock := h.block
  have hhigh := hlen.high
  refine ⟨fun t pos v item ht hitem => h.alone ht hitem, fun n x hx => h.located hx, ?_, ?_⟩
  · rw [World.filled] at hfilled
    omega
  · rw [hlen.len, UInt64.toNat_ofNat']
    exact Nat.le_trans (Nat.mod_le _ _) (by omega)

/-- A step of a put finds its item free, and `len` is added to and subtracted from in turn. -/
def orderly (w : World α) (a : Act α) : Bool := spinsFree w a && countsInTurn w a

/-- **Nothing is lost.**  For every `bsize`, any number of threads and every run whose steps are
all orderly: no put stores into an item that is not its own, every value put is in the ring or has
been taken, and neither the stored values nor `len` exceed `2 ^ bsize`. -/
theorem World.never_loses (bsize n : ℕ) {acts : List (Act α)} {w : World α}
    (horderly : StepsMeet step (fun w a => orderly w a = true) (init α bsize n) acts)
    (hrun : run step (init α bsize n) acts = some w) : Safe bsize w := by
  have hstep : ∀ (s : World α) (a : Act α) (s' : World α), (Inv bsize s ∧ LenOk bsize s) →
      orderly s a = true → s.step a = some s' → Inv bsize s' ∧ LenOk bsize s' := by
    intro s a s' h hok hstep
    obtain ⟨hfree, hturn⟩ := Bool.and_eq_true_iff.mp hok
    exact ⟨inv_step h.1 hfree hstep, lenOk_step h.1 h.2 hturn hstep⟩
  obtain ⟨hinv, hlen⟩ :=
    run_invariant_of hstep horderly hrun ⟨inv_init α bsize n, lenOk_init α bsize n⟩
  exact safe_of_inv hinv hlen

/-- Two producers and two consumers around a ring of two items. -/
def fullTurnRun : List (Act ℕ) :=
  [.put 0 7, .put 1 8, .step 0, .step 1, .step 1, .step 0, .step 0, .step 1, .step 0, .step 1,
    .step 0, .step 1, .step 1, .step 0, .maybeget 2 true, .maybeget 3 false, .step 3, .step 2,
    .step 3, .step 2, .step 2, .step 3, .step 2, .step 3, .step 2, .step 3, .put 0 9, .step 0,
    .step 0, .step 0, .step 0]

theorem never_loses_fullTurnRun :
    StepsMeet World.step (fun w a => orderly w a = true) (World.init ℕ 1 4) fullTurnRun ∧
    ∃ w, run World.step (World.init ℕ 1 4) fullTurnRun = some w ∧ w.puts = [7, 8, 9] ∧
      w.returned = [⟨1, 8⟩, ⟨0, 7⟩] ∧ Safe 1 w := by
  have horderly : StepsMeet World.step (fun w a => orderly w a = true) (World.init ℕ 1 4)
      fullTurnRun := by decide +kernel
  obtain ⟨w, hrun, hobs⟩ := Option.map_eq_some_iff.mp
    (show (run World.step (World.init ℕ 1 4) fullTurnRun).map (fun w => (w.puts, w.returned)) =
      some ([7, 8, 9], [⟨1, 8⟩, ⟨0, 7⟩]) by decide +kernel)
  rw [Prod.mk.injEq] at hobs
  exact ⟨horderly, w, hrun, hobs.1, hobs.2, World.never_loses 1 4 horderly hrun⟩

/-- A second put on a full ring of one item. -/
def overwriteRun : List (Act ℕ) :=
  [.put 0 7, .step 0, .step 0, .step 0, .step 0, .step 0, .step 0,
    .put 0 8, .step 0, .step 0, .step 0, .step 0, .step 0]

theorem not_never_loses : ¬ ∀ (bsize n : ℕ) (acts : List (Act ℕ)) (w : World ℕ),
    run World.step (World.init ℕ bsize n) acts = some w → Safe bsize w := by
  intro hall
  obtain ⟨w, hrun, hobs⟩ : ∃ w, run World.step (World.init ℕ 0 1) overwriteRun = some w ∧
      (w.threads, w.puts, w.returned, w.live) = ([.idle], [7, 8], [], [some ⟨1, 8⟩]) :=
    ⟨_, rfl, rfl⟩
  simp only [Prod.mk.injEq] at hobs
  obtain ⟨hthreads, hputs, hreturned, hlive⟩ := hobs
  -- the first value is nowhere
  have hlost : w.Located ⟨0, 7⟩ :=
    (hall 0 1 overwriteRun w hrun).kept 0 7 (by rw [hputs]; rfl)
  cases hlost with
  | inPut hpc hv =>
    rw [hthreads, List.mem_singleton] at hpc
    rw [hpc] at hv
    cases hv
  | @inRing pos item hitem hstate hv hl =>
    rw [hlive] at hl
    have := List.mem_of_getElem? hl
    simp at this
  | inGet hpc hv =>
    rw [hthreads, List.mem_singleton] at hpc
    rw [hpc] at hv
    cases hv
  | returned hv =>
    rw [hreturned] at hv
    cases hv

end WaterNet.Queue.Ring
