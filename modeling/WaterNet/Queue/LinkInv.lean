import WaterNet.Queue.LinkLedger
import WaterNet.Queue.LinkRelease

/-!
# What holds while no release finds a get behind it (`queue.rs`)

`taildealloc` recycles the items before `cur` whether another get is still at one of them or not:
the guard `rinside == 1` that would keep it from this is commented out.  This module is about the
runs in which no get is there when a release begins.

* `releasesAlone` — that condition on a step;
* `Inv` — the invariant, of the memory, the order of the items, the release in progress and the
  values;
* `Inv.step` — **every step that meets the condition keeps it**.
-/

namespace WaterNet.Queue.Link

open Lib Lib.Pool
open World (Local Trans tailLoop afterLst)

variable {α : Type*}

/-! ### The invariant -/

structure Inv (w : World α) (g : Ghost α) : Prop where
  memory : Memory w.q.cells w.q.asked w.q.recycle w.threads g.nodes g.zombies
  stages : ∀ pc ∈ w.threads, Stage w.q.cells pc
  order : Order w.q.cells w.q.ptr w.q.lst w.threads g
  releases : Releases w.q.cells w.q.doingrel w.threads g
  ledger : Ledger w.threads w.returned w.puts g.hist g.claimed

/-- A get that wins `doingrel` finds no get in progress at an item that it is about to recycle. -/
def releasesAlone (w : World α) : Act α → Bool
  | .step t =>
    match w.threads[t]? with
    | some (.casRel cur) => w.q.doingrel ||
        w.threads.all fun pc => pc.cur.all fun p => p ∉ behind w.q.cells w.puts.length cur
    | _ => true
  | _ => true

/-! ### Where the loops go on -/

section Loops

variable (cur p : Ptr)

@[simp] theorem owned_tailLoop : (tailLoop cur p : Pc α).owned = none := by
  unfold tailLoop
  split <;> rfl

@[simp] theorem joins_tailLoop : (tailLoop cur p : Pc α).joins = none := by
  unfold tailLoop
  split <;> rfl

@[simp] theorem cur_tailLoop : (tailLoop cur p : Pc α).cur = some cur := by
  unfold tailLoop
  split <;> rfl

@[simp] theorem releasing_tailLoop : (tailLoop cur p : Pc α).releasing = true := by
  unfold tailLoop
  split <;> rfl

@[simp] theorem tailing_tailLoop : (tailLoop cur p : Pc α).tailing = true := by
  unfold tailLoop
  split <;> rfl

@[simp] theorem brings_tailLoop : (tailLoop cur p : Pc α).brings = none := by
  unfold tailLoop
  split <;> rfl

@[simp] theorem takes_tailLoop : (tailLoop cur p : Pc α).takes = none := by
  unfold tailLoop
  split <;> rfl

theorem relOk_tailLoop {cells : Cells (Tagged α)} {zombies : List Ptr} (hne : ∀ q ∈ zombies, q ≠ 0) :
    RelOk cells zombies (tailLoop cur (zombies.headD 0)) := by
  cases zombies with
  | nil => exact rfl
  | cons q zombies =>
    rw [tailLoop, List.headD_cons, if_neg (hne q List.mem_cons_self)]
    exact rfl

variable (v : Option (Tagged α))

@[simp] theorem owned_afterLst : (afterLst cur p v).owned = none := by
  unfold afterLst
  split
  · split <;> rfl
  · rfl

@[simp] theorem joins_afterLst : (afterLst cur p v).joins = none := by
  unfold afterLst
  split
  · split <;> rfl
  · rfl

@[simp] theorem releasing_afterLst : (afterLst cur p v).releasing = false := by
  unfold afterLst
  split
  · split <;> rfl
  · rfl

@[simp] theorem brings_afterLst : (afterLst cur p v).brings = none := by
  unfold afterLst
  split
  · split <;> rfl
  · rfl

@[simp] theorem takes_afterLst : (afterLst cur p v).takes = v := by
  unfold afterLst
  split
  · split <;> rfl
  · rfl

end Loops

/-! ### Stores -/

section Stores

variable {cells : Cells (Tagged α)} {item : Ptr} {i i' : Item (Tagged α)}

theorem isSome_update (hi : cells item = some i) (i' : Item (Tagged α)) (p : Ptr) :
    (Function.update cells item (some i') p).isSome = (cells p).isSome := by
  by_cases heq : p = item
  · rw [heq, Function.update_self, hi]
    rfl
  · rw [Function.update_of_ne heq]

theorem next_update (hi : cells item = some i) (hnext : i'.next = i.next) (p : Ptr) :
    (Function.update cells item (some i') p).map Item.next = (cells p).map Item.next := by
  by_cases heq : p = item
  · rw [heq, Function.update_self, hi, Option.map_some, Option.map_some, hnext]
  · rw [Function.update_of_ne heq]

end Stores

/-! ### The steps that move only their thread -/

/-- Two program points of a thread that holds the same item and does as much for the list. -/
structure SameRole (pc pc' : Pc α) : Prop where
  owned : pc'.owned = pc.owned
  joins : pc.joins = none
  joins' : pc'.joins = none
  releasing : pc'.releasing = pc.releasing
  tailing : pc'.tailing = pc.tailing
  brings : pc'.brings = pc.brings

theorem SameRole.of_free {pc pc' : Pc α} (howned : pc.owned = none) (howned' : pc'.owned = none)
    (hjoins : pc.joins = none) (hjoins' : pc'.joins = none) (hrel : pc.releasing = false)
    (hrel' : pc'.releasing = false) (hbrings : pc.brings = none) (hbrings' : pc'.brings = none) :
    SameRole pc pc' :=
  ⟨howned'.trans howned.symm, hjoins, hjoins', hrel'.trans hrel.symm,
    (Pc.tailing_of_releasing_false hrel').trans (Pc.tailing_of_releasing_false hrel).symm,
    hbrings'.trans hbrings.symm⟩

theorem sameRole_local {q : InfiniteLinkQueue (Tagged α)} {pc pc' : Pc α} (hl : Local q pc pc') :
    SameRole pc pc' := by
  cases hl with
  | tailFirst hi =>
    exact ⟨owned_tailLoop _ _, rfl, joins_tailLoop _ _, releasing_tailLoop _ _, tailing_tailLoop _ _,
      brings_tailLoop _ _⟩
  | testAgain hi | next hi | dropLen =>
    split <;> exact ⟨rfl, rfl, rfl, rfl, rfl, rfl⟩
  | loadPrev hi =>
    split
    · exact ⟨rfl, rfl, rfl, rfl, rfl, rfl⟩
    · exact .of_free rfl (owned_afterLst _ _ _) rfl (joins_afterLst _ _ _) rfl
        (releasing_afterLst _ _ _) rfl (brings_afterLst _ _ _)
  | keepLst =>
    exact .of_free rfl (owned_afterLst _ _ _) rfl (joins_afterLst _ _ _) rfl
      (releasing_afterLst _ _ _) rfl (brings_afterLst _ _ _)
  | _ => exact ⟨rfl, rfl, rfl, rfl, rfl, rfl⟩

theorem Reached.succ {threads : List (Pc α)} {g : Ghost α} {p b : Ptr} {k : ℕ}
    (h : Reached threads g p k) (hlt : k < g.claimed) (hnode : g.node (k + 1) = some b)
    (hj : Joined threads b) : Reached threads g b (k + 1) := by
  refine ⟨Nat.le_succ_of_le h.base, hlt, hnode, fun j q hbase hle hq => ?_⟩
  rcases Nat.lt_or_ge k j with hkj | hjk
  · obtain rfl : j = k + 1 := by omega
    obtain rfl := Option.some.inj (hnode.symm.trans hq)
    exact hj
  · exact h.joined j q hbase hjk hq

namespace Inv

variable {w : World α} {g : Ghost α} {t : ℕ} {pc pc' : Pc α} {cur : Ptr} {i : Item (Tagged α)}

theorem held (h : Inv w g) (ht : w.threads[t]? = some pc) (hcur : pc.cur = some cur) :
    ∃ k, HeldAt w.threads g pc cur k := h.order.gets pc (List.mem_of_getElem? ht) cur hcur

/-- The item a get is at. -/
theorem item_at (h : Inv w g) {k : ℕ} (hk : Reached w.threads g cur k)
    (hi : w.q.cells cur = some i) : ItemOk w.threads g k cur i := by
  obtain ⟨i', hi', hok⟩ := h.order.item k cur hk.base hk.node
  obtain rfl : i' = i := Option.some.inj (hi'.symm.trans hi)
  exact hok

/-- Where `prev` leads. -/
theorem reached_prev (h : Inv w g) {k : ℕ} (hk : Reached w.threads g cur k) (hlt : k < g.claimed)
    (hi : w.q.cells cur = some i) (hne : i.prev ≠ 0) : Reached w.threads g i.prev (k + 1) := by
  obtain ⟨hnode, hj⟩ := (h.item_at hk hi).prev hne
  exact hk.succ hlt hnode hj

theorem getOk_afterLst {nlst : Ptr} {v : Option (Tagged α)} {k : ℕ}
    (hk : Reached w.threads g cur k) (hlt : k < g.claimed)
    (hv : ∀ x, v = some x → g.hist[k]? = some (cur, x))
    (hnlst : nlst ≠ 0 → Reached w.threads g nlst (k + 1)) :
    GetOk w.threads g (afterLst cur nlst v) := by
  cases v with
  | none =>
    by_cases h0 : nlst = 0
    · simp only [afterLst, h0, if_true]
      exact GetOk.of_cur_none rfl
    · simp only [afterLst, h0, if_false]
      rintro p ⟨⟩
      exact ⟨k + 1, hnlst h0, nofun, nofun, nofun, nofun, nofun⟩
  | some v =>
    rintro p ⟨⟩
    exact ⟨k, hk, nofun, fun _ => hlt, fun x hx => hv x hx, nofun, nofun⟩

/-- A thread stays in `taildealloc`. -/
theorem getOk_release {k : ℕ} (hk : HeldAt w.threads g pc cur k) (hrel : pc.releasing = true)
    (hrel' : pc'.releasing = true) (hcur : pc'.cur = some cur) : GetOk w.threads g pc' := by
  intro p hp
  obtain rfl := Option.some.inj (hcur.symm.trans hp)
  obtain ⟨-, hpast, hclaims, hnlst⟩ := Pc.of_releasing hrel'
  refine ⟨k, hk.reached, fun _ => hk.early (Pc.of_releasing hrel).1, fun h => ?_, fun v h => ?_,
    fun b h => ?_, fun _ => hk.releasing hrel⟩
  · rw [hpast] at h
    cases h
  · rw [hclaims] at h
    cases h
  · rw [hnlst] at h
    cases h

theorem getOk_local (h : Inv w g) (ht : w.threads[t]? = some pc) (hl : Local w.q pc pc') :
    GetOk w.threads g pc' := by
  cases hl with
  | popPos | bumpSent | bumpLen | enter | empty | bumpRel | leaveNone => exact GetOk.of_cur_none rfl
  | loadLst hne =>
    rintro p ⟨⟩
    exact ⟨g.tail, h.order.reach hne, fun _ => le_refl _, nofun, nofun, nofun, nofun⟩
  | marked | unmarked | busy =>
    rintro p ⟨⟩
    obtain ⟨k, hk⟩ := h.held ht rfl
    exact ⟨k, hk.reached, fun _ => hk.early rfl, nofun, nofun, nofun, nofun⟩
  | tailFirst hi =>
    obtain ⟨k, hk⟩ := h.held ht rfl
    exact getOk_release hk rfl (releasing_tailLoop _ _) (cur_tailLoop _ _)
  | pushPos =>
    obtain ⟨k, hk⟩ := h.held ht rfl
    exact getOk_release hk rfl rfl rfl
  | @testAgain cur i hi =>
    obtain ⟨k, hk⟩ := h.held ht rfl
    by_cases hrel : i.needrel = true
    · rw [if_pos hrel]
      rintro p ⟨⟩
      exact ⟨k, hk.reached, nofun, fun _ => (h.item_at hk.reached hi).needrel hrel, nofun, nofun,
        nofun⟩
    · rw [if_neg hrel]
      rintro p ⟨⟩
      exact ⟨k, hk.reached, nofun, nofun, nofun, nofun, nofun⟩
  | @loadPrev cur v i hi =>
    obtain ⟨k, hk⟩ := h.held ht rfl
    have hlt := hk.past rfl
    by_cases hne : i.prev = 0
    · rw [if_neg (not_not.mpr hne)]
      exact getOk_afterLst hk.reached hlt hk.claims fun h0 => absurd rfl h0
    · rw [if_pos hne]
      rintro p ⟨⟩
      refine ⟨k, hk.reached, nofun, fun _ => hlt, hk.claims, fun b hb => ?_, nofun⟩
      obtain rfl := Option.some.inj hb
      exact h.reached_prev hk.reached hlt hi hne
  | @keepLst cur nlst v =>
    obtain ⟨k, hk⟩ := h.held ht rfl
    exact getOk_afterLst hk.reached (hk.past rfl) hk.claims fun _ => hk.nlst nlst rfl
  | taken hi hclaimed =>
    rintro p ⟨⟩
    obtain ⟨k, hk⟩ := h.held ht rfl
    refine ⟨k, hk.reached, nofun, fun _ => ?_, nofun, nofun, nofun⟩
    have hdec := (h.item_at hk.reached hi).claimed
    rw [hclaimed] at hdec
    exact of_decide_eq_true hdec.symm
  | @dropLen cur first v =>
    obtain ⟨k, hk⟩ := h.held ht rfl
    cases first with
    | true =>
      rintro p ⟨⟩
      exact ⟨k, hk.reached, nofun, fun _ => hk.past rfl, hk.claims, nofun, nofun⟩
    | false =>
      rintro p ⟨⟩
      exact ⟨k, hk.reached, nofun, fun _ => hk.past rfl, hk.claims, nofun, nofun⟩
  | copy hi =>
    rintro p ⟨⟩
    obtain ⟨k, hk⟩ := h.held ht rfl
    exact ⟨k, hk.reached, nofun, fun _ => hk.past rfl, nofun, nofun, nofun⟩
  | @next cur i hi =>
    obtain ⟨k, hk⟩ := h.held ht rfl
    by_cases h0 : i.prev = 0
    · rw [if_pos h0]
      exact GetOk.of_cur_none rfl
    · rw [if_neg h0]
      rintro p ⟨⟩
      exact ⟨k + 1, h.reached_prev hk.reached (hk.past rfl) hi h0, nofun, nofun, nofun, nofun, nofun⟩

theorem relOk_local (h : Inv w g) (ht : w.threads[t]? = some pc) (hl : Local w.q pc pc') :
    RelOk w.q.cells g.zombies pc' := by
  have hold := h.releases.ok pc (List.mem_of_getElem? ht)
  have hrole := sameRole_local hl
  cases hl with
  | @tailFirst cur i hi =>
    have hnext : (w.q.cells cur).map Item.next = some (g.zombies.headD 0) := hold
    rw [hi] at hnext
    have hhead : i.next = g.zombies.headD 0 := Option.some.inj hnext
    rw [hhead]
    exact relOk_tailLoop cur fun q hq => h.memory.zombie_ne_zero hq
  | pushPos => exact hold
  | _ => exact RelOk.of_not_releasing (hrole.releasing.trans rfl)

theorem stage_local (h : Inv w g) (ht : w.threads[t]? = some pc) (hl : Local w.q pc pc') :
    Stage w.q.cells pc' := by
  have hold := h.stages pc (List.mem_of_getElem? ht)
  have hrole := sameRole_local hl
  cases hl with
  | bumpSent => exact hold
  | pushPos => trivial
  | _ => exact Stage.of_owned_none (hrole.owned.trans rfl)

/-- The value that a get copies is the one of the item it has claimed. -/
theorem takes_local (h : Inv w g) (ht : w.threads[t]? = some pc) (hl : Local w.q pc pc') :
    pc'.takes = pc.takes := by
  cases hl with
  | @copy cur v i hi =>
    obtain ⟨k, hk⟩ := h.held ht rfl
    have hpayload := (h.item_at hk.reached hi).payload
    rw [hk.claims v rfl] at hpayload
    cases hpayload
    rfl
  | tailFirst hi => exact takes_tailLoop _ _
  | testAgain hi | next hi | dropLen => split <;> rfl
  | loadPrev hi =>
    split
    · rfl
    · exact takes_afterLst _ _ _
  | keepLst => exact takes_afterLst _ _ _
  | _ => rfl

theorem stay (h : Inv w g) (ht : w.threads[t]? = some pc) (hl : Local w.q pc pc')
    (rinside len sent needrel pos : UInt64) :
    Inv ((w.setQ { w.q with
      rinside := rinside, len := len, sent := sent, needrel := needrel
      recycle := { w.q.recycle with pos := pos } }).setPc t pc') g := by
  have hrole := sameRole_local hl
  refine ⟨h.memory.keep ht hrole.owned rfl rfl fun p => rfl, ?_, ?_, ?_, ?_⟩
  · exact forall_mem_set h.stages (h.stage_local ht hl)
  · exact h.order.stay ht hrole.joins hrole.joins' (fun k p i _ _ hi hok => ⟨i, hi, hok⟩)
      (h.getOk_local ht hl)
  · exact h.releases.stay ht hrole.releasing hrole.tailing rfl (fun p _ => rfl) (fun c _ => rfl) id
      (h.relOk_local ht hl)
  · exact h.ledger.move ht hrole.brings (h.takes_local ht hl)

/-! ### The steps of a put before its item is linked -/

theorem mem_nodes (h : Inv w g) (hpc : pc ∈ w.threads) (hcur : pc.cur = some cur) :
    cur ∈ g.nodes := by
  obtain ⟨k, hk⟩ := h.order.gets pc hpc cur hcur
  exact Ghost.mem_nodes hk.reached.base hk.reached.node

section Outside

variable {cells' : Cells (Tagged α)}

/-- The list does not see what is stored elsewhere. -/
theorem order_outside (h : Inv w g) (ht : w.threads[t]? = some pc) (hjoins : pc.joins = none)
    (hjoins' : pc'.joins = none) (hcur' : pc'.cur = none)
    (hsame : ∀ p ∈ g.nodes, cells' p = w.q.cells p) :
    Order cells' w.q.ptr w.q.lst (w.threads.set t pc') g := by
  refine h.order.stay ht hjoins hjoins' (fun k p i hk hp hi hok => ⟨i, ?_, hok⟩)
    (GetOk.of_cur_none hcur')
  exact (hsame p (Ghost.mem_nodes hk hp)).trans hi

theorem releases_outside (h : Inv w g) (ht : w.threads[t]? = some pc) (hrel : pc.releasing = false)
    (hrel' : pc'.releasing = false) (hsame : ∀ p ∈ g.nodes, cells' p = w.q.cells p)
    (hzombies : ∀ p ∈ g.zombies, cells' p = w.q.cells p) :
    Releases cells' w.q.doingrel (w.threads.set t pc') g := by
  refine h.releases.stay ht (hrel'.trans hrel.symm) ?_ rfl (fun p hp => ?_) (fun c hc => ?_)
    (fun hzero p hp => ?_) (RelOk.of_not_releasing hrel')
  · rw [Pc.tailing_of_releasing_false hrel', Pc.tailing_of_releasing_false hrel]
  · rw [hzombies p hp]
  · rw [hsame c (h.mem_nodes hc rfl)]
  · rw [hsame p (Ghost.mem_nodes (le_refl _) hp)]
    exact hzero p hp

/-- A step outside that changes no `next`. -/
theorem releases_next (h : Inv w g) (ht : w.threads[t]? = some pc) (hrel : pc.releasing = false)
    (hrel' : pc'.releasing = false)
    (hnext : ∀ p, (cells' p).map Item.next = (w.q.cells p).map Item.next) :
    Releases cells' w.q.doingrel (w.threads.set t pc') g := by
  refine h.releases.stay ht (hrel'.trans hrel.symm) ?_ rfl (fun p _ => hnext p) (fun c _ => hnext c)
    (fun hzero p hp => (hnext p).trans (hzero p hp)) (RelOk.of_not_releasing hrel')
  rw [Pc.tailing_of_releasing_false hrel', Pc.tailing_of_releasing_false hrel]

end Outside

theorem startPut (h : Inv w g) (ht : w.threads[t]? = some .idle) (v : α) :
    Inv ({ w with puts := w.puts ++ [v] }.setPc t (.popPos ⟨w.puts.length, v⟩)) g :=
  ⟨h.memory.keep ht rfl rfl rfl fun _ => rfl, forall_mem_set h.stages trivial,
    h.order_outside ht rfl rfl rfl fun _ _ => rfl,
    h.releases_outside ht rfl rfl (fun _ _ => rfl) fun _ _ => rfl, h.ledger.start ht v⟩

theorem startGet (h : Inv w g) (ht : w.threads[t]? = some .idle) : Inv (w.setPc t .enter) g :=
  ⟨h.memory.keep ht rfl rfl rfl fun _ => rfl, forall_mem_set h.stages trivial,
    h.order_outside ht rfl rfl rfl fun _ _ => rfl,
    h.releases_outside ht rfl rfl (fun _ _ => rfl) fun _ _ => rfl, h.ledger.move ht rfl rfl⟩

theorem popSwap (h : Inv w g) {slot : ℕ} {v : Tagged α}
    (ht : w.threads[t]? = some (.popSwap slot v)) :
    Inv ((w.setRecycle (w.q.recycle.swap slot 0).2).setPc t
      (if (w.q.recycle.swap slot 0).1 ≠ 0 then .reset .claimed (w.q.recycle.swap slot 0).1 v
       else .boxNew v)) g := by
  have hmem : Memory w.q.cells w.q.asked (w.q.recycle.swap slot 0).2 (w.threads.set t
      (if (w.q.recycle.swap slot 0).1 ≠ 0 then .reset .claimed (w.q.recycle.swap slot 0).1 v
       else .boxNew v)) g.nodes g.zombies := h.memory.pop ht rfl (by split <;> rfl)
  refine ⟨hmem, forall_mem_set h.stages ?_, h.order_outside ht rfl ?_ ?_ fun _ _ => rfl,
    h.releases_outside ht rfl ?_ (fun _ _ => rfl) fun _ _ => rfl, h.ledger.move ht ?_ ?_⟩
  · split_ifs with hne
    · -- what was in the slot is allocated
      have hsome := hmem.owned_isSome (List.mem_set (List.getElem?_eq_some_iff.mp ht).1 _)
        (by rw [if_pos hne]; rfl)
      obtain ⟨i, hi⟩ := Option.isSome_iff_exists.mp hsome
      exact ⟨i, hi, trivial⟩
    · trivial
  all_goals split <;> rfl

theorem box (h : Inv w g) {item : Ptr} {v : Tagged α} (ht : w.threads[t]? = some (.boxNew v))
    (hne : item ≠ 0) (hfree : w.q.cells item = none) :
    Inv ((w.setQ { w.q with
      cells := Function.update w.q.cells item (some (Item.new v))
      asked := w.q.asked + 1 }).setPc t (.bumpSent item v)) g := by
  have hsame : ∀ p, (w.q.cells p).isSome = true →
      Function.update w.q.cells item (some (Item.new v)) p = w.q.cells p := by
    intro p hp
    refine Function.update_of_ne ?_ _ _
    rintro rfl
    rw [hfree] at hp
    cases hp
  have hnodes := fun p hp => hsame p (h.memory.node_isSome hp)
  refine ⟨h.memory.box ht rfl hne hfree rfl _, ?_, h.order_outside ht rfl rfl rfl hnodes,
    h.releases_outside ht rfl rfl hnodes fun p hp => hsame p (h.memory.zombie_isSome hp),
    h.ledger.move ht rfl rfl⟩
  refine stages_set h.stages (fun t' x p hne hx howned => ?_) (Function.update_self _ _ _)
  exact hsame p (h.memory.owned_isSome (List.mem_of_getElem? hx) howned)

/-- A store of a put into the item that it alone holds. -/
theorem reset (h : Inv w g) {f : Field} {item : Ptr} {v : Tagged α} {i : Item (Tagged α)}
    (ht : w.threads[t]? = some (.reset f item v)) (hi : w.q.cells item = some i) :
    Inv ((w.setCells (Function.update w.q.cells item (some (f.store v i)))).setPc t
      (match f.after with
        | some f => .reset f item v
        | none => .bumpSent item v)) g := by
  have hpc := List.mem_of_getElem? ht
  have hsame : ∀ p, p ≠ item →
      Function.update w.q.cells item (some (f.store v i)) p = w.q.cells p :=
    fun p hp => Function.update_of_ne hp _ _
  have hnodes : ∀ p ∈ g.nodes,
      Function.update w.q.cells item (some (f.store v i)) p = w.q.cells p := by
    refine fun p hp => hsame p ?_
    rintro rfl
    exact h.memory.node_not_owned hp hpc rfl
  refine ⟨h.memory.keep ht ?_ rfl rfl (isSome_update hi _), ?_, h.order_outside ht rfl ?_ ?_ hnodes,
    h.releases_outside ht rfl ?_ hnodes fun p hp => hsame p ?_, h.ledger.move ht ?_ ?_⟩
  · cases f <;> rfl
  · refine stages_set h.stages (fun t' x p hne hx howned => hsame p ?_) (Stage.store hi (h.stages _ hpc))
    rintro rfl
    exact h.memory.owned_apart ht hx hne.symm rfl howned
  · cases f <;> rfl
  · cases f <;> rfl
  · cases f <;> rfl
  · rintro rfl
    exact h.memory.zombie_not_owned hp hpc rfl
  · cases f <;> rfl
  · cases f <;> rfl

/-! ### The steps that link it -/

theorem stages_node (h : Inv w g) {p : Ptr} (hp : p ∈ g.nodes) (hpc' : pc'.owned = none)
    (i' : Item (Tagged α)) :
    ∀ pc ∈ w.threads.set t pc', Stage (Function.update w.q.cells p (some i')) pc := by
  refine stages_set h.stages (fun t' x q _ hx howned => Function.update_of_ne ?_ _ _)
    (Stage.of_owned_none hpc')
  rintro rfl
  exact h.memory.node_not_owned hp (List.mem_of_getElem? hx) howned

theorem swapPtr (h : Inv w g) {item : Ptr} {v : Tagged α}
    (ht : w.threads[t]? = some (.swapPtr item v)) :
    Inv ((w.setQ { w.q with ptr := item }).setPc t (.linkNext item w.q.ptr))
      { g with hist := g.hist ++ [(item, v)] } := by
  have hpc := List.mem_of_getElem? ht
  have hitem : w.q.cells item = some (Item.new v) := h.stages _ hpc
  have hfresh : item ∉ g.nodes := fun hp => h.memory.node_not_owned hp hpc rfl
  have hbase : g.base ≤ g.hist.length := h.order.base_le.trans h.order.claimed_le
  have hnodes : Ghost.nodes { g with hist := g.hist ++ [(item, v)] } = g.nodes ++ [item] := by
    rw [Ghost.nodes, Ghost.nodes, List.drop_append_of_le_length hbase, List.map_append]
    rfl
  refine ⟨?_, forall_mem_set h.stages trivial, ?_, ?_, h.ledger.link h.order.claimed_le ht⟩
  · rw [hnodes]
    exact h.memory.link ht rfl rfl
  · exact h.order.append ht hitem hfresh fun p hp => h.memory.node_ne_zero hp
  · refine h.releases.stay ht rfl rfl rfl (fun _ _ => rfl) (fun _ _ => rfl) (fun hzero p hp => ?_)
      trivial
    have hp' : (g.hist ++ [(item, v)])[g.base]?.map Prod.fst = some p := hp
    rcases Nat.lt_or_ge g.base g.hist.length with hlt | hge
    · rw [List.getElem?_append_left hlt] at hp'
      exact hzero p hp'
    · -- the first item of the list
      obtain heq : g.base = g.hist.length := le_antisymm hbase hge
      rw [heq, List.getElem?_concat_length] at hp'
      obtain rfl : item = p := Option.some.inj hp'
      show (w.q.cells item).map Item.next = some 0
      rw [hitem]
      rfl

theorem linkNext (h : Inv w g) {item oldhead : Ptr} {i : Item (Tagged α)}
    (ht : w.threads[t]? = some (.linkNext item oldhead)) (hi : w.q.cells item = some i) :
    Inv ((w.setCells (Function.update w.q.cells item (some { i with next := oldhead }))).setPc t
      (.linkPrev item oldhead)) g := by
  have hpc := List.mem_of_getElem? ht
  obtain ⟨k, hbase, hnode, hold⟩ := h.order.puts _ hpc
  have hmem := Ghost.mem_nodes hbase hnode
  have hsame : ∀ p, p ≠ item → (Function.update w.q.cells item (some { i with next := oldhead })
      p).map Item.next = (w.q.cells p).map Item.next := by
    intro p hp
    rw [Function.update_of_ne hp]
  refine ⟨h.memory.keep ht rfl rfl rfl (isSome_update hi _), h.stages_node hmem rfl _,
    h.order.linkNext h.memory.nodup ht hi, ?_, h.ledger.move ht rfl rfl⟩
  refine h.releases.stay ht rfl rfl rfl (fun p hp => hsame p ?_) (fun c hc => hsame c ?_)
    (fun hzero p hp => ?_) trivial
  · rintro rfl
    exact h.memory.node_not_zombie hmem hp
  · rintro rfl
    -- a get is at items that are linked
    obtain ⟨j, hj⟩ := h.order.gets _ hc _ rfl
    exact hj.reached.joined j _ hj.reached.base (le_refl j) hj.reached.node _ hpc rfl
  · by_cases heq : p = item
    · subst heq
      obtain rfl := Ghost.eq_of_node h.memory.nodup hbase (le_refl g.base) hnode hp
      rcases hold with ⟨rfl, -⟩ | ⟨-, j, hj, hle, -⟩
      · show (Function.update w.q.cells p _ p).map Item.next = some 0
        rw [Function.update_self]
        rfl
      · omega
    · exact (hsame p heq).trans (hzero p hp)

theorem linkPrev (h : Inv w g) {item oldhead : Ptr} {i : Item (Tagged α)}
    (ht : w.threads[t]? = some (.linkPrev item oldhead)) (hne : oldhead ≠ 0)
    (hi : w.q.cells oldhead = some i) :
    Inv ((w.setCells (Function.update w.q.cells oldhead (some { i with prev := item }))).setPc t
      .bumpLen) g := by
  obtain ⟨k, -, -, hold⟩ := h.order.puts _ (List.mem_of_getElem? ht)
  obtain ⟨j, -, hbase, hnode⟩ := (hold.resolve_left fun hzero => hne hzero.1).2
  exact ⟨h.memory.keep ht rfl rfl rfl (isSome_update hi _),
    h.stages_node (Ghost.mem_nodes hbase hnode) rfl _,
    h.order.linkPrev h.memory.nodup ht hne hi,
    h.releases_next ht rfl rfl (next_update hi rfl), h.ledger.move ht rfl rfl⟩

theorem linkLst (h : Inv w g) {item : Ptr} (ht : w.threads[t]? = some (.linkPrev item 0)) :
    Inv ((w.setQ { w.q with lst := item }).setPc t .bumpLen) g := by
  obtain ⟨k, hbase, hnode, -⟩ := h.order.puts _ (List.mem_of_getElem? ht)
  have hne : item ≠ 0 := h.memory.node_ne_zero (Ghost.mem_nodes hbase hnode)
  exact ⟨h.memory.keep ht rfl rfl rfl fun _ => rfl, forall_mem_set h.stages trivial,
    h.order.linkLst h.memory.nodup ht hne, h.releases_next ht rfl rfl fun _ => rfl,
    h.ledger.move ht rfl rfl⟩

/-! ### The steps of a release -/

/-- What a get that wins `doingrel` would recycle. -/
theorem behind_eq_older (h : Inv w g) (hrel : w.q.doingrel = false) {k : ℕ}
    (hk : Reached w.threads g cur k) : Chained w.q.cells (g.older k).reverse ∧
      (w.q.cells cur).map Item.next = some ((g.older k).reverse.headD 0) ∧
      behind w.q.cells w.puts.length cur = (g.older k).reverse := by
  have hreleases := h.releases
  rw [hrel] at hreleases
  have hnone := hreleases.none_releasing
  obtain ⟨-, hzero⟩ := hreleases.rest fun x hx => Pc.tailing_of_releasing_false (hnone x hx)
  obtain ⟨hchain, hnext⟩ := h.order.chained_older hzero hk
  refine ⟨hchain, hnext, behind_eq hnext hchain (fun p hp => ?_) ?_⟩
  · refine h.memory.node_ne_zero ?_
    rw [g.nodes_split hk.base (hk.claimed.trans h.order.claimed_le) []]
    exact List.mem_append_left _ (List.mem_reverse.mp hp)
  · calc (g.older k).reverse.length
        ≤ g.hist.length := by simp [Ghost.older]
      _ ≤ w.puts.length := h.ledger.length_le

theorem casRel (h : Inv w g) (ht : w.threads[t]? = some (.casRel cur))
    (hrel : w.q.doingrel = false) (halone : releasesAlone w (.step t) = true) :
    ∃ base zombies, Inv ((w.setQ { w.q with doingrel := true }).setPc t (.tailFirst cur))
      { g with base := base, zombies := zombies } := by
  obtain ⟨k, hk⟩ := h.held ht rfl
  have hreach := hk.reached
  have hreleases := h.releases
  rw [hrel] at hreleases
  have hnone := hreleases.none_releasing
  obtain ⟨hnil, -⟩ := hreleases.rest fun x hx => Pc.tailing_of_releasing_false (hnone x hx)
  obtain ⟨hchain, hnext, hbehind⟩ := h.behind_eq_older hrel hreach
  -- no get is at an item before `cur`
  have hahead : ∀ x ∈ w.threads, ∀ p, x.cur = some p → ∀ j, HeldAt w.threads g x p j → k ≤ j := by
    intro x hx p hp j hj
    by_contra hlt
    have hmem := Ghost.mem_older hj.reached.base (Nat.lt_of_not_le hlt) hj.reached.node
    simp only [releasesAlone, ht, hrel, Bool.false_or, List.all_eq_true] at halone
    have hnot := halone x hx
    rw [hp, Option.all_some, hbehind, decide_eq_true_iff] at hnot
    exact hnot (List.mem_reverse.mpr hmem)
  have horder := h.order.retire (g.older k).reverse hreach (hk.early rfl) hahead hnone
  refine ⟨k, (g.older k).reverse, ?_, forall_mem_set h.stages trivial, ?_, hreleases.start ht hchain hnext, h.ledger.move ht rfl rfl⟩
  · have hmem := h.memory
    rw [g.nodes_split hreach.base (hreach.claimed.trans h.order.claimed_le) (g.older k).reverse,
      hnil] at hmem
    exact hmem.retire ht rfl
  · refine horder.stay ht rfl rfl (fun j p i _ _ hi hok => ⟨i, hi, hok⟩) ?_
    rintro p ⟨⟩
    refine ⟨k, ⟨le_refl k, hreach.claimed, hreach.node, fun j q hbase => ?_⟩, fun _ => hk.early rfl,
      nofun, nofun, nofun, fun _ => rfl⟩
    exact hreach.joined j q (hreach.base.trans hbase)

theorem tailNext (h : Inv w g) {tail : Ptr} (ht : w.threads[t]? = some (.tailNext cur tail))
    (hi : w.q.cells tail = some i) :
    ∃ zombies, Inv (w.setPc t (.pushPos cur tail i.next)) { g with zombies := zombies } := by
  have hhead : g.zombies.head? = some tail := h.releases.ok _ (List.mem_of_getElem? ht)
  obtain ⟨zombies, hz⟩ := List.head?_eq_some_iff.mp hhead
  obtain ⟨k, hk⟩ := h.held ht rfl
  have hnext : i.next = zombies.headD 0 := by
    have hchain := h.releases.chained
    rw [hz] at hchain
    have hmap := hchain.1
    rw [hi] at hmap
    exact Option.some.inj hmap
  rw [hnext]
  refine ⟨zombies, ?_, forall_mem_set h.stages trivial, ?_, h.releases.next ht hz, h.ledger.move ht rfl rfl⟩
  · have hmem := h.memory
    rw [hz] at hmem
    exact hmem.grab ht rfl rfl
  · exact (h.order.stay ht rfl rfl (fun j p i _ _ hi hok => ⟨i, hi, hok⟩)
      (getOk_release hk rfl rfl rfl)).setZombies zombies

theorem pushSwap (h : Inv w g) {slot : ℕ} {tail ncur : Ptr}
    (ht : w.threads[t]? = some (.pushSwap slot cur tail ncur)) :
    Inv ((w.setRecycle (w.q.recycle.swap slot tail).2).setPc t
      (if (w.q.recycle.swap slot tail).1 ≠ 0 then .pushFree cur (w.q.recycle.swap slot tail).1 ncur
       else tailLoop cur ncur)) g := by
  obtain ⟨k, hk⟩ := h.held ht rfl
  have hncur : ncur = g.zombies.headD 0 := h.releases.ok _ (List.mem_of_getElem? ht)
  have hnext : RelOk w.q.cells g.zombies (tailLoop cur ncur) := by
    rw [hncur]
    exact relOk_tailLoop cur fun q hq => h.memory.zombie_ne_zero hq
  by_cases hold : (w.q.recycle.swap slot tail).1 = 0
  · rw [if_neg (not_not.mpr hold)]
    refine ⟨h.memory.push ht rfl ?_, forall_mem_set h.stages (Stage.of_owned_none (owned_tailLoop _ _)),
      ?_, ?_, h.ledger.move ht (brings_tailLoop _ _) (takes_tailLoop _ _)⟩
    · rw [if_neg (not_not.mpr hold)]
      exact owned_tailLoop _ _
    · exact h.order.stay ht rfl (joins_tailLoop _ _) (fun j p i _ _ hi hok => ⟨i, hi, hok⟩)
        (getOk_release hk rfl (releasing_tailLoop _ _) (cur_tailLoop _ _))
    · exact h.releases.stay ht (releasing_tailLoop _ _) (tailing_tailLoop _ _) rfl (fun _ _ => rfl)
        (fun _ _ => rfl) id hnext
  · rw [if_pos hold]
    refine ⟨h.memory.push ht rfl ?_, forall_mem_set h.stages trivial, ?_, ?_,
      h.ledger.move ht rfl rfl⟩
    · rw [if_pos hold]
      rfl
    · exact h.order.stay ht rfl rfl (fun j p i _ _ hi hok => ⟨i, hi, hok⟩)
        (getOk_release hk rfl rfl rfl)
    · exact h.releases.stay ht rfl rfl rfl (fun _ _ => rfl) (fun _ _ => rfl) id hncur

/-- What a push displaced was in the cache, and in no list. -/
theorem pushFree (h : Inv w g) {old ncur : Ptr}
    (ht : w.threads[t]? = some (.pushFree cur old ncur)) :
    Inv ((w.setCells (Function.update w.q.cells old none)).setPc t (tailLoop cur ncur)) g := by
  have hpc := List.mem_of_getElem? ht
  obtain ⟨k, hk⟩ := h.held ht rfl
  have hncur : ncur = g.zombies.headD 0 := h.releases.ok _ hpc
  have hsame : ∀ p, p ≠ old → Function.update w.q.cells old none p = w.q.cells p :=
    fun p hp => Function.update_of_ne hp _ _
  have hnodes : ∀ p ∈ g.nodes, Function.update w.q.cells old none p = w.q.cells p := by
    refine fun p hp => hsame p ?_
    rintro rfl
    exact h.memory.node_not_owned hp hpc rfl
  refine ⟨h.memory.free ht rfl (owned_tailLoop _ _), ?_, ?_, ?_,
    h.ledger.move ht (brings_tailLoop _ _) (takes_tailLoop _ _)⟩
  · refine stages_set h.stages (fun t' x p hne hx howned => hsame p ?_)
      (Stage.of_owned_none (owned_tailLoop _ _))
    rintro rfl
    exact h.memory.owned_apart ht hx hne.symm rfl howned
  · refine h.order.stay ht rfl (joins_tailLoop _ _) (fun j p i hj hp hi hok => ⟨i, ?_, hok⟩)
      (getOk_release hk rfl (releasing_tailLoop _ _) (cur_tailLoop _ _))
    exact (hnodes p (Ghost.mem_nodes hj hp)).trans hi
  · refine h.releases.stay ht (releasing_tailLoop _ _) (tailing_tailLoop _ _) rfl (fun p hp => ?_)
      (fun c hc => ?_) (fun hzero p hp => ?_) ?_
    · refine congrArg _ (hsame p ?_)
      rintro rfl
      exact h.memory.zombie_not_owned hp hpc rfl
    · exact congrArg _ (hnodes c (h.mem_nodes hc rfl))
    · exact (congrArg _ (hnodes p (Ghost.mem_nodes (le_refl _) hp))).trans (hzero p hp)
    · rw [hncur]
      exact relOk_tailLoop cur fun q hq => h.memory.zombie_ne_zero hq

/-- A store into an item of the list that leaves it in order. -/
theorem order_store (h : Inv w g) (ht : w.threads[t]? = some pc) (hjoins : pc.joins = none)
    (hjoins' : pc'.joins = none) {k : ℕ} {i' : Item (Tagged α)} (hk : Reached w.threads g cur k)
    (hok : ItemOk w.threads g k cur i') (hget : GetOk w.threads g pc') :
    Order (Function.update w.q.cells cur (some i')) w.q.ptr w.q.lst (w.threads.set t pc') g := by
  refine h.order.stay ht hjoins hjoins' (fun j p i hj hp hi hold => ?_) hget
  by_cases heq : p = cur
  · subst heq
    obtain rfl := Ghost.eq_of_node h.memory.nodup hj hk.base hp hk.node
    exact ⟨i', Function.update_self _ _ _, hok⟩
  · exact ⟨i, (Function.update_of_ne heq _ _).trans hi, hold⟩

theorem tailClear (h : Inv w g) (ht : w.threads[t]? = some (.tailClear cur))
    (hi : w.q.cells cur = some i) :
    Inv ((w.setCells (Function.update w.q.cells cur (some { i with next := 0 }))).setPc t
      (.endRel cur)) g := by
  obtain ⟨k, hk⟩ := h.held ht rfl
  obtain rfl := hk.releasing rfl
  have hok := h.item_at hk.reached hi
  refine ⟨h.memory.keep ht rfl rfl rfl (isSome_update hi _),
    h.stages_node (Ghost.mem_nodes hk.reached.base hk.reached.node) rfl _, ?_,
    h.releases.clear ht hk.reached.node ?_, h.ledger.move ht rfl rfl⟩
  · exact h.order_store ht rfl rfl hk.reached (hok.congr rfl rfl rfl hok.needrel (Or.inr rfl))
      (getOk_release hk rfl rfl rfl)
  · show (Function.update w.q.cells cur _ cur).map Item.next = some 0
    rw [Function.update_self]
    rfl

theorem endRel (h : Inv w g) (ht : w.threads[t]? = some (.endRel cur)) :
    Inv ((w.setQ { w.q with doingrel := false }).setPc t (.testAgain cur)) g := by
  obtain ⟨k, hk⟩ := h.held ht rfl
  refine ⟨h.memory.keep ht rfl rfl rfl fun _ => rfl, forall_mem_set h.stages trivial, ?_,
    h.releases.finish ht, h.ledger.move ht rfl rfl⟩
  refine h.order.stay ht rfl rfl (fun j p i _ _ hi hok => ⟨i, hi, hok⟩) ?_
  rintro p ⟨⟩
  exact ⟨k, hk.reached, fun _ => hk.early rfl, nofun, nofun, nofun, nofun⟩

/-! ### The other steps of a get -/

theorem moveLst (h : Inv w g) {nlst : Ptr} {v : Option (Tagged α)}
    (ht : w.threads[t]? = some (.advance w.q.lst nlst v)) :
    Inv ((w.setQ { w.q with lst := nlst }).setPc t (afterLst w.q.lst nlst v))
      { g with tail := g.tail + 1 } := by
  obtain ⟨k, hk⟩ := h.held ht rfl
  have hne : w.q.lst ≠ 0 :=
    h.memory.node_ne_zero (Ghost.mem_nodes hk.reached.base hk.reached.node)
  have hlst := h.order.reach hne
  obtain rfl := Ghost.eq_of_node h.memory.nodup hk.reached.base hlst.base hk.reached.node hlst.node
  have hnlst := hk.nlst nlst rfl
  have hget := getOk_afterLst hk.reached (hk.past rfl) hk.claims fun _ => hnlst
  have horder := h.order.stay ht rfl (joins_afterLst _ _ _)
    (fun j p i _ _ hi hok => ⟨i, hi, hok⟩) hget
  refine ⟨h.memory.keep ht (owned_afterLst _ _ _) rfl rfl fun _ => rfl,
    forall_mem_set h.stages (Stage.of_owned_none (owned_afterLst _ _ _)), ?_, ?_,
    h.ledger.move ht (brings_afterLst _ _ _) (takes_afterLst _ _ _)⟩
  · refine horder.moveLst ?_ ?_
    · exact h.memory.node_ne_zero (Ghost.mem_nodes hnlst.base hnlst.node)
    · exact hnlst.grow (Grows.refl g) fun q _ => Joined.set ht (Or.inl (joins_afterLst _ _ _))
  · exact h.releases.stay ht (releasing_afterLst _ _ _)
      (Pc.tailing_of_releasing_false (releasing_afterLst _ _ _)) rfl (fun _ _ => rfl)
      (fun _ _ => rfl) id (RelOk.of_not_releasing (releasing_afterLst _ _ _))

/-- **A get claims the first item that is not claimed.** -/
theorem claim (h : Inv w g) {first : Bool} (ht : w.threads[t]? = some (.claim cur first))
    (hi : w.q.cells cur = some i) (hclaimed : i.claimed = false) :
    Inv ((w.setCells (Function.update w.q.cells cur (some { i with claimed := true }))).setPc t
      (.dropLen cur first i.payload)) { g with claimed := g.claimed + 1 } := by
  obtain ⟨k, hk⟩ := h.held ht rfl
  have hok := h.item_at hk.reached hi
  have hk' : k = g.claimed := by
    have hdec := hok.claimed
    rw [hclaimed] at hdec
    exact le_antisymm hk.reached.claimed (Nat.le_of_not_lt (of_decide_eq_false hdec.symm))
  have hreach : Reached w.threads g cur g.claimed := hk' ▸ hk.reached
  have hpayload : g.hist[g.claimed]? = some (cur, i.payload) := hk' ▸ hok.payload
  have hg : Grows g { g with claimed := g.claimed + 1 } :=
    ⟨rfl, le_refl _, Nat.le_succ _, List.prefix_refl _⟩
  have hnext : ∀ p, (Function.update w.q.cells cur (some { i with claimed := true }) p).map
      Item.next = (w.q.cells p).map Item.next := next_update hi rfl
  refine ⟨h.memory.keep ht rfl rfl rfl (isSome_update hi _),
    h.stages_node (Ghost.mem_nodes hreach.base hreach.node) rfl _, ?_, ?_,
    h.ledger.claim ht hpayload⟩
  · refine (h.order.claim h.memory.nodup hi hreach).stay ht rfl rfl
      (fun j p i _ _ hi hok => ⟨i, hi, hok⟩) ?_
    rintro p ⟨⟩
    refine ⟨g.claimed, hreach.grow hg fun _ _ hj => hj, nofun, fun _ => Nat.lt_succ_self _,
      fun v hv => ?_, nofun, nofun⟩
    cases hv
    exact hpayload
  · exact h.releases.stay ht rfl rfl rfl (fun p _ => hnext p) (fun c _ => hnext c)
      (fun hzero p hp => (hnext p).trans (hzero p hp)) trivial

theorem markRel (h : Inv w g) {v : Tagged α} (ht : w.threads[t]? = some (.markRel cur v))
    (hi : w.q.cells cur = some i) :
    Inv ((w.setCells (Function.update w.q.cells cur (some { i with needrel := true }))).setPc t
      (.bumpRel v)) g := by
  obtain ⟨k, hk⟩ := h.held ht rfl
  have hok := h.item_at hk.reached hi
  refine ⟨h.memory.keep ht rfl rfl rfl (isSome_update hi _),
    h.stages_node (Ghost.mem_nodes hk.reached.base hk.reached.node) rfl _, ?_,
    h.releases_next ht rfl rfl (next_update hi rfl), h.ledger.move ht rfl rfl⟩
  exact h.order_store ht rfl rfl hk.reached
    (hok.congr rfl rfl rfl (fun _ => hk.past rfl) (Or.inl rfl)) (GetOk.of_cur_none rfl)

theorem leave (h : Inv w g) {v : Tagged α} (ht : w.threads[t]? = some (.leave v)) :
    Inv ({ w.setQ { w.q with rinside := w.q.rinside - 1 } with
      returned := w.returned ++ [v] }.setPc t .idle) g :=
  ⟨h.memory.keep ht rfl rfl rfl fun _ => rfl, forall_mem_set h.stages trivial,
    h.order_outside ht rfl rfl rfl fun _ _ => rfl, h.releases_next ht rfl rfl fun _ => rfl,
    h.ledger.giveBack ht⟩

/-! ### Runs -/

/-- **A step whose releases are alone keeps the invariant**, and links at the end of the list only. -/
theorem step_hist {w' : World α} {a : Act α} (h : Inv w g) (halone : releasesAlone w a = true)
    (htrans : Trans w a w') : ∃ g', Inv w' g' ∧ g.hist <+: g'.hist := by
  cases htrans with
  | startPut ht => exact ⟨g, h.startPut ht _, List.prefix_rfl⟩
  | startGet ht => exact ⟨g, h.startGet ht, List.prefix_rfl⟩
  | stay ht hl rinside len sent needrel pos =>
    exact ⟨g, h.stay ht hl rinside len sent needrel pos, List.prefix_rfl⟩
  | popSwap ht => exact ⟨g, h.popSwap ht, List.prefix_rfl⟩
  | box ht hne hfree => exact ⟨g, h.box ht hne hfree, List.prefix_rfl⟩
  | reset ht hi => exact ⟨g, h.reset ht hi, List.prefix_rfl⟩
  | swapPtr ht => exact ⟨_, h.swapPtr ht, List.prefix_append _ _⟩
  | linkNext ht hi => exact ⟨g, h.linkNext ht hi, List.prefix_rfl⟩
  | linkPrev ht hne hi => exact ⟨g, h.linkPrev ht hne hi, List.prefix_rfl⟩
  | linkLst ht => exact ⟨g, h.linkLst ht, List.prefix_rfl⟩
  | casRel ht hrel =>
    obtain ⟨base, zombies, hinv⟩ := h.casRel ht hrel halone
    exact ⟨_, hinv, List.prefix_rfl⟩
  | tailNext ht hi =>
    obtain ⟨zombies, hinv⟩ := h.tailNext ht hi
    exact ⟨_, hinv, List.prefix_rfl⟩
  | pushSwap ht => exact ⟨g, h.pushSwap ht, List.prefix_rfl⟩
  | pushFree ht => exact ⟨g, h.pushFree ht, List.prefix_rfl⟩
  | tailClear ht hi => exact ⟨g, h.tailClear ht hi, List.prefix_rfl⟩
  | endRel ht => exact ⟨g, h.endRel ht, List.prefix_rfl⟩
  | moveLst ht => exact ⟨_, h.moveLst ht, List.prefix_rfl⟩
  | claim ht hi hclaimed => exact ⟨_, h.claim ht hi hclaimed, List.prefix_rfl⟩
  | markRel ht hi => exact ⟨g, h.markRel ht hi, List.prefix_rfl⟩
  | leave ht => exact ⟨g, h.leave ht, List.prefix_rfl⟩

theorem step {w' : World α} {a : Act α} (h : Inv w g) (halone : releasesAlone w a = true)
    (htrans : Trans w a w') : ∃ g', Inv w' g' := by
  obtain ⟨g', hinv, -⟩ := h.step_hist halone htrans
  exact ⟨g', hinv⟩

end Inv

end WaterNet.Queue.Link
