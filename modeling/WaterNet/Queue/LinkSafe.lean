import WaterNet.Queue.LinkAlone
import WaterNet.Queue.LinkFifo
import WaterNet.Queue.LinkInv

/-!
# Each value is delivered once, unless an item in use is recycled (`queue.rs`)

In a run whose releases find no get behind them, the invariant says at rest that the queue has the
shape that calls keep which do not overlap.  From there on gets that run alone return the pending
values, in the order in which they were put.

* `Pc.uses`, `Inv.advances` — every item that a thread is about to use is allocated, and so no thread
  is stuck;
* `Inv.holds` — the shape at rest;
* `GetsReturn` — what gets that run one after the other return;
* `Safe`, `delivers_once` — **each value is delivered once** in runs whose releases are alone;
* `not_delivers_once` — a run in which a value is returned twice.
-/

namespace WaterNet.Queue.Link

open Lib Lib.Pool Lib.Machine
open InfiniteLinkQueue (Holds Linkage Linked)

variable {α : Type*}

/-- The item that a thread is about to read, to store into or to deallocate. -/
def Pc.uses : Pc α → Option Ptr
  | .reset _ item _ | .linkNext item _ => some item
  | .linkPrev _ oldhead => if oldhead ≠ 0 then some oldhead else none
  | .tailNext _ tail => some tail
  | .pushFree _ old _ => some old
  | .testRel cur | .tailFirst cur | .tailClear cur | .testAgain cur | .loadPrev cur _ | .claim cur _
  | .copy cur _ | .markRel cur _ | .next cur => some cur
  | _ => none

namespace World

/-- No call is in progress. -/
def Quiet (w : World α) : Prop := ∀ pc ∈ w.threads, pc = .idle

/-- Gets of the threads `ts`, each of which runs alone, return the values of `pending` in turn, and
nothing when there are none left. -/
def GetsReturn (w : World α) : List ℕ → List (Tagged α) → Prop
  | [], _ => True
  | t :: ts, pending => ∃ n w', run World.step w (getAlone t n) = some w' ∧ w'.Quiet ∧
      w'.returned = w.returned ++ pending.head?.toList ∧ w'.GetsReturn ts pending.tail

end World

/-- **Each value is delivered once.** -/
structure Safe (w : World α) : Prop where
  once : (w.returned.map Tagged.origin).Nodup
  put : ∀ v ∈ w.returned, w.puts[v.origin]? = some v.value
  /-- no thread is about to use an item that is deallocated -/
  allocated : ∀ pc ∈ w.threads, ∀ p, pc.uses = some p → (w.q.cells p).isSome = true
  /-- a thread in a call can move -/
  moves : ∀ t pc, w.threads[t]? = some pc → pc ≠ .idle →
    (w.step (.step t)).isSome = true ∨ ∃ item, (w.step (.box t item)).isSome = true
  /-- with no call in progress, the values put and not returned are those that gets return -/
  pending : w.Quiet → ∃ pending, (w.returned ++ pending).Perm (tagged w.puts) ∧
    ∀ ts, (∀ t ∈ ts, t < w.threads.length) → w.GetsReturn ts pending

/-! ### The queue at rest -/

theorem init_inv (α : Type*) (n : ℕ) : Inv (World.init α n) ⟨[], 0, 0, 0, []⟩ := by
  have hidle : ∀ pc ∈ (World.init α n).threads, pc = .idle :=
    fun pc hpc => List.eq_of_mem_replicate hpc
  have hthreads : ∀ weight : Pc α → ℕ, weight .idle = 0 →
      total weight (World.init α n).threads = 0 := by
    intro weight hweight
    refine total_eq_zero fun pc hpc => ?_
    rw [hidle pc hpc, hweight]
  have htally : ∀ p, tally [] [] (World.init α n).q.recycle.block (World.init α n).threads p = 0 := by
    intro p
    have hblock : total (inSlot p) (World.init α n).q.recycle.block = 0 := by
      refine total_eq_zero fun x hx => ?_
      rw [List.eq_of_mem_replicate hx]
      exact if_neg fun hand => hand.2 rfl
    have howns := hthreads (Pc.owns p) rfl
    rw [tally, hblock, howns, total_nil]
  have hnode : ∀ {k : ℕ} {p : Ptr}, Ghost.node (⟨[], 0, 0, 0, []⟩ : Ghost α) k ≠ some p := by
    intro k p hp
    cases hp
  refine ⟨⟨rfl, fun p => ?_, fun p hp => ?_, ?_, [], le_refl 0, fun p hp => ?_⟩, fun pc hpc => ?_,
    ?_, ?_, ?_⟩
  · exact (htally p).le.trans (Nat.zero_le 1)
  · have hzero := htally p
    exact absurd hzero (Nat.ne_of_gt hp)
  · exact List.length_replicate
  · cases hp
  · rw [hidle pc hpc]
    trivial
  · refine ⟨le_refl 0, le_refl 0, fun h => absurd rfl h, rfl, fun k p _ hp => absurd hp hnode,
      fun h => absurd rfl h, fun _ => ⟨rfl, rfl, fun p hp => absurd hp hnode⟩,
      fun t t' pc pc' p ht _ hpc => ?_, fun pc hpc => ?_, fun pc hpc => ?_⟩
    · rw [hidle pc (List.mem_of_getElem? ht)] at hpc
      cases hpc
    · rw [hidle pc hpc]
      trivial
    · rw [hidle pc hpc]
      exact GetOk.of_cur_none rfl
  · refine ⟨hthreads Pc.releases rfl, trivial, fun pc hpc => ?_, fun _ => ⟨rfl, fun p hp => ?_⟩⟩
    · rw [hidle pc hpc]
      trivial
    · exact absurd hp hnode
  · refine ⟨fun n => hthreads (Pc.bringing n) rfl, fun n => ?_, fun pc hpc v hv => ?_,
      List.forall_mem_nil _, fun pc hpc v hv => ?_, List.forall_mem_nil _⟩
    · have htaking := hthreads (Pc.taking n) rfl
      rw [htaking]
      rfl
    · rw [hidle pc hpc] at hv
      cases hv
    · rw [hidle pc hpc] at hv
      cases hv

namespace World

/-- A thread in a call is stuck only at an item that is deallocated, or at an allocation. -/
theorem advance_isSome {w : World α} {t : ℕ} {pc : Pc α} (hidle : pc ≠ .idle)
    (hbox : ∀ v, pc ≠ .boxNew v) (h : ∀ p, pc.uses = some p → (w.q.cells p).isSome = true) :
    (w.advance t pc).isSome = true := by
  cases pc with
  | idle => exact absurd rfl hidle
  | boxNew v => exact absurd rfl (hbox v)
  | linkPrev item oldhead =>
    by_cases hne : oldhead ≠ 0
    · obtain ⟨i, hi⟩ := Option.isSome_iff_exists.mp (h oldhead (if_pos hne))
      simp only [advance, if_pos hne, modify, Cells.modify, hi]
      rfl
    · simp only [advance, if_neg hne]
      rfl
  | casRel cur =>
    simp only [advance]
    split <;> rfl
  | reset f item v | linkNext item v | tailClear item | markRel item v =>
    obtain ⟨i, hi⟩ := Option.isSome_iff_exists.mp (h item rfl)
    simp only [advance, modify, Cells.modify, hi]
    rfl
  | testRel cur | tailFirst cur | testAgain cur | loadPrev cur v | copy cur v | next cur =>
    obtain ⟨i, hi⟩ := Option.isSome_iff_exists.mp (h cur rfl)
    simp only [advance, hi]
    rfl
  | tailNext cur tail =>
    obtain ⟨i, hi⟩ := Option.isSome_iff_exists.mp (h tail rfl)
    simp only [advance, hi]
    rfl
  | claim cur first =>
    obtain ⟨i, hi⟩ := Option.isSome_iff_exists.mp (h cur rfl)
    simp only [advance, hi, Option.bind_eq_bind, Option.bind_some]
    split <;> rfl
  | _ => rfl

end World

namespace Inv

variable {w : World α} {g : Ghost α}

/-- **No thread is about to use an item that is deallocated.** -/
theorem uses_isSome {pc : Pc α} {p : Ptr} (h : Inv w g) (hpc : pc ∈ w.threads)
    (hp : pc.uses = some p) : (w.q.cells p).isSome = true := by
  cases pc with
  | reset f item v | pushFree cur old ncur => exact h.memory.owned_isSome hpc hp
  | linkNext item oldhead =>
    obtain ⟨k, hbase, hnode, -⟩ := h.order.puts _ hpc
    cases hp
    exact h.memory.node_isSome (Ghost.mem_nodes hbase hnode)
  | linkPrev item oldhead =>
    obtain ⟨k, -, -, hold⟩ := h.order.puts _ hpc
    rw [Pc.uses] at hp
    split at hp
    · rename_i hne
      obtain ⟨j, -, hbase, hnode⟩ := (hold.resolve_left fun hzero => hne hzero.1).2
      cases hp
      exact h.memory.node_isSome (Ghost.mem_nodes hbase hnode)
    · cases hp
  | tailNext cur tail =>
    have hhead : g.zombies.head? = some tail := h.releases.ok _ hpc
    cases hp
    exact h.memory.zombie_isSome (List.mem_of_head? hhead)
  | testRel | tailFirst | tailClear | testAgain | loadPrev | claim | copy | markRel | next =>
    -- the item a get is at is in the list
    exact h.memory.node_isSome (h.mem_nodes hpc hp)
  | _ => cases hp

/-- **No thread is stuck.** -/
theorem advances {t : ℕ} {pc : Pc α} (h : Inv w g) (ht : w.threads[t]? = some pc)
    (hidle : pc ≠ .idle) :
    (w.step (.step t)).isSome = true ∨ ∃ item, (w.step (.box t item)).isSome = true := by
  by_cases hbox : ∃ v, pc = .boxNew v
  · -- finitely many items are allocated
    obtain ⟨v, rfl⟩ := hbox
    obtain ⟨used, -, hused⟩ := h.memory.asked
    obtain ⟨item, hne, hfree⟩ := InfiniteLinkQueue.exists_free hused
    refine Or.inr ⟨item, ?_⟩
    simp only [World.step, ht, Option.bind_some, World.alloc, if_pos (And.intro hne hfree)]
    rfl
  · refine Or.inl ?_
    simp only [World.step, ht, Option.bind_some]
    exact World.advance_isSome hidle (fun v hv => hbox ⟨v, hv⟩) fun p hp =>
      h.uses_isSome (List.mem_of_getElem? ht) hp

/-- The nodes in the list, in order, and each at its place in the history. -/
theorem getElem_nodes {j : ℕ} {p : Ptr} (hj : g.nodes[j]? = some p) : g.node (g.base + j) = some p := by
  rw [Ghost.nodes, List.getElem?_map, List.getElem?_drop] at hj
  exact hj

theorem joined_of_quiet (hquiet : w.Quiet) (p : Ptr) : Joined w.threads p := by
  intro pc hpc
  rw [hquiet pc hpc]
  exact nofun

theorem linkage (h : Inv w g) (hquiet : w.Quiet) : Linkage w.q.cells g.nodes := by
  refine ⟨List.nodup_cons.mpr ⟨fun h0 => h.memory.node_ne_zero h0 rfl, h.memory.nodup⟩, ?_,
    fun p hp => ?_, fun p hp => ?_⟩
  · rw [List.isChain_iff_getElem]
    intro j hj
    have ha := getElem_nodes (List.getElem?_eq_getElem (Nat.lt_of_succ_lt hj))
    have hb := getElem_nodes (List.getElem?_eq_getElem hj)
    obtain ⟨i, hi, hok⟩ := h.order.item _ _ (Nat.le_add_right _ _) ha
    obtain ⟨i', hi', hok'⟩ := h.order.item _ _ (Nat.le_add_right _ _) hb
    constructor
    · rw [hi]
      exact congrArg some (hok.linked _ hb (joined_of_quiet hquiet _))
    · rw [hi']
      rcases hok'.next (g.base + j) _ rfl (Nat.le_add_right _ _) ha with heq | ⟨old, hmem⟩
      · exact congrArg some heq
      · have hidle := hquiet _ hmem
        cases hidle
  · have hnot : ∀ pc ∈ w.threads, pc.tailing = false := by
      intro pc hpc
      rw [hquiet pc hpc]
      rfl
    rw [List.head?_eq_getElem?] at hp
    exact (h.releases.rest hnot).2 p (getElem_nodes hp)
  · rw [List.getLast?_eq_getElem?] at hp
    have hnode := getElem_nodes hp
    obtain ⟨i, hi, hok⟩ := h.order.item _ p (Nat.le_add_right _ _) hnode
    rw [hi]
    refine congrArg some (by_contra fun hne => ?_)
    have hlt := Ghost.node_lt (hok.prev hne).1
    have hlen : g.nodes.length = g.hist.length - g.base := by simp [Ghost.nodes]
    omega

/-- The items in the cache are in no list, and each is in one slot. -/
theorem caches (h : Inv w g) : w.q.recycle.Caches w.q.cells g.nodes := by
  refine ⟨h.memory.block, fun slot p hslot hp => ?_, fun slot slot' p hslot hslot' hp => ?_⟩
  · have hpos := inSlot_pos (List.mem_of_getElem? hslot) hp
    refine ⟨fun hnode => ?_, h.memory.alloc p (by rw [tally]; omega)⟩
    have hnpos := pos_of_mem hnode
    have honce := h.memory.once p
    rw [tally] at honce
    omega
  · by_contra hne
    have hle := add_le_total (inSlot p) hne hslot hslot'
    have honce := h.memory.once p
    rw [inSlot, if_pos ⟨rfl, hp⟩] at hle
    rw [tally] at honce
    omega

/-- **At rest the queue has the shape that calls keep which do not overlap.** -/
theorem holds (h : Inv w g) (hquiet : w.Quiet) :
    Holds w.q (g.older g.claimed) (g.hist.drop g.claimed) := by
  have hsplit : g.nodes = g.older g.claimed ++ (g.hist.drop g.claimed).map Prod.fst :=
    g.nodes_split h.order.base_le h.order.claimed_le []
  refine ⟨hsplit ▸ h.linkage hquiet, fun p hp => ?_, fun x hx => ?_, ?_, ?_, ?_, hsplit ▸ h.caches,
    h.memory.asked⟩
  · obtain ⟨k, hbase, hlt, hnode⟩ := Ghost.exists_of_mem_older hp
    obtain ⟨i, hi, hok⟩ := h.order.item k p hbase hnode
    exact ⟨i, hi, by rw [hok.claimed, decide_eq_true_eq]; exact hlt⟩
  · obtain ⟨j, hj⟩ := List.mem_iff_getElem?.mp hx
    rw [List.getElem?_drop] at hj
    have hle : g.claimed ≤ g.claimed + j := Nat.le_add_right _ _
    obtain ⟨i, hi, hok⟩ := h.order.item (g.claimed + j) x.1 (h.order.base_le.trans hle)
      (Option.map_eq_some_iff.mpr ⟨x, hj, rfl⟩)
    refine ⟨i, hi, ?_, ?_, ?_⟩
    · rw [hok.claimed, decide_eq_false_iff_not]
      exact Nat.not_lt_of_le hle
    · by_contra hrel
      exact Nat.not_lt_of_le hle (hok.needrel (Bool.not_eq_false _ ▸ hrel))
    · have hpayload := hok.payload
      rw [hj] at hpayload
      rw [Option.some.inj hpayload]
  · rw [← hsplit, h.order.newest, List.getLastD_eq_getLast?, Ghost.nodes, List.getLast?_map,
      List.getLast?_drop]
    split
    · have hnil : g.hist = [] := by
        by_contra hne
        have hlt := h.order.last hne
        omega
      rw [hnil]
      rfl
    · rfl
  · by_cases h0 : w.q.lst = 0
    · obtain ⟨-, -, hnot⟩ := h.order.root h0
      have hnil : g.hist = [] := by
        by_contra hne
        have hpos := List.length_pos_iff.mpr hne
        exact hnot _ (by rw [Ghost.node, List.getElem?_eq_getElem hpos]; rfl)
          (joined_of_quiet hquiet _)
      refine Or.inr ⟨?_, fun _ => ?_⟩
      · rw [h0, hnil, List.drop_nil]
        rfl
      · simp [Ghost.older, hnil]
    · have hreach := h.order.reach h0
      rcases Nat.lt_or_ge g.tail g.claimed with hlt | hge
      · exact Or.inl (Ghost.mem_older hreach.base hlt hreach.node)
      · have heq : g.tail = g.claimed := le_antisymm hreach.claimed hge
        obtain ⟨x, hx, hlst⟩ := Option.map_eq_some_iff.mp hreach.node
        obtain ⟨hlen, hget⟩ := List.getElem?_eq_some_iff.mp (heq ▸ hx)
        have hcons : g.hist.drop g.claimed = x :: g.hist.drop (g.claimed + 1) := by
          rw [← hget]
          exact List.drop_eq_getElem_cons hlen
        refine Or.inr ⟨?_, fun hnil => ?_⟩
        · rw [hcons]
          exact hlst.symm
        · rw [hcons] at hnil
          cases hnil
  · have hmutex := h.releases.mutex
    have hzero : total Pc.releases w.threads = 0 := by
      refine total_eq_zero fun pc hpc => ?_
      rw [hquiet pc hpc]
      rfl
    by_contra hrel
    rw [Bool.not_eq_false] at hrel
    rw [hzero, hrel] at hmutex
    cases hmutex

/-- The values put are those returned and those in the list that are not claimed. -/
theorem perm (h : Inv w g) (hquiet : w.Quiet) :
    (w.returned ++ (g.hist.drop g.claimed).map Prod.snd).Perm (tagged w.puts) := by
  refine perm_tagged_of_once (fun n => ?_) fun v hv => ?_
  · have hbringing : total (Pc.bringing n) w.threads = 0 := by
      refine total_eq_zero fun pc hpc => ?_
      rw [hquiet pc hpc]
      rfl
    have htaking : total (Pc.taking n) w.threads = 0 := by
      refine total_eq_zero fun pc hpc => ?_
      rw [hquiet pc hpc]
      rfl
    have hbrought := h.ledger.brought n
    have htaken := h.ledger.taken n
    have hdrop : total (ofPut n) ((g.hist.drop g.claimed).map Prod.snd) =
        total (itemOf n) (g.hist.drop g.claimed) := by
      rw [total, total, List.map_map]
      rfl
    have hsplit := total_append (itemOf n) (g.hist.take g.claimed) (g.hist.drop g.claimed)
    rw [List.take_append_drop] at hsplit
    rw [total_append, hdrop, ← hbrought]
    omega
  · rcases List.mem_append.mp hv with hv | hv
    · exact h.ledger.given v hv
    · obtain ⟨x, hx, rfl⟩ := List.mem_map.mp hv
      exact h.ledger.inList x (List.mem_of_mem_drop hx)

/-- No value is returned twice. -/
theorem returned_once (h : Inv w g) : (w.returned.map Tagged.origin).Nodup := by
  refine nodup_of_once fun n => ?_
  have hbrought := h.ledger.brought n
  have htaken := h.ledger.taken n
  have hsplit := total_append (itemOf n) (g.hist.take g.claimed) (g.hist.drop g.claimed)
  rw [List.take_append_drop] at hsplit
  split at hbrought <;> omega

end Inv

/-- **Gets that follow return what is pending**, one after the other. -/
theorem getsReturn_of_holds {w : World α} {old : List Ptr} {fresh : List (Ptr × Tagged α)}
    (h : Holds w.q old fresh) (hquiet : w.Quiet) {ts : List ℕ}
    (hts : ∀ t ∈ ts, t < w.threads.length) : w.GetsReturn ts (fresh.map Prod.snd) := by
  induction ts generalizing w old fresh with
  | nil => trivial
  | cons t ts ih =>
    have hlt := hts t List.mem_cons_self
    have ht : w.threads[t]? = some .idle := by
      rw [List.getElem?_eq_getElem hlt, hquiet _ (List.getElem_mem hlt)]
    obtain ⟨q', old', hget, -, hholds⟩ := h.get_holds
    obtain ⟨n, hrun⟩ := get_alone ht hget
    refine ⟨n, _, hrun, hquiet, ?_, ?_⟩
    · rw [List.head?_map]
    · rw [← List.map_tail]
      exact ih hholds hquiet fun t' ht' => hts t' (List.mem_cons_of_mem t ht')

theorem Inv.safe {w : World α} {g : Ghost α} (h : Inv w g) : Safe w := by
  refine ⟨h.returned_once, h.ledger.given, fun pc hpc p => h.uses_isSome hpc,
    fun t pc => h.advances, fun hquiet => ⟨_, h.perm hquiet, fun ts hts => ?_⟩⟩
  exact getsReturn_of_holds (h.holds hquiet) hquiet hts

/-- **Each value is delivered once.**  In every run of any number of threads in which each get that
wins `doingrel` finds no get in progress at an item it is about to recycle, no value is returned
twice, every value returned was put, no thread is at an item that is deallocated, and with no call in
progress gets return exactly the rest. -/
theorem delivers_once (n : ℕ) {acts : List (Act α)} {w : World α}
    (halone : StepsMeet World.step (fun w a => releasesAlone w a = true) (World.init α n) acts)
    (hrun : run World.step (World.init α n) acts = some w) : Safe w := by
  have hstep : ∀ (s : World α) (a : Act α) (s' : World α), (∃ g, Inv s g) →
      releasesAlone s a = true → s.step a = some s' → ∃ g, Inv s' g := by
    intro s a s' hs hok hs'
    obtain ⟨g, hg⟩ := hs
    exact hg.step hok (World.step_trans hs')
  obtain ⟨g, hg⟩ := run_invariant_of hstep halone hrun ⟨_, init_inv α n⟩
  exact hg.safe

/-- A put by thread `t` that allocates its item at `item`. -/
def putNew (t v : ℕ) (item : Ptr) : List (Act ℕ) :=
  .put t v :: List.replicate 2 (.step t) ++ .box t item :: List.replicate 5 (.step t)

/-- A get is at the second item while another one recycles the first, which the last put reuses. -/
def reuseRun : List (Act ℕ) :=
  putNew 2 7 100 ++ getAlone 1 11 ++ putNew 2 8 200 ++ getAlone 1 17 ++ putNew 2 9 300 ++
    getAlone 0 2 ++ getAlone 1 20 ++ Act.put 2 10 :: List.replicate 12 (Act.step 2) ++
    List.replicate 16 (Act.step 0)

theorem delivers_once_reuseRun :
    StepsMeet World.step (fun w a => releasesAlone w a = true) (World.init ℕ 3) reuseRun ∧
      ∃ w, run World.step (World.init ℕ 3) reuseRun = some w ∧ w.puts = [7, 8, 9, 10] ∧
        w.returned = [⟨0, 7⟩, ⟨1, 8⟩, ⟨2, 9⟩, ⟨3, 10⟩] ∧ Safe w := by
  have halone : StepsMeet World.step (fun w a => releasesAlone w a = true) (World.init ℕ 3)
      reuseRun := by decide +kernel
  obtain ⟨w, hrun, hobs⟩ := Option.map_eq_some_iff.mp
    (show (run World.step (World.init ℕ 3) reuseRun).map (fun w => (w.puts, w.returned)) =
      some ([7, 8, 9, 10], [⟨0, 7⟩, ⟨1, 8⟩, ⟨2, 9⟩, ⟨3, 10⟩]) by decide +kernel)
  rw [Prod.mk.injEq] at hobs
  exact ⟨halone, w, hrun, hobs.1, hobs.2, delivers_once 3 halone hrun⟩

/-- A get is at the first item while another one recycles it, and reads it when the last put has
reset `claimed` and not yet written the payload. -/
def staleRun : List (Act ℕ) :=
  putNew 2 7 100 ++ getAlone 0 4 ++ getAlone 1 11 ++ putNew 2 8 200 ++ getAlone 1 17 ++
    putNew 2 9 300 ++ getAlone 1 20 ++ Act.put 2 10 :: List.replicate 3 (Act.step 2) ++
    List.replicate 8 (Act.step 0)

theorem not_delivers_once : ¬ ∀ (n : ℕ) (acts : List (Act ℕ)) (w : World ℕ),
    run World.step (World.init ℕ n) acts = some w → Safe w := by
  intro hall
  obtain ⟨w, hrun, hreturned⟩ := Option.map_eq_some_iff.mp
    (show (run World.step (World.init ℕ 3) staleRun).map World.returned =
      some [⟨0, 7⟩, ⟨1, 8⟩, ⟨2, 9⟩, ⟨0, 7⟩] by decide +kernel)
  have honce := (hall 3 staleRun w hrun).once
  rw [hreturned] at honce
  -- the first value is returned twice
  exact absurd honce (by decide)

end WaterNet.Queue.Link
