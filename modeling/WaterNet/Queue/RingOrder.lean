import WaterNet.Lib.Stack
import WaterNet.Lib.Turn
import WaterNet.Queue.RingProgress

/-!
# One producer and one consumer at a time around a ring (`queue.rs`)

Two puts may fall on the same item and store there in either order, and two gets may give their
positions back in either order, so with several producers or consumers a ring is no queue.  This
module is about the runs in which at most one put and at most one get are in progress, by whatever
threads, a put begins while the ring is not full, and no get without blocking fails.

* `PutsInTurn`, `GetsInTurn` — what holds of the put and of the get in progress;
* `InOrder`, `inOrder_step` — put number `n` stores into item `n % 2 ^ bsize`, and get number `n`
  reads from there;
* `InOrder.spinsFree` — the item of the put in progress is free: the value that was there before has
  been returned;
* `ring_in_order` — **such a ring is a queue**: under every interleaving of the producer with the
  consumer, the values are returned in the order of the puts.
-/

namespace WaterNet.Queue.Ring

open Lib Lib.Pool Lib.Machine

variable {α : Type*}

def Pc.inGet : Pc α → Bool
  | .getRx _ | .getSwap .. | .getBack _ | .getCopy _ | .getStore .. | .getLen _ => true
  | _ => false

/-- The put in progress brings the last of the `n` values put so far. -/
def PutsInTurn (bsize tx n : ℕ) : Pc α → Prop
  | .putTx v => tx = v.origin ∧ v.origin + 1 = n
  | .putSpin pos v _ | .putCopy pos v => tx = n ∧ v.origin + 1 = n ∧ pos = v.origin % 2 ^ bsize
  | .putStore _ | .putLen => tx = n
  | _ => True

/-- The get in progress is after value number `n`, where `n` have been returned so far. -/
def GetsInTurn (bsize rx n : ℕ) : Pc α → Prop
  | .getRx _ => rx = n
  | .getSwap _ pos | .getBack pos | .getCopy pos => rx = n + 1 ∧ pos = n % 2 ^ bsize
  | .getStore pos v => rx = n + 1 ∧ v.origin = n ∧ pos = n % 2 ^ bsize
  | .getLen v => rx = n + 1 ∧ v.origin = n
  | _ => True

structure InOrder (bsize : ℕ) (w : World α) : Prop where
  put : Turn Pc.inPut (PutsInTurn bsize w.q.tx w.puts.length) (w.q.tx = w.puts.length) w.threads
  get : Turn Pc.inGet (GetsInTurn bsize w.q.rx w.returned.length) (w.q.rx = w.returned.length)
    w.threads
  live : ∀ (pos : ℕ) (v : Tagged α), w.live[pos]? = some (some v) → v.origin % 2 ^ bsize = pos
  returned : ∀ (k : ℕ) (v : Tagged α), w.returned[k]? = some v → v.origin = k
  room : w.InBounds bsize

/-- A put starts while no other is in progress and fewer than `2 ^ bsize` values are undelivered, a get
while no other is in progress, and a get without blocking finds its item filled. -/
def oneByOne (bsize : ℕ) (w : World α) : Act α → Bool
  | .put _ _ => w.threads.all (fun pc => !pc.inPut) && w.puts.length < w.returned.length + 2 ^ bsize
  | .maybeget _ _ => w.threads.all fun pc => !pc.inGet
  | .step t =>
    match w.threads[t]? with
    | some (.getSwap false pos) => (w.q.block[pos]?).all (·.state == 2)
    | _ => true

section InOrder

variable {bsize t pos : ℕ} {w : World α} {item : SizedRingQueueItem (Tagged α)} {v : Tagged α}

/-- A value that has not been returned is numbered past those that have. -/
theorem InOrder.returned_le (h : InOrder bsize w) (hinv : Inv bsize w) {x : Tagged α}
    (hx : 0 < total (liveAs x.origin) w.live + total (Pc.taking x.origin) w.threads) :
    w.returned.length ≤ x.origin := by
  by_contra hlt
  rw [Nat.not_le] at hlt
  have honce := hinv.values.once x.origin
  have hret := le_total (ofPut x.origin) (List.getElem_mem hlt)
  rw [ofPut, if_pos (h.returned _ _ (List.getElem?_eq_getElem hlt))] at hret
  split at honce <;> omega

/-- **What the get in progress copies out is the oldest value.**  The value it is after has been put,
and is in no other place than its own item. -/
theorem InOrder.origin_eq (h : InOrder bsize w) (hinv : Inv bsize w)
    (ht : w.threads[t]? = some (.getCopy pos)) (hl : w.live[pos]? = some (some v)) :
    v.origin = w.returned.length := by
  obtain ⟨-, hpos⟩ := h.get.busy _ (List.mem_of_getElem? ht) rfl
  have hv := (List.getElem?_eq_some_iff.mp (hinv.values.stored _ (List.mem_of_getElem? hl) v rfl)).1
  have hge : w.returned.length ≤ v.origin := by
    have hlive := le_total (liveAs v.origin) (List.mem_of_getElem? hl)
    rw [liveAs, Option.elim_some, ofPut_self] at hlive
    exact h.returned_le hinv (by omega)
  by_contra hne
  have hlt : w.returned.length < w.puts.length := by omega
  -- the value the get is after
  obtain ⟨x, hx⟩ : ∃ x, w.puts[w.returned.length]? = some x := ⟨_, List.getElem?_eq_getElem hlt⟩
  cases hinv.located hx with
  | @inPut pc hpc hbrings =>
    have hin : pc.inPut = true := by
      cases pc <;> first | rfl | cases hbrings
    have hlast := h.put.busy pc hpc hin
    cases pc <;> cases hbrings <;> simp only [PutsInTurn] at hlast <;> omega
  | @inRing pos' item hitem hstate hval hl' =>
    -- in the same item, so it is the value that is live there
    have hpos' := h.live pos' _ hl'
    rw [hpos, hpos', hl'] at hl
    cases hl
    exact hne rfl
  | @inGet pc hpc htakes =>
    have hin : pc.inGet = true := by
      cases pc <;> first | rfl | cases htakes
    obtain ⟨t', ht'⟩ := List.mem_iff_getElem?.mp hpc
    rw [h.get.one t' t _ _ ht' ht hin rfl, ht] at ht'
    cases ht'
    cases htakes
  | returned hret =>
    obtain ⟨k, hk⟩ := List.mem_iff_getElem?.mp hret
    have hkn := h.returned k _ hk
    have hklt := (List.getElem?_eq_some_iff.mp hk).1
    simp only at hkn
    omega

/-- The position that a cursor gives out. -/
theorem and_mask_eq (hinv : Inv bsize w) (n : ℕ) : n &&& w.q.mask = n % 2 ^ bsize := by
  rw [hinv.mask, Nat.and_two_pow_sub_one_eq_mod]

/-- A value that is in the ring or with the get is none of an earlier round, so the put in progress does
not come to the item of another one. -/
theorem InOrder.origin_eq_of_mod (h : InOrder bsize w) {x : Tagged α}
    (hlast : v.origin + 1 = w.puts.length) (hput : w.puts[x.origin]? = some x.value)
    (hret : w.returned.length ≤ x.origin) (hmod : x.origin % 2 ^ bsize = v.origin % 2 ^ bsize) :
    x.origin = v.origin := by
  have hlt := (List.getElem?_eq_some_iff.mp hput).1
  have hroom : w.puts.length ≤ w.returned.length + 2 ^ bsize := h.room
  exact Stack.eq_of_mod_eq hmod (by omega) (by omega)

/-- Only the last value put is with its put, and no other place has it. -/
theorem not_twice (hinv : Inv bsize w) (ht : w.threads[t]? = some (.putSpin pos v false)) {x : Tagged α}
    (hx : 0 < total (liveAs x.origin) w.live + total (Pc.taking x.origin) w.threads) :
    x.origin ≠ v.origin := by
  intro heq
  have honce := hinv.values.once v.origin
  have hbrings := le_total (Pc.bringing v.origin) (List.mem_of_getElem? ht)
  have hself : Pc.bringing v.origin (.putSpin pos v false) = 1 := ofPut_self v
  rw [hself] at hbrings
  rw [heq] at hx
  split at honce <;> omega

/-- **The put in progress finds its item free.**  Were it not free, it would be held by another put, or
hold a value of the same item that has not been returned. -/
theorem InOrder.spinsFree (h : InOrder bsize w) (hinv : Inv bsize w) (a : Act α) :
    Ring.spinsFree w a = true := by
  unfold Ring.spinsFree
  split
  · rename_i t
    split
    · rename_i pos v ht
      rw [Option.all_eq_true]
      intro item hitem
      obtain ⟨-, hlast, hpos⟩ := h.put.busy _ (List.mem_of_getElem? ht) rfl
      obtain ⟨l, ph, hl, hslot⟩ := hinv.exists_live hitem
      -- no other put is in progress
      have halone : ∀ weight : Pc α → ℕ, (∀ pc, 0 < weight pc → pc.inPut = true) →
          weight (.putSpin pos v false) = 0 → total weight w.threads = 0 := by
        intro weight hin hzero
        refine total_eq_zero fun pc hpc => ?_
        by_contra hne
        obtain ⟨t', ht'⟩ := List.mem_iff_getElem?.mp hpc
        obtain rfl : t' = t := h.put.one t' t _ _ ht' ht (hin pc (Nat.pos_of_ne_zero hne)) rfl
        rw [ht] at ht'
        exact hne (Option.some.inj ht' ▸ hzero)
      -- a value of the same item would be an earlier one, not yet returned
      have hnone : ∀ x : Tagged α, w.puts[x.origin]? = some x.value → x.origin % 2 ^ bsize = pos →
          ¬0 < total (liveAs x.origin) w.live + total (Pc.taking x.origin) w.threads := by
        intro x hput hx hsomewhere
        exact not_twice hinv ht hsomewhere
          (h.origin_eq_of_mod hlast hput (h.returned_le hinv hsomewhere) (hx.trans hpos))
      cases ph with
      | free => exact beq_iff_eq.mpr hslot.state
      | claimed =>
        have hzero := halone (Pc.claiming pos) (fun pc hpc => by cases pc <;> first | rfl | cases hpc)
          rfl
        rw [hslot.claiming] at hzero
        cases hzero
      | filled =>
        have hzero := halone (Pc.storing pos) (fun pc hpc => by cases pc <;> first | rfl | cases hpc)
          rfl
        rw [hslot.storing] at hzero
        cases hzero
      | written | reading =>
        obtain ⟨x, rfl⟩ := Option.isSome_iff_exists.mp (show l.isSome = true from hslot.isLive)
        have hmem := List.mem_of_getElem? hl
        have hin := le_total (liveAs x.origin) hmem
        rw [liveAs, Option.elim_some, ofPut_self] at hin
        exact absurd (by omega) (hnone x (hinv.values.stored _ hmem x rfl) (h.live pos x hl))
      | emptied =>
        obtain ⟨pc, hpc, hat⟩ := exists_of_total_pos
          (show 0 < total (Pc.emptying pos) w.threads by rw [hslot.emptying]; exact Nat.one_pos)
        obtain ⟨x, rfl⟩ : ∃ x, pc = .getStore pos x := by
          cases pc with
          | getStore p x =>
            rw [Pc.emptying] at hat
            split at hat
            · rename_i hp
              exact ⟨x, hp ▸ rfl⟩
            · cases hat
          | _ => cases hat
        obtain ⟨-, horigin, hposx⟩ := h.get.busy _ hpc rfl
        have hin := le_total (Pc.taking x.origin) hpc
        have hself : Pc.taking x.origin (.getStore pos x) = 1 := ofPut_self x
        rw [hself] at hin
        exact absurd (by omega) (hnone x (hinv.values.taken _ hpc x rfl) (horigin ▸ hposx.symm))
    · rfl
  · rfl

/-- **One step** in a run of one put and one get at a time. -/
theorem inOrder_step {w' : World α} {a : Act α} (hinv : Inv bsize w) (h : InOrder bsize w)
    (hone : oneByOne bsize w a = true) (hstep : w.step a = some w') : InOrder bsize w' := by
  cases World.step_trans hstep with
  | @startPut t v ht =>
    obtain ⟨hnone, hroom⟩ : (∀ pc ∈ w.threads, pc.inPut = false) ∧
        w.puts.length < w.returned.length + 2 ^ bsize := by simpa [oneByOne] using hone
    have hputs : (w.puts ++ [v]).length = w.puts.length + 1 := by
      rw [List.length_append, List.length_singleton]
    refine ⟨Turn.enter hnone ht rfl ⟨h.put.free hnone, hputs.symm⟩, h.get.other ht rfl rfl, h.live,
      h.returned, ?_⟩
    show (w.puts ++ [v]).length ≤ w.returned.length + 2 ^ bsize
    rw [hputs]
    exact hroom
  | startGet ht =>
    have hnone : ∀ pc ∈ w.threads, pc.inGet = false := by simpa [oneByOne] using hone
    exact ⟨h.put.other ht rfl rfl, Turn.enter hnone ht rfl (h.get.free hnone), h.live, h.returned, h.room⟩
  | putTx ht =>
    obtain ⟨htx, hlast⟩ := h.put.busy _ (List.mem_of_getElem? ht) rfl
    refine ⟨h.put.move ht rfl rfl ⟨?_, hlast, ?_⟩, h.get.other ht rfl rfl, h.live, h.returned, h.room⟩
    · show w.q.tx + 1 = w.puts.length
      rw [htx, hlast]
    · rw [and_mask_eq hinv, htx]
  | claim ht hitem hstate =>
    have hbusy := h.put.busy _ (List.mem_of_getElem? ht) rfl
    exact ⟨h.put.move ht rfl rfl hbusy, h.get.other ht rfl rfl, h.live, h.returned, h.room⟩
  | leave ht hitem hstate =>
    have hbusy := h.put.busy _ (List.mem_of_getElem? ht) rfl
    exact ⟨h.put.move ht rfl rfl hbusy, h.get.other ht rfl rfl, h.live, h.returned, h.room⟩
  | @putCopy t pos v item ht hitem =>
    obtain ⟨htx, hlast, hpos⟩ := h.put.busy _ (List.mem_of_getElem? ht) rfl
    refine ⟨h.put.move ht rfl rfl htx, h.get.other ht rfl rfl, fun p x hx => ?_, h.returned, h.room⟩
    rcases getElem?_set_eq_some hx with ⟨rfl, heq⟩ | ⟨-, hold⟩
    · cases heq
      exact hpos.symm
    · exact h.live p x hold
  | putStore ht hitem =>
    have hbusy := h.put.busy _ (List.mem_of_getElem? ht) rfl
    exact ⟨h.put.move ht rfl rfl hbusy, h.get.other ht rfl rfl, h.live, h.returned, h.room⟩
  | putLen ht =>
    have hbusy := h.put.busy _ (List.mem_of_getElem? ht) rfl
    exact ⟨h.put.leave ht rfl rfl hbusy, h.get.other ht rfl rfl, h.live, h.returned, h.room⟩
  | getRx ht =>
    have hrx : w.q.rx = w.returned.length := h.get.busy _ (List.mem_of_getElem? ht) rfl
    refine ⟨h.put.other ht rfl rfl, h.get.move ht rfl rfl ⟨?_, ?_⟩, h.live, h.returned, h.room⟩
    · exact congrArg (· + 1) hrx
    · rw [and_mask_eq hinv, hrx]
      rfl
  | take ht hitem hstate =>
    have hbusy := h.get.busy _ (List.mem_of_getElem? ht) rfl
    exact ⟨h.put.other ht rfl rfl, h.get.move ht rfl rfl hbusy, h.live, h.returned, h.room⟩
  | @miss t block pos item ht hitem hstate =>
    have hbusy := h.get.busy _ (List.mem_of_getElem? ht) rfl
    cases block with
    | true => exact ⟨h.put.other ht rfl rfl, h.get.move ht rfl rfl hbusy, h.live, h.returned, h.room⟩
    | false =>
      have hfull : item.state = 2 := by simpa [oneByOne, ht, hitem] using hone
      exact absurd hfull hstate
  | getBack ht =>
    obtain ⟨hrx, -⟩ := h.get.busy _ (List.mem_of_getElem? ht) rfl
    refine ⟨h.put.other ht rfl rfl, h.get.move ht rfl rfl ?_, h.live, h.returned, h.room⟩
    show w.q.rx - 1 = w.returned.length
    rw [hrx, Nat.add_sub_cancel]
  | @getCopy t pos item v ht hitem hv =>
    obtain ⟨hrx, hpos⟩ := h.get.busy _ (List.mem_of_getElem? ht) rfl
    obtain ⟨l, ph, hl, hslot⟩ := hinv.exists_live hitem
    obtain rfl := hslot.eq_reading ht (by simp [Pc.copying])
    -- what is copied out of the item is the value that is live in it
    obtain ⟨x, rfl⟩ := Option.isSome_iff_exists.mp (show l.isSome = true from hslot.isLive)
    obtain rfl : v = x := Option.some.inj (hv.symm.trans (hslot.value x rfl))
    refine ⟨h.put.other ht rfl rfl, h.get.move ht rfl rfl ⟨hrx, h.origin_eq hinv ht hl, hpos⟩,
      fun p y hy => ?_, h.returned, h.room⟩
    rcases getElem?_set_eq_some hy with ⟨-, heq⟩ | ⟨-, hold⟩
    · cases heq
    · exact h.live p y hold
  | getStore ht hitem =>
    obtain ⟨hrx, horigin, -⟩ := h.get.busy _ (List.mem_of_getElem? ht) rfl
    exact ⟨h.put.other ht rfl rfl, h.get.move ht rfl rfl ⟨hrx, horigin⟩, h.live, h.returned, h.room⟩
  | @getLen t v ht =>
    obtain ⟨hrx, horigin⟩ := h.get.busy _ (List.mem_of_getElem? ht) rfl
    have hreturned : (w.returned ++ [v]).length = w.returned.length + 1 := by
      rw [List.length_append, List.length_singleton]
    refine ⟨h.put.other ht rfl rfl, h.get.leave ht rfl rfl (hrx.trans hreturned.symm), h.live,
      fun k x hx => ?_, ?_⟩
    · change (w.returned ++ [v])[k]? = some x at hx
      by_cases hk : k < w.returned.length
      · rw [List.getElem?_append_left hk] at hx
        exact h.returned k x hx
      · obtain ⟨hlt, -⟩ := List.getElem?_eq_some_iff.mp hx
        rw [List.length_append, List.length_singleton] at hlt
        obtain rfl : k = w.returned.length := by omega
        rw [List.getElem?_concat_length] at hx
        cases hx
        exact horigin
    · have hroom : w.puts.length ≤ w.returned.length + 2 ^ bsize := h.room
      show w.puts.length ≤ (w.returned ++ [v]).length + 2 ^ bsize
      omega

theorem inOrder_init (α : Type*) (bsize n : ℕ) : InOrder bsize (World.init α bsize n) := by
  have hidle : ∀ pc ∈ (World.init α bsize n).threads, pc = .idle := fun pc => List.eq_of_mem_replicate
  refine ⟨⟨fun t t' pc pc' ht _ hin _ => ?_, fun pc hpc hin => ?_, fun _ => rfl⟩,
    ⟨fun t t' pc pc' ht _ hin _ => ?_, fun pc hpc hin => ?_, fun _ => rfl⟩, fun pos v hv => ?_,
    fun k v hv => ?_, Nat.zero_le _⟩
  · rw [hidle pc (List.mem_of_getElem? ht)] at hin
    cases hin
  · rw [hidle pc hpc] at hin
    cases hin
  · rw [hidle pc (List.mem_of_getElem? ht)] at hin
    cases hin
  · rw [hidle pc hpc] at hin
    cases hin
  · cases List.eq_of_mem_replicate (List.mem_of_getElem? hv)
  · cases hv

end InOrder

/-- **One producer and one consumer at a time.**  For every `bsize`, any number of threads and every
interleaving of their steps in which at most one put and at most one get are in progress, a put begins
while fewer than `2 ^ bsize` values are undelivered and each get without blocking finds its item
filled: the values returned are the first of the values put, in the order of the puts. -/
theorem World.ring_in_order (bsize n : ℕ) {acts : List (Act α)} {w : World α}
    (hone : StepsMeet step (fun w a => oneByOne bsize w a = true) (init α bsize n) acts)
    (hrun : run step (init α bsize n) acts = some w) :
    w.returned.map Tagged.value = w.puts.take w.returned.length := by
  have hstep : ∀ (s : World α) (a : Act α) (s' : World α), Inv bsize s ∧ InOrder bsize s →
      oneByOne bsize s a = true → s.step a = some s' → Inv bsize s' ∧ InOrder bsize s' :=
    fun s a s' h hok hs => ⟨inv_step h.1 (h.2.spinsFree h.1 a) hs, inOrder_step h.1 h.2 hok hs⟩
  obtain ⟨hinv, horder⟩ :=
    run_invariant_of hstep hone hrun ⟨inv_init α bsize n, inOrder_init α bsize n⟩
  refine List.ext_getElem? fun k => ?_
  rw [List.getElem?_map, List.getElem?_take]
  by_cases hk : k < w.returned.length
  · have hget := List.getElem?_eq_getElem hk
    have hput := hinv.values.given _ (List.getElem_mem hk)
    rw [horder.returned k _ hget] at hput
    rw [hget, if_pos hk, hput]
    rfl
  · rw [List.getElem?_eq_none (Nat.not_lt.mp hk), if_neg hk]
    rfl

/-- Three values through a ring of two items, while each of the two threads overtakes the other. -/
def overlappingRun : List (Act ℕ) :=
  [.put 0 7, .maybeget 1 true, .step 1, .step 0, .step 1, .step 0, .step 1, .step 0, .step 0, .step 0,
    .step 1, .step 0, .put 0 8, .step 0, .step 1, .step 1, .step 0, .step 0, .step 1, .step 1, .step 0,
    .step 0, .step 0, .put 0 9, .maybeget 1 false, .step 1, .step 0, .step 1, .step 0, .step 1, .step 1,
    .step 1]

theorem ring_in_order_overlappingRun : ∃ w, run World.step (World.init ℕ 1 2) overlappingRun = some w ∧
    w.puts = [7, 8, 9] ∧ w.returned.map Tagged.value = [7, 8] ∧
    w.returned.map Tagged.value = w.puts.take w.returned.length := by
  obtain ⟨w, hrun, hobs⟩ := Option.map_eq_some_iff.mp
    (show (run World.step (World.init ℕ 1 2) overlappingRun).map
      (fun w => (w.puts, w.returned.map Tagged.value)) = some ([7, 8, 9], [7, 8]) by decide +kernel)
  rw [Prod.mk.injEq] at hobs
  exact ⟨w, hrun, hobs.1, hobs.2, World.ring_in_order 1 2 (by decide +kernel) hrun⟩

end WaterNet.Queue.Ring
