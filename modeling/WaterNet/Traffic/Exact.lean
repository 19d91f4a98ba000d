import WaterNet.Traffic.Meter

/-!
# Exact memory accounting, one call at a time

With calls made one at a time, `memoryused` of an endpoint should be the capacity of what is in its
queue whenever no call is in progress.  Queue entries of clone and sync messages share their buffer
with the messages user code holds, so a `resize` by a holder changes what they weigh after `give`
has accounted for them.

* `World.alone` — calls are made one at a time;
* `World.spares` — the action is not a `resize` to another capacity of a queued buffer;
* `exact_iff` — **the accounting is exact all along a run exactly if every step spares the queued
  buffers**;
* `not_exact` — a sender keeps a clone of its message and resizes it: the counter of the receiver
  is wrong at once, and below zero after the `recv`.
-/

namespace WaterNet.Traffic

open WaterNet.Lib.Machine (run StepsMeet run_all_iff)
open WaterNet.Lib.Ledger (Stage Books)
open WaterNet.Lib.Pool (total total_eq_zero getElem?_set_eq_some)

namespace World

/-- No thread is in a call. -/
def quiet (w : World) : Bool := w.threads.all fun th => th.pc = .idle

/-- A step continues the call in progress; anything else starts when there is none. -/
def alone (w : World) : Act → Bool
  | .step _ => true
  | _ => w.quiet

/-- The action is not a `resize` to another capacity of a buffer that a queued message has. -/
def spares (w : World) : Act → Bool
  | .user (.write i (.resize _ newcap)) =>
    match w.held[i]? with
    | some m => newcap = m.cap w.net.store ||
        w.net.endpoints.all fun e => (w.net.eps e).messages.all fun q => q.buf != m.buf
    | none => true
  | _ => true

theorem quiet_iff {w : World} : w.quiet = true ↔ ∀ th ∈ w.threads, th.pc = .idle := by
  simp [quiet]

/-- At most one thread is in a call. -/
def OneCall (w : World) : Prop :=
  ∀ (i j : ℕ) (th th' : Thread), w.threads[i]? = some th → w.threads[j]? = some th' → th.pc ≠ .idle →
    th'.pc ≠ .idle → i = j

/-- A thread that takes a step is in a call, and no other thread moves. -/
theorem advance_threads {w w' : World} {t : ℕ} {th : Thread} (h : w.advance t th = some w') :
    th.pc ≠ .idle ∧ ∃ th', w'.threads = w.threads.set t th' := by
  have hidle : th.pc ≠ .idle := by
    intro hpc
    simp [advance, hpc] at h
  refine ⟨hidle, ?_⟩
  cases advance_cases h <;> exact ⟨_, rfl⟩

/-- If only the thread `t` may be in a call, only it may be after it moved. -/
theorem oneCall_set {w w' : World} {t : ℕ} {th' : Thread}
    (h : ∀ (j : ℕ) (th : Thread), w.threads[j]? = some th → th.pc ≠ .idle → j = t)
    (hthreads : w'.threads = w.threads.set t th') : w'.OneCall := by
  have hall : ∀ (j : ℕ) (th : Thread), w'.threads[j]? = some th → th.pc ≠ .idle → j = t := by
    intro j th hj hne
    rw [hthreads] at hj
    rcases getElem?_set_eq_some hj with ⟨rfl, -⟩ | ⟨-, hj⟩
    · rfl
    · exact h j th hj hne
  intro i j th th₁ hi hj hne hne₁
  rw [hall i th hi hne, hall j th₁ hj hne₁]

theorem oneCall_step {w w' : World} {a : Act} (hi : w.OneCall) (halone : w.alone a = true)
    (h : w.step a = some w') : w'.OneCall := by
  have hnone : w.quiet = true → ∀ (t j : ℕ) (th : Thread), w.threads[j]? = some th → th.pc ≠ .idle → j = t :=
    fun hq t j th hj hne => absurd (quiet_iff.mp hq th (List.mem_of_getElem? hj)) hne
  cases a with
  | user op =>
    unfold OneCall
    rw [(userStep_sameTraffic h).threads]
    exact hi
  | send t i how =>
    simp only [step, Option.bind_eq_bind, Option.bind_eq_some_iff, Option.ite_none_right_eq_some] at h
    obtain ⟨th, ht, m, hm, hpc, h⟩ := h
    cases h
    exact oneCall_set (hnone halone t) rfl
  | recv t e =>
    simp only [step, Option.bind_eq_bind, Option.bind_eq_some_iff, Option.ite_none_right_eq_some] at h
    obtain ⟨th, ht, hpc, h⟩ := h
    cases h
    exact oneCall_set (hnone halone t) rfl
  | step t =>
    simp only [step, Option.bind_eq_bind, Option.bind_eq_some_iff] at h
    obtain ⟨th, ht, h⟩ := h
    obtain ⟨hne, th', hthreads⟩ := advance_threads h
    exact oneCall_set (fun j th₁ hj hne₁ => hi j t th₁ th hj ht hne₁ hne) hthreads

/-- With one call in progress, no `recv` overtakes a `give`. -/
theorem OneCall.paid {w : World} (h : w.OneCall) (a : Act) : w.paid a = true := by
  cases a with
  | user | send | recv => rfl
  | step t =>
    rw [World.paid.eq_def]
    dsimp only
    split
    · rename_i e copy msg sent recvs ht
      rw [Bool.not_eq_true', List.any_eq_false]
      intro th₁ hth₁ hadding
      obtain ⟨j, hj⟩ := List.getElem?_of_mem hth₁
      have hne₁ : th₁.pc ≠ .idle := by
        intro hpc
        simp [hpc, Pc.isAdding] at hadding
      have hjt : j = t := h j t th₁ _ hj ht hne₁ (by simp)
      rw [hjt, ht] at hj
      cases Option.some.inj hj
      simp [Pc.isAdding] at hadding
    · rfl

theorem endpoints_trans {w w' : World} (h : Trans w w') : w'.net.endpoints = w.net.endpoints := by
  cases h with
  | user h => exact (userStep_sameTraffic h).endpoints
  | _ => rfl

/-- Nothing but a `resize` to another capacity of a queued buffer changes what a queue weighs. -/
theorem cap_user {w w' : World} {op : UserOp} (h : w.userStep op = some w')
    (hspares : w.spares (.user op) = true) {e : EpId} (he : e ∈ w.net.endpoints) {q : Message}
    (hq : q ∈ (w.net.eps e).messages) (hbuf : q.buf < w.net.store.nbuf) :
    q.cap w'.net.store = q.cap w.net.store := by
  by_cases hresize : (Act.user op).resizes = false
  · exact (capsKept_user h hresize).cap_eq hbuf
  · unfold Act.resizes at hresize
    split at hresize
    · rename_i i junk newcap heq
      cases heq
      simp only [userStep, Option.bind_eq_bind, Option.bind_eq_some_iff] at h
      obtain ⟨m, hm, b, hb, h⟩ := h
      cases h
      cases hb
      simp only [spares, hm, Bool.or_eq_true, decide_eq_true_eq, List.all_eq_true, bne_iff_ne,
        ne_eq] at hspares
      rw [q.cap_eq, q.cap_eq]
      show ((w.net.store.setBuf ⟨m.buf⟩ _).buf q.buf).cap = _
      by_cases hqm : q.buf = m.buf
      · rcases hspares with hcap | hnot
        · rw [hqm, Store.setBuf_buf_self, ← m.cap_eq]
          exact hcap
        · exact absurd hqm (hnot e he q hq)
      · rw [Store.setBuf_buf_of_ne _ _ hqm]
    · exact absurd rfl hresize

end World

namespace Metered

/-! ### What the queues weigh -/

/-- The capacities of the messages in the queue of `e`. -/
def queued (x : Metered) (e : EpId) : ℕ :=
  ((x.world.net.eps e).messages.map (size x.world.net.store)).sum

/-- The accounting of every endpoint of the net: its counter has not gone below zero, the counter
of the code shows it, and when no call is in progress it is what the queue weighs. -/
def Accounted (x : Metered) : Prop :=
  ∀ e ∈ x.world.net.endpoints, 0 ≤ x.meter e ∧
    ((x.world.net.eps e).memoryused.toNat : ℤ) = x.meter e % 2 ^ 64 ∧
    (x.world.quiet = true → x.meter e = x.queued e)

/-- What the steps keep, for the endpoints `es`. -/
structure Exact (es : List EpId) (x : Metered) : Prop where
  endpoints : x.world.net.endpoints = es
  balanced : x.Balanced (· ∈ es)
  oneCall : x.world.OneCall
  shows : x.Shows

theorem exact_start {w : World} (hinit : World.Init w) (hzero : ∀ e, (w.net.eps e).memoryused = 0) :
    (start w).Exact w.net.endpoints where
  endpoints := rfl
  balanced := balanced_start hinit _
  oneCall _ _ th _ hi _ hne _ := absurd (hinit.threads th (List.mem_of_getElem? hi)) hne
  shows e := by
    rw [start, hzero e]
    rfl

/-- With no call in progress nothing is owed and nothing is in a hand. -/
theorem Balanced.eq_queued {S : EpId → Prop} {x : Metered} (h : x.Balanced S) {e : EpId} (he : S e)
    (hquiet : x.world.quiet = true) : x.meter e = x.queued e := by
  have hout : ∀ s ∈ x.world.threads.map fun th => th.pc.stage e, s = .outside := by
    intro s hs
    obtain ⟨th, hth, rfl⟩ := List.mem_map.mp hs
    rw [World.quiet_iff.mp hquiet th hth]
    rfl
  have howed : total (Stage.owed (size x.world.net.store))
      (x.world.threads.map fun th => th.pc.stage e) = 0 :=
    total_eq_zero fun s hs => by rw [hout s hs]; rfl
  have hheld : total (Stage.held (size x.world.net.store))
      (x.world.threads.map fun th => th.pc.stage e) = 0 :=
    total_eq_zero fun s hs => by rw [hout s hs]; rfl
  have heven := (h.books e he).even
  rw [howed, hheld] at heven
  simpa [queued] using heven

theorem Exact.accounted {es : List EpId} {x : Metered} (h : x.Exact es) : x.Accounted := by
  intro e he
  rw [h.endpoints] at he
  exact ⟨(h.balanced.books e he).nonneg, h.shows e, h.balanced.eq_queued he⟩

theorem exact_step {es : List EpId} {x x' : Metered} {a : Act} (hi : x.Exact es)
    (halone : x.world.alone a = true) (hspares : x.world.spares a = true)
    (h : x.step a = some x') : x'.Exact es := by
  obtain ⟨w', hw, hx'⟩ := Option.map_eq_some_iff.mp h
  have hworld : x'.world = w' := by rw [← hx']
  refine ⟨?_, balanced_step hi.balanced (fun op ha => ?_) (hi.oneCall.paid a) h, ?_,
    shows_step h hi.shows⟩
  · rw [hworld, World.endpoints_trans (World.step_trans hw)]
    exact hi.endpoints
  · subst ha
    obtain ⟨own, ho⟩ := hi.balanced.owned
    rw [hworld]
    refine ⟨fun e he q hq => ?_, fun th hth m hm => ?_⟩
    · rw [← hi.endpoints] at he
      exact World.cap_user hw hspares he hq (ho.queued e q hq).buf
    · -- user calls are made between calls on the net, which then carry nothing
      rw [World.quiet_iff.mp halone th hth] at hm
      cases hm
  · rw [hworld]
    exact World.oneCall_step hi.oneCall halone hw

/-- Sizes that change for the messages in one buffer change the sum over a queue that has one. -/
theorem sum_size_ne {f g : Message → ℕ} {q : List Message} {b n n' : ℕ} (hne : n ≠ n')
    (hf : ∀ m, m.buf = b → f m = n) (hg : ∀ m, m.buf = b → g m = n')
    (hsame : ∀ m, m.buf ≠ b → g m = f m) {m : Message} (hm : m ∈ q) (hb : m.buf = b) :
    (q.map g).sum ≠ (q.map f).sum := by
  rcases Nat.lt_or_gt_of_ne hne with hlt | hgt
  · refine (List.sum_lt_sum f g (fun x _ => ?_) ⟨m, hm, ?_⟩).ne'
    · by_cases hx : x.buf = b
      · rw [hf x hx, hg x hx]
        exact hlt.le
      · exact (hsame x hx).ge
    · rw [hf m hb, hg m hb]
      exact hlt
  · refine (List.sum_lt_sum g f (fun x _ => ?_) ⟨m, hm, ?_⟩).ne
    · by_cases hx : x.buf = b
      · rw [hf x hx, hg x hx]
        exact hgt.le
      · exact (hsame x hx).le
    · rw [hf m hb, hg m hb]
      exact hgt

/-- **A `resize` of a queued buffer breaks the accounting at once.** -/
theorem not_accounted_of_not_spares {es : List EpId} {x x' : Metered} {a : Act} (hi : x.Exact es)
    (halone : x.world.alone a = true) (hspares : ¬x.world.spares a = true)
    (h : x.step a = some x') : ¬x'.Accounted := by
  intro hacc
  obtain ⟨w', hw, rfl⟩ := Option.map_eq_some_iff.mp h
  unfold World.spares at hspares
  split at hspares
  · rename_i i junk newcap
    split at hspares
    · rename_i m hm
      simp only [Bool.or_eq_true, decide_eq_true_eq, List.all_eq_true, bne_iff_ne, ne_eq, not_or,
        not_forall, not_not] at hspares
      obtain ⟨hcap, e, he, q, hq, hqm⟩ := hspares
      have hw' := hw
      simp only [World.step, World.userStep, hm, Option.bind_eq_bind, Option.bind_some,
        RawMessage.RawOp.apply, Option.some.injEq] at hw'
      have huser : x.world.userStep (.write i (.resize junk newcap)) = some w' := hw
      have htraffic := World.userStep_sameTraffic huser
      have hquiet : w'.quiet = true := by
        rw [World.quiet, htraffic.threads]
        exact halone
      -- the counter has not moved, and the queue weighs something else
      have hafter : x.meter e + 0 = _ := (hacc e (by rw [← htraffic.endpoints] at he; exact he)).2.2 hquiet
      rw [add_zero, hi.balanced.eq_queued (hi.endpoints ▸ he) halone] at hafter
      have hstore : w'.net.store = x.world.net.store.setBuf ⟨m.buf⟩
          ((x.world.net.store.buf m.buf).resize junk newcap) := by rw [← hw']; rfl
      have hsum : ((w'.net.eps e).messages.map (size w'.net.store)).sum ≠
          ((w'.net.eps e).messages.map (size x.world.net.store)).sum := by
        refine sum_size_ne (b := m.buf) (n := (m.cap x.world.net.store).toNat) (m := q)
          (fun hn => hcap (UInt64.toNat_inj.mp hn.symm)) (fun m' hm' => ?_) (fun m' hm' => ?_)
          (fun m' hm' => ?_) (by rw [htraffic.queues]; exact hq) hqm
        · rw [size, m'.cap_eq, m.cap_eq, hm']
        · rw [size, m'.cap_eq, hstore, hm', Store.setBuf_buf_self]
          rfl
        · rw [size, size, m'.cap_eq, m'.cap_eq, hstore, Store.setBuf_buf_of_ne _ _ hm']
      refine hsum ?_
      rw [htraffic.queues] at hsum ⊢
      have hnat := Nat.cast_inj.mp hafter
      unfold queued at hnat
      simpa [htraffic.queues] using hnat.symm
    · exact hspares rfl
  · exact hspares rfl

/-- **Exact accounting.**  Along a run of calls made one at a time the accounting of every endpoint
is right in every state — never below zero, shown by `memoryused`, and equal to the capacities in
the queue whenever no call is in progress — exactly if no step resizes, to another capacity, a
buffer that a queued message has. -/
theorem exact_iff {w₀ : World} (hinit : World.Init w₀) (hzero : ∀ e, (w₀.net.eps e).memoryused = 0)
    {acts : List Act} {x : Metered}
    (halone : StepsMeet step (fun x a => x.world.alone a = true) (start w₀) acts)
    (hrun : run step (start w₀) acts = some x) :
    (∀ pre post y, acts = pre ++ post → run step (start w₀) pre = some y → y.Accounted) ↔
      StepsMeet step (fun x a => x.world.spares a = true) (start w₀) acts := by
  have hgood : ∀ y : Metered, y.Exact w₀.net.endpoints → y.Accounted := fun y h => h.accounted
  exact run_all_iff hgood (fun _ _ _ hi hal hsp h => exact_step hi hal hsp h)
    (fun _ _ _ hi hal hsp h => not_accounted_of_not_spares hi hal hsp h) halone hrun
    (exact_start hinit hzero)

/-- The thread 0 sends a clone message of two bytes from the endpoint 0 and keeps a clone. -/
def keepingScript : List Act :=
  [.user (.newClone (fun _ => 0) 5 [1, 2]), .user (.clone 0), .send 0 0 (.send 0)] ++
    List.replicate 7 (.step 0)

/-- The thread 1 receives at the endpoint 1. -/
def receivingScript : List Act := [.recv 1 1] ++ List.replicate 4 (.step 1)

/-- The first message user code holds gets a buffer of sixteen bytes. -/
def resizing : Act := .user (.write 0 (.resize (fun _ => 0) 16))

/-- Resized after it was received, the message is in no queue any more. -/
theorem exact_iff_keepingScript :
    ∃ x, run step (start World.pair) (keepingScript ++ receivingScript ++ [resizing]) = some x ∧
      ((∀ pre post y, keepingScript ++ receivingScript ++ [resizing] = pre ++ post →
        run step (start World.pair) pre = some y → y.Accounted) ↔
        StepsMeet step (fun x a => x.world.spares a = true) (start World.pair)
          (keepingScript ++ receivingScript ++ [resizing])) ∧
      StepsMeet step (fun x a => x.world.spares a = true) (start World.pair)
        (keepingScript ++ receivingScript ++ [resizing]) := by
  have hrun : (run step (start World.pair) (keepingScript ++ receivingScript ++ [resizing])).map
      (fun x => x.meter 1) = some 0 := by
    decide +kernel
  obtain ⟨x, hx, -⟩ := Option.map_eq_some_iff.mp hrun
  exact ⟨x, hx, exact_iff World.pair_init pair_zero (by decide +kernel) hx, by decide +kernel⟩

/-- The sender resizes the clone it kept: the queue of the endpoint 1 weighs sixteen bytes, of
which two are accounted for, and its `recv` subtracts sixteen. -/
theorem not_exact :
    ∃ (w₀ : World) (x y : Metered), World.Init w₀ ∧ (∀ e, (w₀.net.eps e).memoryused = 0) ∧
      StepsMeet step (fun x a => x.world.alone a = true) (start w₀)
        (keepingScript ++ [resizing] ++ receivingScript) ∧
      run step (start w₀) (keepingScript ++ [resizing]) = some x ∧ x.world.quiet = true ∧
      1 ∈ x.world.net.endpoints ∧ x.meter 1 = 2 ∧ x.queued 1 = 16 ∧ ¬x.Accounted ∧
      run step (start w₀) (keepingScript ++ [resizing] ++ receivingScript) = some y ∧
      y.meter 1 = -14 ∧ (y.world.net.eps 1).memoryused = 0xfffffffffffffff2 ∧ ¬y.Accounted := by
  have hx : (run step (start World.pair) (keepingScript ++ [resizing])).map
      (fun x => (x.world.quiet, x.world.net.endpoints, x.meter 1, x.queued 1)) =
        some (true, [0, 1], 2, 16) := by
    decide +kernel
  have hy : (run step (start World.pair) (keepingScript ++ [resizing] ++ receivingScript)).map
      (fun y => (y.world.net.endpoints, y.meter 1, (y.world.net.eps 1).memoryused)) =
        some ([0, 1], -14, 0xfffffffffffffff2) := by
    decide +kernel
  obtain ⟨x, hrunx, hviewx⟩ := Option.map_eq_some_iff.mp hx
  obtain ⟨y, hruny, hviewy⟩ := Option.map_eq_some_iff.mp hy
  simp only [Prod.mk.injEq] at hviewx hviewy
  obtain ⟨hquiet, hends, hmeter, hqueued⟩ := hviewx
  obtain ⟨hends', hmeter', hused⟩ := hviewy
  have hmem : 1 ∈ x.world.net.endpoints := by
    rw [hends]
    decide
  refine ⟨World.pair, x, y, World.pair_init, pair_zero, by decide +kernel, hrunx, hquiet, hmem,
    hmeter, hqueued, fun hacc => ?_, hruny, hmeter', hused, fun hacc => ?_⟩
  · have heq := (hacc 1 hmem).2.2 hquiet
    rw [hmeter, hqueued] at heq
    exact absurd heq (by decide)
  · have hpos := (hacc 1 (by rw [hends']; decide)).1
    rw [hmeter'] at hpos
    exact absurd hpos (by decide)

end Metered

end WaterNet.Traffic
