import Mathlib.Data.List.Induction
import Mathlib.Data.List.Nodup
import WaterNet.Traffic.Flags

/-!
# What the traffic on a net guarantees

The invariants of the previous modules hold after every run from an initial state (`good_run`).
Read over the trace of such a run they are the guarantees a user of a net works with:

* `log_of_endpoint` — conservation and order: nothing put into a queue is lost, returned twice or
  overtaken by a later send of the same thread;
* `sync_returned_once` — a sync message is returned by exactly one `recv`;
* `queued_raw_isolated` — user code reaches no buffer of a queued raw message, and each receiver
  gets a buffer of its own with what the send found;
* `received_as_sent_iff` — a raw message arrives with the length and the bytes it was sent with
  exactly if its length was its capacity.
-/

namespace WaterNet.Traffic

open WaterNet.Lib.Machine (run run_invariant)
open WaterNet.Lib.Pool (total total_eq_zero)

namespace World

/-! ### All runs -/

/-- Everything the steps keep. -/
structure Good (w : World) : Prop where
  fifo : w.Fifo
  fate : w.Fate
  order : w.Order
  owned : ∃ own, Owned own w
  handedOut : w.HandedOut
  flags : w.Flags

theorem good_init {w : World} (h : Init w) : w.Good where
  fifo e := by simp [h.trace, h.queues, enqueued, dequeued]
  fate e c := by
    have hidle : total (processing e c) w.threads = 0 :=
      total_eq_zero fun th hth => by simp [processing, h.threads th hth]
    simp [h.trace, hidle, dequeued, returned, discarded]
  order := by
    refine ⟨h.distinct, ?_, ?_, ?_, fun t th m ht hpc => ?_, fun t th m todo ht hpend => ?_⟩
    · simp [h.trace, sends]
    · simp [h.trace, sends]
    · simp [h.trace, mine, enqueued]
    · rw [h.threads th (List.mem_of_getElem? ht)] at hpc
      cases hpc
    · rw [h.threads th (List.mem_of_getElem? ht)] at hpend
      cases hpend
  owned := ⟨_, owned_init h⟩
  handedOut := by
    constructor <;> simp [h.trace, handed]
  flags := by
    constructor
    · simp [h.trace, h.store, taken, Store.empty]
    · simp [h.trace]

theorem good_trans {w w' : World} (h : Trans w w') (hi : w.Good) : w'.Good := by
  obtain ⟨own, ho⟩ := hi.owned
  obtain ⟨own', -, ho'⟩ := owned_trans h ho
  exact ⟨fifo_trans h hi.fifo, fate_trans h hi.fate, order_trans h hi.order, ⟨own', ho'⟩,
    handedOut_trans h ho hi.handedOut, flags_trans h ho hi.flags⟩

theorem good_run {w₀ w : World} {acts : List Act} (hinit : Init w₀)
    (hrun : run step w₀ acts = some w) : w.Good :=
  run_invariant (fun _ _ _ hi h => good_trans (step_trans h) hi) hrun (good_init hinit)

/-! ### The two endpoints of the concrete runs -/

/-- Two idle threads and two endpoints on the net 100. -/
def pair : World :=
  { net := ((Net.new 100).newEndpoint 0).newEndpoint 1
    waitmutex := fun _ => false
    threads := [⟨.idle, 0, 0⟩, ⟨.idle, 0, 0⟩]
    held := []
    trace := [] }

theorem pair_init : Init pair := by
  refine ⟨by decide, rfl, fun _ => rfl, fun e => ?_, by decide, rfl, rfl⟩
  by_cases h1 : e = 1
  · subst h1
    rfl
  · by_cases h0 : e = 0
    · subst h0
      rfl
    · simp [pair, Net.newEndpoint, Net.addEndpoint, Net.new, Function.update_of_ne h1,
        Function.update_of_ne h0, Endpoint.new]

/-- The thread 0 makes a raw message of capacity 4, sets its length to 2 and sends it from the
endpoint 0; the thread 1 receives it at the endpoint 1. -/
def rawScript : List Act :=
  [Act.user (.newRaw (fun _ => 7) 4), .user (.write 0 (.setlen 2)), .send 0 0 (.send 0)] ++
    List.replicate 7 (Act.step 0) ++ [Act.recv 1 1] ++ List.replicate 4 (Act.step 1)

/-- The message of that run, in the buffer `b`. -/
def rawMsg (b : ℕ) : Message :=
  { srcsid := 100, srceid := 0x10000, dstsid := 0, dsteid := 0, canloop := false, payload := .raw ⟨b⟩ }

theorem rawScript_trace : (run step pair rawScript).map trace = some
    [.sent ⟨0, 0⟩ (rawMsg 0) ⟨2, 4, [7, 7, 7, 7]⟩, .put 1 (rawMsg 1), .got 1 ⟨1, 0⟩ (rawMsg 1),
      .returned 1 ⟨1, 0⟩ (rawMsg 1) (rawMsg 3) ⟨4, 4, [7, 7, 7, 7]⟩] := by
  decide +kernel

/-- The thread 0 broadcasts a sync message as nobody, and both endpoints receive. -/
def syncScript : List Act :=
  [Act.user (.newSync (fun _ => 0) 5 [1]), .send 0 0 .sendx] ++ List.replicate 9 (Act.step 0) ++
    [Act.recv 0 0, .recv 1 1] ++ List.replicate 4 (Act.step 0) ++ List.replicate 5 (Act.step 1)

def syncMsg : Message := Message.ofPayload (.sync ⟨5, 0, ⟨0⟩⟩)

theorem syncScript_trace : (run step pair syncScript).map trace = some
    [.sent ⟨0, 0⟩ syncMsg ⟨1, 1, [1]⟩, .put 0 syncMsg, .put 1 syncMsg, .got 0 ⟨0, 0⟩ syncMsg,
      .returned 0 ⟨0, 0⟩ syncMsg syncMsg ⟨1, 1, [1]⟩, .got 1 ⟨1, 0⟩ syncMsg,
      .discarded 1 ⟨1, 0⟩ syncMsg] := by
  decide +kernel

/-! ### Order and conservation -/

theorem Order.sends_nodup {w : World} (h : w.Order) (t : ℕ) : (sends t w.trace).Nodup :=
  (h.increasing t).imp fun hlt heq => by
    rw [heq] at hlt
    exact lt_irrefl _ hlt

/-- A send puts at most one copy into a queue. -/
theorem Order.origins_nodup {w : World} (h : w.Order) (e : EpId) :
    ((enqueued e w.trace).map Message.origin).Nodup := by
  rw [List.nodup_iff_count_le_one]
  intro id
  have hmine : (mine id.thread e w.trace).Nodup := (h.sends_nodup id.thread).sublist (h.kept _ e)
  have hcount := List.nodup_iff_count_le_one.mp hmine id
  rwa [mine, List.count_filter (by simp)] at hcount

/-- The copies of one queue are all different. -/
theorem Order.enqueued_nodup {w : World} (h : w.Order) (e : EpId) : (enqueued e w.trace).Nodup :=
  List.Nodup.of_map _ (h.origins_nodup e)

theorem Good.dequeued_nodup {w : World} (h : w.Good) (e : EpId) : (dequeued e w.trace).Nodup := by
  have henq := h.order.enqueued_nodup e
  rw [h.fifo e] at henq
  exact (List.nodup_append.mp henq).1

/-- **Conservation and order at an endpoint.**  After any run: what was put into its queue is what
was taken out followed by what is in it; every copy taken out is with the one `recv` working on
it, or was returned once, or was thrown away once; only a copy of a sync message that had been
returned before is thrown away; no send put two copies; and the copies of one thread were taken
out in the order of that thread's sends. -/
theorem log_of_endpoint {w₀ w : World} {acts : List Act} (hinit : Init w₀)
    (hrun : run step w₀ acts = some w) (e : EpId) :
    enqueued e w.trace = dequeued e w.trace ++ (w.net.eps e).messages ∧
    (∀ c ∈ dequeued e w.trace, total (processing e c) w.threads +
      (returned e w.trace).count c + (discarded e w.trace).count c = 1) ∧
    (∀ pre id c post, w.trace = pre ++ .discarded e id c :: post →
      ∃ f, c.flag = some f ∧ f ∈ taken pre) ∧
    ((enqueued e w.trace).map Message.origin).Nodup ∧
    ∀ t, (((dequeued e w.trace).map Message.origin).filter fun id => id.thread = t).Sublist
        (sends t w.trace) ∧
      (sends t w.trace).Pairwise fun a b => a.seq < b.seq := by
  have hgood := good_run hinit hrun
  have hpre : (dequeued e w.trace).Sublist (enqueued e w.trace) := by
    rw [hgood.fifo e]
    exact List.sublist_append_left _ _
  refine ⟨hgood.fifo e, fun c hc => ?_, fun pre => hgood.flags.late pre e, hgood.order.origins_nodup e,
    fun t => ⟨?_, hgood.order.increasing t⟩⟩
  · rw [← hgood.fate e c]
    exact List.count_eq_one_of_mem (hgood.dequeued_nodup e) hc
  · exact ((hpre.map Message.origin).filter _).trans (hgood.order.kept t e)

/-- Both threads are done with a sync message, which the endpoint 1 has thrown away. -/
theorem log_of_endpoint_sync :
    ∃ w, run step pair syncScript = some w ∧
      enqueued 1 w.trace = dequeued 1 w.trace ++ (w.net.eps 1).messages ∧
      (∀ c ∈ dequeued 1 w.trace, total (processing 1 c) w.threads +
        (returned 1 w.trace).count c + (discarded 1 w.trace).count c = 1) ∧
      (∀ pre id c post, w.trace = pre ++ .discarded 1 id c :: post →
        ∃ f, c.flag = some f ∧ f ∈ taken pre) ∧
      ((enqueued 1 w.trace).map Message.origin).Nodup ∧
      ∀ t, (((dequeued 1 w.trace).map Message.origin).filter fun id => id.thread = t).Sublist
          (sends t w.trace) ∧
        (sends t w.trace).Pairwise fun a b => a.seq < b.seq := by
  obtain ⟨w, hw, -⟩ := Option.map_eq_some_iff.mp syncScript_trace
  exact ⟨w, hw, log_of_endpoint pair_init hw 1⟩

/-! ### Sync messages -/

/-- Copies returned at two endpoints are two entries of the flag's list. -/
theorem returned_pair_le_taken {e e' : EpId} (hne : e ≠ e') {m : Message} {f : ℕ}
    (hf : m.flag = some f) (tr : List Event) :
    (returned e tr).count m + (returned e' tr).count m ≤ (taken tr).count f := by
  induction tr using List.reverseRecOn with
  | nil => simp [returned, taken]
  | append_singleton tr ev ih =>
    rw [returned_snoc, returned_snoc, taken_snoc, List.count_append, List.count_append,
      List.count_append]
    cases ev with
    | returned e₀ id copy msg content =>
      by_cases hc : copy = m
      · subst hc
        by_cases h : e₀ = e
        · have h' : e₀ ≠ e' := fun heq => hne (h.symm.trans heq)
          simp [h, hne, hf]
          omega
        · by_cases h' : e₀ = e'
          · simp [h', Ne.symm hne, hf]
            omega
          · simp [h, h']
            omega
      · simp only [Event.returnedAt, count_pick, hc, and_false, if_false]
        omega
    | _ => simpa using ih

/-- A copy that left the queue of `e`, with no `recv` at work on it, was returned or thrown away. -/
theorem Good.returned_or_discarded {w : World} (h : w.Good) {e : EpId} {m : Message}
    (hm : m ∈ dequeued e w.trace) (hdone : total (processing e m) w.threads = 0) :
    (returned e w.trace).count m + (discarded e w.trace).count m = 1 := by
  have hfate := h.fate e m
  rw [List.count_eq_one_of_mem (h.dequeued_nodup e) hm, hdone] at hfate
  omega

/-- The flag of a copy that was thrown away had been taken. -/
theorem Good.taken_of_discarded {w : World} (h : w.Good) {e : EpId} {m : Message} {f : ℕ}
    (hf : m.flag = some f) (hm : m ∈ discarded e w.trace) : f ∈ taken w.trace := by
  obtain ⟨ev, hev, hat⟩ := List.mem_filterMap.mp hm
  cases ev with
  | discarded e' id copy =>
    simp only [Event.discardedAt, Option.ite_none_right_eq_some, Option.some.injEq] at hat
    obtain ⟨rfl, rfl⟩ := hat
    obtain ⟨pre, post, heq⟩ := List.append_of_mem hev
    obtain ⟨f', hf', hmem⟩ := h.flags.late pre e' id copy post heq
    rw [hf] at hf'
    cases hf'
    rw [heq]
    simp only [taken, List.filterMap_append, List.mem_append]
    exact Or.inl hmem
  | _ => simp at hat

/-- Members of a list that are picked to the same value, when no value is picked twice. -/
theorem eq_of_nodup_filterMap {α β : Type} {f : α → Option β} {l : List α} {a b : α} {x : β}
    (hnd : (l.filterMap f).Nodup) (ha : a ∈ l) (hb : b ∈ l) (hfa : f a = some x)
    (hfb : f b = some x) : a = b := by
  induction l with
  | nil => cases ha
  | cons c l ih =>
    have hskip : ∀ y ∈ l, f y = some x → f c ≠ some x := by
      intro y hy hfy hfc
      rw [List.filterMap_cons_some hfc] at hnd
      exact (List.nodup_cons.mp hnd).1 (List.mem_filterMap.mpr ⟨y, hy, hfy⟩)
    have htail : (l.filterMap f).Nodup := hnd.sublist ((List.sublist_cons_self c l).filterMap f)
    rcases List.mem_cons.mp ha with rfl | ha' <;> rcases List.mem_cons.mp hb with rfl | hb'
    · rfl
    · exact absurd hfa (hskip b hb' hfb)
    · exact absurd hfb (hskip a ha' hfa)
    · exact ih htail ha' hb'

/-- The number of a send identifies it. -/
theorem Order.sent_unique {w : World} (h : w.Order) {id : SendId} {m m' : Message}
    {content content' : RawMessage.Internal} (hm : .sent id m content ∈ w.trace)
    (hm' : .sent id m' content' ∈ w.trace) : m = m' ∧ content = content' := by
  have heq := eq_of_nodup_filterMap (h.sends_nodup id.thread) hm hm' (x := id) (by simp) (by simp)
  cases heq
  exact ⟨rfl, rfl⟩

theorem isRaw_of_flag {m : Message} {f : ℕ} (hf : m.flag = some f) : m.isRaw = false := by
  obtain ⟨s, hs, -⟩ := Message.flag_eq_some.mp hf
  exact Message.isRaw_false_of_sync hs

/-- **A sync message is received exactly once.**  Let `m`, with the flag `f`, be sent once.  After
any run at most one `recv` has returned a copy with that flag, and what it returned is `m`.  Once
no queue holds `m` and no `recv` is at work on it, and if it was put into some queue, one `recv`
has returned it, at `e₀`, and the copy of every other endpoint was thrown away. -/
theorem sync_returned_once {w₀ w : World} {acts : List Act} (hinit : Init w₀)
    (hrun : run step w₀ acts = some w) {id : SendId} {m : Message} {content : RawMessage.Internal}
    {f : ℕ} (hsent : .sent id m content ∈ w.trace) (hf : m.flag = some f)
    (honce : ∀ id' m' content', .sent id' m' content' ∈ w.trace → m'.flag = some f → id' = id) :
    (taken w.trace).count f ≤ 1 ∧
    (∀ e rid copy msg c, .returned e rid copy msg c ∈ w.trace → copy.flag = some f →
      copy = m ∧ msg = m) ∧
    ((∃ e, m ∈ enqueued e w.trace) →
      (∀ e, m ∉ (w.net.eps e).messages ∧ total (processing e m) w.threads = 0) →
      (taken w.trace).count f = 1 ∧ ∃ e₀, m ∈ returned e₀ w.trace ∧ m ∉ discarded e₀ w.trace ∧
        ∀ e, e ≠ e₀ → m ∈ enqueued e w.trace → m ∈ discarded e w.trace ∧ m ∉ returned e w.trace) := by
  have hgood := good_run hinit hrun
  have hle : (taken w.trace).count f ≤ 1 := by
    rw [hgood.flags.once f]
    split <;> omega
  have hwhat : ∀ e rid copy msg c, .returned e rid copy msg c ∈ w.trace → copy.flag = some f →
      copy = m ∧ msg = m := by
    intro e rid copy msg c hret hcopy
    obtain ⟨hmade, m₀, content₀, ⟨hs, -, hsame⟩, -⟩ := hgood.handedOut.content e rid copy msg c hret
    have hmsg : msg = copy := hmade.same (isRaw_of_flag hcopy)
    subst hmsg
    have hm₀ : m₀ = msg := hsame (isRaw_of_flag hcopy)
    subst hm₀
    have hid := honce _ _ _ hs hcopy
    rw [hid] at hs
    have hm := (hgood.order.sent_unique hs hsent).1
    exact ⟨hm, hm⟩
  refine ⟨hle, hwhat, fun ⟨e₁, he₁⟩ hdone => ?_⟩
  -- every copy put into a queue was taken out, and then returned or thrown away
  have hout : ∀ e, m ∈ enqueued e w.trace →
      (returned e w.trace).count m + (discarded e w.trace).count m = 1 := by
    intro e he
    rw [hgood.fifo e] at he
    have hdeq := (List.mem_append.mp he).resolve_right (hdone e).1
    exact hgood.returned_or_discarded hdeq (hdone e).2
  -- the copy of `e₁` was returned, or a copy returned before it was thrown away
  have htaken : f ∈ taken w.trace := by
    have h1 := hout e₁ he₁
    rcases Nat.eq_zero_or_pos ((discarded e₁ w.trace).count m) with h0 | hpos
    · have hpair := returned_pair_le_taken (Nat.succ_ne_self e₁).symm hf w.trace
      exact List.count_pos_iff.mp (by omega)
    · exact hgood.taken_of_discarded hf (List.count_pos_iff.mp hpos)
  obtain ⟨e₀, hret⟩ : ∃ e₀, m ∈ returned e₀ w.trace := by
    obtain ⟨ev, hev, hflag⟩ := List.mem_filterMap.mp htaken
    cases ev with
    | returned e₀ rid copy msg c =>
      have hcopy := (hwhat e₀ rid copy msg c hev hflag).1
      exact ⟨e₀, List.mem_filterMap.mpr ⟨_, hev, by simp [hcopy]⟩⟩
    | _ => simp at hflag
  have hret₀ := List.count_pos_iff.mpr hret
  refine ⟨by have := List.count_pos_iff.mpr htaken; omega, e₀, hret, ?_, fun e hne he => ?_⟩
  · have hfate := hgood.fate e₀ m
    have hdeq := List.nodup_iff_count_le_one.mp (hgood.dequeued_nodup e₀) m
    exact List.count_eq_zero.mp (by omega)
  · have hpair := returned_pair_le_taken hne hf w.trace
    have hzero : (returned e w.trace).count m = 0 := by omega
    have h1 := hout e he
    exact ⟨List.count_pos_iff.mp (by omega), List.count_eq_zero.mp hzero⟩

/-- In the run of `syncScript` both endpoints got the message and the endpoint 0 returned it. -/
theorem sync_returned_once_pair :
    ∃ w, run step pair syncScript = some w ∧ (taken w.trace).count 0 ≤ 1 ∧
      (∀ e rid copy msg c, .returned e rid copy msg c ∈ w.trace → copy.flag = some 0 →
        copy = syncMsg ∧ msg = syncMsg) ∧
      ((∃ e, syncMsg ∈ enqueued e w.trace) →
        (∀ e, syncMsg ∉ (w.net.eps e).messages ∧ total (processing e syncMsg) w.threads = 0) →
        (taken w.trace).count 0 = 1 ∧
        ∃ e₀, syncMsg ∈ returned e₀ w.trace ∧ syncMsg ∉ discarded e₀ w.trace ∧
          ∀ e, e ≠ e₀ → syncMsg ∈ enqueued e w.trace →
            syncMsg ∈ discarded e w.trace ∧ syncMsg ∉ returned e w.trace) := by
  obtain ⟨w, hw, htrace⟩ := Option.map_eq_some_iff.mp syncScript_trace
  have hsent : .sent ⟨0, 0⟩ syncMsg ⟨1, 1, [1]⟩ ∈ w.trace := by simp [htrace]
  refine ⟨w, hw, sync_returned_once pair_init hw hsent rfl fun id' m' content' h _ => ?_⟩
  simp only [htrace, List.mem_cons, Event.sent.injEq, reduceCtorEq, List.not_mem_nil, or_false] at h
  exact h.1

/-! ### Raw messages -/

/-- A write through a held message changes the buffer of that message only. -/
theorem write_frame {w w' : World} {i : ℕ} {u : Message} {op : RawMessage.RawOp}
    (hu : w.held[i]? = some u) (h : w.userStep (.write i op) = some w') {b : ℕ} (hb : b ≠ u.buf) :
    w'.net.store.buf b = w.net.store.buf b := by
  simp only [userStep, hu, Option.bind_eq_bind, Option.bind_some, Option.bind_eq_some_iff] at h
  obtain ⟨b', -, h⟩ := h
  cases h
  exact Function.update_of_ne hb _ _

/-- **Isolation.**  After any run, nothing user code holds, or has handed to a send that has not
copied it yet, shares its buffer with a raw message in a queue; the raw messages that `recv`s
returned are in different buffers; no operation of user code changes the content of a queued raw
message, and a write changes no buffer but the one it is made through; and what a `recv` returned
is what the send it stems from found when it copied the message. -/
theorem queued_raw_isolated {w₀ w : World} {acts : List Act} (hinit : Init w₀)
    (hrun : run step w₀ acts = some w) :
    (∀ e, ∀ m ∈ (w.net.eps e).messages, m.isRaw = true →
      (∀ u ∈ w.held, u.buf ≠ m.buf) ∧ ∀ th ∈ w.threads, ∀ u ∈ th.pc.pending, u.buf ≠ m.buf) ∧
    (handed w.trace).Nodup ∧
    (∀ op w', w.userStep op = some w' → ∀ e, ∀ m ∈ (w.net.eps e).messages, m.isRaw = true →
      w'.net.store.buf m.buf = w.net.store.buf m.buf) ∧
    (∀ i u op w', w.held[i]? = some u → w.userStep (.write i op) = some w' → ∀ b, b ≠ u.buf →
      w'.net.store.buf b = w.net.store.buf b) ∧
    ∀ e rid copy msg content, .returned e rid copy msg content ∈ w.trace → msg.isRaw = true →
      ∃ m₀ content₀, .sent msg.origin m₀ content₀ ∈ w.trace ∧ m₀.isRaw = true ∧
        content = content₀.dup := by
  have hgood := good_run hinit hrun
  obtain ⟨own, ho⟩ := hgood.owned
  have hapart : ∀ {u m : Message}, UserOwned own w.net.store u → NetOwned own w.net.store w.trace m →
      m.isRaw = true → u.buf ≠ m.buf := by
    intro u m hu hm hraw heq
    have h := hu.owner
    rw [heq, hm.owner, hraw] at h
    cases h
  refine ⟨fun e m hm hraw => ⟨fun u hu => ?_, fun th hth u hu => ?_⟩, hgood.handedOut.nodup,
    fun op w' h e m hm hraw => ?_, fun i u op w' hu h b hb => write_frame hu h hb,
    fun e rid copy msg content hret hraw => ?_⟩
  · exact hapart (ho.held u hu) (ho.queued e m hm) hraw
  · exact hapart ((ho.threads th hth).pending u hu) (ho.queued e m hm) hraw
  · obtain ⟨own', hg, -⟩ := owned_user h ho
    have hnet := ho.queued e m hm
    exact hg.buf m.buf hnet.buf (by rw [hnet.owner, hraw])
  · obtain ⟨-, m₀, content₀, ⟨hs, hr, -⟩, hc⟩ := hgood.handedOut.content e rid copy msg content hret
    exact ⟨m₀, content₀, hs, by rw [hr, hraw], hc hraw⟩

/-- The thread 0 broadcasts a raw message as nobody and keeps a clone of it; both endpoints receive.
It broadcasts a second clone, and while the copies are queued it writes through the one it kept, and
the first receiver into what it got. -/
def isolatedScript : List Act :=
  [Act.user (.newRaw (fun _ => 7) 4), .user (.clone 0), .send 0 0 .sendx] ++
    List.replicate 9 (Act.step 0) ++ [Act.recv 0 0, .recv 1 1] ++ List.replicate 4 (Act.step 0) ++
    List.replicate 4 (Act.step 1) ++ [Act.user (.clone 0), .send 0 3 .sendx] ++
    List.replicate 9 (Act.step 0) ++
    [Act.user (.write 0 (.writeFromSlice 0 [1, 2])), .user (.write 1 (.writeFromSlice 0 [3]))]

/-- The copy of the second send. -/
def broadcastMsg : Message :=
  { srcsid := 0, srceid := 0, dstsid := 0, dsteid := 0, canloop := false, payload := .raw ⟨6⟩
    origin := ⟨0, 1⟩ }

/-- The buffers of messages, with their bytes. -/
def contents (w : World) (ms : List Message) : List (ℕ × List UInt8) :=
  ms.map fun m => (m.buf, (w.net.store.buf m.buf).buf)

theorem isolatedScript_end : (run step pair isolatedScript).map (fun w =>
    (w.contents w.held, [0, 1].map fun e => (w.net.eps e).messages, w.net.store.buf 6)) =
    some ([(0, [1, 2, 7, 7]), (3, [3, 7, 7, 7]), (5, [7, 7, 7, 7])], [[broadcastMsg], [broadcastMsg]],
      ⟨4, 4, [7, 7, 7, 7]⟩) := by
  decide +kernel

theorem queued_raw_isolated_pair :
    ∃ w, run step pair isolatedScript = some w ∧
      w.contents w.held = [(0, [1, 2, 7, 7]), (3, [3, 7, 7, 7]), (5, [7, 7, 7, 7])] ∧
      ([0, 1].map fun e => (w.net.eps e).messages) = [[broadcastMsg], [broadcastMsg]] ∧
      w.net.store.buf 6 = ⟨4, 4, [7, 7, 7, 7]⟩ ∧
      (∀ e, ∀ m ∈ (w.net.eps e).messages, m.isRaw = true →
        (∀ u ∈ w.held, u.buf ≠ m.buf) ∧ ∀ th ∈ w.threads, ∀ u ∈ th.pc.pending, u.buf ≠ m.buf) ∧
      (handed w.trace).Nodup ∧
      (∀ op w', w.userStep op = some w' → ∀ e, ∀ m ∈ (w.net.eps e).messages, m.isRaw = true →
        w'.net.store.buf m.buf = w.net.store.buf m.buf) ∧
      (∀ i u op w', w.held[i]? = some u → w.userStep (.write i op) = some w' → ∀ b, b ≠ u.buf →
        w'.net.store.buf b = w.net.store.buf b) ∧
      ∀ e rid copy msg content, .returned e rid copy msg content ∈ w.trace → msg.isRaw = true →
        ∃ m₀ content₀, .sent msg.origin m₀ content₀ ∈ w.trace ∧ m₀.isRaw = true ∧
          content = content₀.dup := by
  obtain ⟨w, hw, hend⟩ := Option.map_eq_some_iff.mp isolatedScript_end
  simp only [Prod.mk.injEq] at hend
  obtain ⟨hheld, hqueues, hqueued⟩ := hend
  exact ⟨w, hw, hheld, hqueues, hqueued, queued_raw_isolated pair_init hw⟩

/-- **What arrives.**  `dup` sets the length to the capacity, so a raw message is received with
the length and the bytes it was sent with exactly if its length was its capacity at the send. -/
theorem received_as_sent_iff {w₀ w : World} {acts : List Act} (hinit : Init w₀)
    (hrun : run step w₀ acts = some w) {id : SendId} {m : Message}
    {content : RawMessage.Internal} (hsent : .sent id m content ∈ w.trace) (hraw : m.isRaw = true)
    {e : EpId} {rid : RecvId} {copy msg : Message} {content' : RawMessage.Internal}
    (hret : .returned e rid copy msg content' ∈ w.trace) (hid : msg.origin = id) :
    (content'.len = content.len ∧ content'.asSlice = content.asSlice) ↔
      content.len = content.cap := by
  have hgood := good_run hinit hrun
  obtain ⟨-, m₀, content₀, ⟨hs, hr, -⟩, hc⟩ := hgood.handedOut.content e rid copy msg content' hret
  rw [hid] at hs
  obtain ⟨rfl, rfl⟩ := hgood.order.sent_unique hs hsent
  rw [hc (hr ▸ hraw)]
  exact RawMessage.Internal.dup_asSlice_eq_iff content₀

theorem received_as_sent_iff_pair :
    ∃ w, run step pair rawScript = some w ∧
      (((⟨4, 4, [7, 7, 7, 7]⟩ : RawMessage.Internal).len = 2 ∧
        (⟨4, 4, [7, 7, 7, 7]⟩ : RawMessage.Internal).asSlice =
          (⟨2, 4, [7, 7, 7, 7]⟩ : RawMessage.Internal).asSlice) ↔ (2 : UInt64) = 4) := by
  obtain ⟨w, hw, htrace⟩ := Option.map_eq_some_iff.mp rawScript_trace
  have hsent : .sent ⟨0, 0⟩ (rawMsg 0) ⟨2, 4, [7, 7, 7, 7]⟩ ∈ w.trace := by simp [htrace]
  have hret : .returned 1 ⟨1, 0⟩ (rawMsg 1) (rawMsg 3) ⟨4, 4, [7, 7, 7, 7]⟩ ∈ w.trace := by
    simp [htrace]
  exact ⟨w, hw, received_as_sent_iff pair_init hw hsent rfl hret rfl⟩

/-- Four bytes of capacity with the length set to 2: the receiver gets the length 4. -/
theorem not_received_as_sent :
    ∃ (w : World) (id : SendId) (m : Message) (content : RawMessage.Internal) (e : EpId)
      (rid : RecvId) (copy msg : Message) (content' : RawMessage.Internal),
      Init pair ∧ run step pair rawScript = some w ∧ .sent id m content ∈ w.trace ∧
      m.isRaw = true ∧ .returned e rid copy msg content' ∈ w.trace ∧ msg.origin = id ∧
      content.len = 2 ∧ content'.len = 4 ∧
      ¬(content'.len = content.len ∧ content'.asSlice = content.asSlice) := by
  obtain ⟨w, hw, htrace⟩ := Option.map_eq_some_iff.mp rawScript_trace
  refine ⟨w, ⟨0, 0⟩, rawMsg 0, ⟨2, 4, [7, 7, 7, 7]⟩, 1, ⟨1, 0⟩, rawMsg 1, rawMsg 3,
    ⟨4, 4, [7, 7, 7, 7]⟩, pair_init, hw, by simp [htrace], rfl, by simp [htrace], rfl, rfl, rfl, ?_⟩
  decide

end World

end WaterNet.Traffic
