import WaterNet.Tcp.Fabric.Carriage
import WaterNet.Traffic.Forwarding

/-!
# Where a message comes from, across any number of nets

* `Stems` — a way back over connections to a net on which somebody sent the message;
* `Traced`, `traced_step` — everything that a connection has handed on has such a way;
* `returned_stems` — **nothing is made up or altered on the way**: a raw message that a `recv` returns
  anywhere was sent somewhere, with the same addresses and the same bytes, and each connection on its
  way has handed it on.
-/

namespace WaterNet.Tcp

open WaterNet.Lib.Machine (run StepsMeet run_invariant_of)
open WaterNet.Traffic (World rawReturned sentContents)

/-- What of a message goes over a connection: four addresses and the bytes. -/
abbrev Wire := ID × ID × ID × ID × List UInt8

namespace Fabric

section

variable {κ ι : Type} {terminate : TypeId}

/-- Nothing that is on record goes. -/
structure Grows (f f' : Fabric κ ι) : Prop where
  trace : ∀ i, ∀ ev ∈ (f.net i).trace, ev ∈ (f'.net i).trace
  handed : ∀ d, ∀ x ∈ (f.chan d).handed, x ∈ (f'.chan d).handed

/-- What was handed on was made a frame of. -/
theorem wire_mem_framed {T : Topology κ ι} {f : Fabric κ ι} (hok : Ok T f) {d : Direction κ} {x : Wire}
    (hx : x ∈ (f.chan d).handed.map wire) : x ∈ (f.chan d).framed.map wire := by
  rw [(hok.chans d).handed] at hx
  obtain ⟨y, hy, rfl⟩ := List.mem_map.mp hx
  exact List.mem_map_of_mem (List.mem_of_mem_take hy)

/-- What a `recv` returned was sent on that net, as it was returned. -/
theorem sent_of_returned {w : World} (hgood : w.Good) (hp : w.Passed fun _ _ => True) {e : EpId}
    {id : Traffic.RecvId} {copy msg : Message} {content : RawMessage.Internal}
    (hret : .returned e id copy msg content ∈ w.trace) (hraw : msg.isRaw = true) :
    ∃ m₀ content₀, .sent msg.origin m₀ content₀ ∈ w.trace ∧ m₀.isRaw = true ∧
      wire (m₀, content₀.dup) = wire (msg, content) := by
  obtain ⟨m₀, content₀, hsent, hheader, hraw₀, hcontent, -⟩ := hgood.provenance hp hret
  refine ⟨m₀, content₀, hsent, hraw₀.trans hraw, ?_⟩
  rw [hcontent hraw]
  simp only [Net.header, Prod.mk.injEq] at hheader
  obtain ⟨h1, h2, h3, h4, -⟩ := hheader
  rw [wire, wire, h1, h2, h3, h4]

variable [DecidableEq ι] [Fintype κ] {T : Topology κ ι} {f f' : Fabric κ ι}

/-- **The way of a message** to the net `i`: it was sent there by a thread that is not the `thread_rx`
of a connection, or it had come to the net of an end whose connection has handed it on to `i`. -/
inductive Stems (T : Topology κ ι) (f : Fabric κ ι) : ι → Wire → List (Direction κ) → Prop where
  | sent {i id m content} (hsent : .sent id m content ∈ (f.net i).trace) (hraw : m.isRaw = true)
      (hthread : T.ownsRx i id.thread = false) : Stems T f i (wire (m, content.dup)) []
  | crossed {d x path} (hstems : Stems T f (T.near d).net x path)
      (hhanded : x ∈ (f.chan d).handed.map wire) : Stems T f (T.far d).net x (path ++ [d])

theorem Stems.mono {i : ι} {x : Wire} {path : List (Direction κ)} (h : Stems T f i x path)
    (hg : Grows f f') : Stems T f' i x path := by
  induction h with
  | sent hsent hraw hthread => exact .sent (hg.trace _ _ hsent) hraw hthread
  | @crossed d x path _ hhanded ih =>
    obtain ⟨y, hy, hxy⟩ := List.mem_map.mp hhanded
    exact .crossed ih (List.mem_map.mpr ⟨y, hg.handed d y hy, hxy⟩)

/-- All that was handed on has a way to the net it was handed on from. -/
def Sourced (T : Topology κ ι) (f : Fabric κ ι) : Prop :=
  ∀ d, ∀ x ∈ (f.chan d).handed.map wire, ∃ path, Stems T f (T.near d).net x path

/-- **Every send has a way**, if what the connections have handed on has one. -/
theorem Sourced.stems_of_sent (h : Sourced T f) (hok : Ok T f) {i : ι} {id : SendId} {m : Message}
    {content : RawMessage.Internal} (hsent : .sent id m content ∈ (f.net i).trace)
    (hraw : m.isRaw = true) : ∃ path, Stems T f i (wire (m, content.dup)) path := by
  by_cases hthread : T.ownsRx i id.thread = true
  · -- a `thread_rx` has sent it, so it came over the connection of that thread
    obtain ⟨⟨k, w⟩, hnet, hrx⟩ := of_decide_eq_true hthread
    let d : Direction κ := (k, w.other)
    have hfar : T.far d = T.near (k, w) := by
      rw [Topology.far_eq_near, Which.other_other]
    have hmem : (m, content) ∈ sentContents (T.far d).rx (f.net (T.far d).net).trace := by
      rw [hfar, hnet, hrx]
      exact List.mem_filterMap.mpr ⟨_, hsent, by simp [Traffic.Event.sentWith]⟩
    have hdup : wire (m, content.dup) = wire (m, content) := by
      have hslice := ((RawMessage.Internal.dup_asSlice_eq_iff content).mpr ((hok.puts d).full _ hmem)).2
      rw [wire, wire, hslice]
    have hput : wire (m, content) ∈ (f.chan d).handed.map wire := by
      rw [← (hok.puts d).handed]
      exact List.mem_map_of_mem hmem
    obtain ⟨path, hpath⟩ := h d _ hput
    rw [hdup, ← hnet, ← hfar]
    exact ⟨path ++ [d], .crossed hpath hput⟩
  · exact ⟨[], .sent hsent hraw (Bool.eq_false_iff.mpr hthread)⟩

/-- What holds along a run besides `Ok`. -/
structure Traced (T : Topology κ ι) (f : Fabric κ ι) : Prop where
  ok : Ok T f
  passed : ∀ i, (f.net i).Passed fun _ _ => True
  sourced : Sourced T f

theorem Traced.stems_of_returned (h : Traced T f) {i : ι} {e : EpId} {id : Traffic.RecvId}
    {copy msg : Message} {content : RawMessage.Internal}
    (hret : .returned e id copy msg content ∈ (f.net i).trace) (hraw : msg.isRaw = true) :
    ∃ path, Stems T f i (wire (msg, content)) path := by
  obtain ⟨m₀, content₀, hsent, hraw₀, hwire⟩ :=
    sent_of_returned (h.ok.nets.good i) (h.passed i) hret hraw
  rw [← hwire]
  exact h.sourced.stems_of_sent h.ok hsent hraw₀

/-- The frames were made of messages that have a way. -/
theorem Traced.stems_of_framed (h : Traced T f) {d : Direction κ} {x : Wire}
    (hx : x ∈ (f.chan d).framed.map wire) : ∃ path, Stems T f (T.near d).net x path := by
  obtain ⟨y, hy, rfl⟩ := List.mem_map.mp hx
  obtain ⟨ev, hev, hat⟩ := List.mem_filterMap.mp ((h.ok.forwards d).framed.1.subset hy)
  cases ev with
  | returned e id copy msg content =>
    simp only [Traffic.Event.rawAt, Option.ite_none_right_eq_some, Option.some.injEq] at hat
    obtain ⟨⟨-, hraw⟩, rfl⟩ := hat
    exact h.stems_of_returned hev hraw
  | _ => cases hat

theorem traced_init (h : f.Init) : Traced T f := by
  refine ⟨ok_init h, fun i => World.passed_init (h.nets i), fun d x hx => ?_⟩
  rw [h.chans d] at hx
  cases hx

variable [DecidableEq κ] {a : Act κ ι}

theorem grows_trans (h : Trans terminate T f a f') : Grows f f' := by
  constructor
  · intro i ev hev
    obtain ⟨calls, -, hrun⟩ := net_step h i
    obtain ⟨evs, htrace⟩ := World.trace_run hrun
    rw [htrace]
    exact List.mem_append_left _ hev
  · have hchan : ∀ {d' : Direction κ} {c : Channel}, (∀ x ∈ (f.chan d').handed, x ∈ c.handed) →
        ∀ d, ∀ x ∈ (f.chan d).handed, x ∈ (Function.update f.chan d' c d).handed := by
      intro d' c hc d x hx
      by_cases hd : d = d'
      · subst hd
        rw [Function.update_self]
        exact hc x hx
      · rw [Function.update_of_ne hd]
        exact hx
    cases h with
    | net | recv | work => exact fun _ _ hx => hx
    | hello | write | read | ended | greet => exact hchan fun _ hx => hx
    | @forward d' w' msg rest htx hw hheld =>
      refine hchan fun _ hx => ?_
      unfold forward
      split
      · exact hx
      · split <;> exact hx
    | handed => exact hchan fun _ hx => List.mem_append_left _ hx

/-- No step both makes a frame and hands a message on. -/
theorem handed_or_framed_trans (h : Trans terminate T f a f') (d : Direction κ) :
    (f'.chan d).handed = (f.chan d).handed ∨ (f'.chan d).framed = (f.chan d).framed := by
  have hchan : ∀ {d' : Direction κ} {c : Channel},
      c.handed = (f.chan d').handed ∨ c.framed = (f.chan d').framed →
      (Function.update f.chan d' c d).handed = (f.chan d).handed ∨
        (Function.update f.chan d' c d).framed = (f.chan d).framed := by
    intro d' c hc
    by_cases hd : d = d'
    · subst hd
      rw [Function.update_self]
      exact hc
    · rw [Function.update_of_ne hd]
      exact Or.inl rfl
  cases h with
  | net | recv | work => exact Or.inl rfl
  | hello | write | read | ended | greet => exact hchan (Or.inl rfl)
  | @forward d' w' msg rest htx hw hheld =>
    refine hchan (Or.inl ?_)
    unfold forward
    split
    · rfl
    · split <;> rfl
  | handed => exact hchan (Or.inr rfl)

/-- **One clean step.** -/
theorem traced_step (hT : T.Proper) (hi : Traced T f) (hclean : f.clean a = true)
    (h : step terminate T f a = some f') : Traced T f' := by
  have htrans := step_trans h
  have hok := ok_step hT hi.ok hclean h
  have hpassed : ∀ i, (f'.net i).Passed fun _ _ => True :=
    net_invariant (P := fun w => w.Passed fun _ _ => True)
      (fun _ _ _ hw _ hstep => World.passed_trans (World.step_trans hstep) (fun _ _ _ => trivial) hw)
      htrans hclean hi.passed
  refine ⟨hok, hpassed, fun d x hx => ?_⟩
  have hold : ∃ path, Stems T f (T.near d).net x path := by
    rcases handed_or_framed_trans htrans d with hsame | hsame
    · rw [hsame] at hx
      exact hi.sourced d x hx
    · -- what is new was a frame before the step
      have hframed := wire_mem_framed hok hx
      rw [hsame] at hframed
      exact hi.stems_of_framed hframed
  obtain ⟨path, hpath⟩ := hold
  exact ⟨path, hpath.mono (grows_trans htrans)⟩

theorem traced_run (hT : T.Proper) (hinit : f.Init) {acts : List (Act κ ι)}
    (hclean : StepsMeet (step terminate T) (fun f a => f.clean a = true) f acts)
    (hrun : run (step terminate T) f acts = some f') : Traced T f' :=
  run_invariant_of (fun _ _ _ hi hc h => traced_step hT hi hc h) hclean hrun (traced_init hinit)

/-- **Nothing is made up or altered on the way.**  In every clean run, over any number of nets and
connections, a raw message that a `recv` has returned was sent on some net by a thread that is no
`thread_rx`, with the same addresses and with bytes whose duplicate it has, and a sequence of
connections leads from there to the net of the `recv` of which each has handed this message on. -/
theorem returned_stems (hT : T.Proper) (hinit : f.Init) {acts : List (Act κ ι)}
    (hclean : StepsMeet (step terminate T) (fun f a => f.clean a = true) f acts)
    (hrun : run (step terminate T) f acts = some f') {i : ι} {e : EpId} {id : Traffic.RecvId}
    {copy msg : Message} {content : RawMessage.Internal}
    (hret : .returned e id copy msg content ∈ (f'.net i).trace) (hraw : msg.isRaw = true) :
    ∃ path, Stems T f' i (wire (msg, content)) path :=
  (traced_run hT hinit hclean hrun).stems_of_returned hret hraw

end

/-- `crossing`, and the broadcast goes to the endpoint `0` of the net at the other end, where a thread
receives it. -/
def arriving : List (Act Unit Which) :=
  crossing ++ List.replicate 7 (Act.net .connector (.step 2)) ++ [Act.net .connector (.recv 0 0)] ++
    List.replicate 4 (Act.net .connector (.step 0))

theorem arriving_clean :
    StepsMeet (step 9 joined) (fun f a => f.clean a = true) joinedNets arriving := by
  decide +kernel

theorem arriving_trace : (run (step 9 joined) joinedNets arriving).map
      (fun f => (f.net .connector).trace.getLast?) =
    some (some (.returned 0 ⟨0, 0⟩ (crossed 1 2) (crossed 3 2) ⟨2, 2, [7, 7]⟩)) := by
  decide +kernel

theorem returned_stems_arriving : ∃ f, run (step 9 joined) joinedNets arriving = some f ∧
    ∃ path, Stems joined f .connector (100, 0x10000, 0, 0, [7, 7]) path := by
  obtain ⟨f, hrun, htrace⟩ := Option.map_eq_some_iff.mp arriving_trace
  exact ⟨f, hrun, returned_stems joined_proper joinedNets_init arriving_clean hrun
    (List.mem_of_getLast? htrace) rfl⟩

end Fabric

end WaterNet.Tcp
