import WaterNet.Tcp.Confinement
import WaterNet.Tcp.Fabric.Origin

/-!
# How far a message can go

A message leaves a net only through the queue of a bridge endpoint, whose sid is `UNUSED_ID` or, once
`thread_rx` has read it, the sid of the net at the other end.

* `Filters` — the addresses of the bridge endpoints of a net, and what they have let pass;
* `ways_confined` — **between nets of different sids** a message for the local net never crosses a
  connection, and one for another net crosses at most one, to that net; only broadcasts, and messages
  for `UNUSED_ID`, go on from there.
-/

namespace WaterNet.Tcp

open WaterNet.Lib.Machine (run StepsMeet run_invariant_of)
open WaterNet.Traffic (World)

/-- The filter of a bridge endpoint: what it accepts may leave. -/
theorem MayLeave.of_accepts {net : Net} {e : EpId} {peer : ID} {msg : Message}
    (hadopted : (net.eps e).address.sid = UNUSED_ID ∨ (net.eps e).address.sid = peer)
    (hne : net.sid ≠ peer) (hunused : net.sid ≠ UNUSED_ID) (hacc : net.accepts msg e = true) :
    MayLeave peer msg.dstsid := by
  rw [Net.accepts, Bool.and_eq_true, Endpoint.Internal.routes_iff] at hacc
  obtain ⟨⟨-, hdst, -⟩, -⟩ := hacc
  rcases hdst with h0 | ⟨-, hlocal⟩ | ⟨-, -, hsid⟩
  · exact Or.inl h0
  · rcases hadopted with ha | ha
    · exact absurd (hlocal.symm.trans ha) hunused
    · exact absurd (hlocal.symm.trans ha) hne
  · rcases hadopted with ha | ha
    · exact Or.inr (Or.inr (hsid.trans ha))
    · exact Or.inr (Or.inl (hsid.trans ha))

namespace Fabric

section

variable {κ ι : Type} {terminate : TypeId} {T : Topology κ ι} {sid : ι → ID}

/-- A message with this header may go out over the connection whose endpoint `e` is on the net `i`. -/
def Leaves (T : Topology κ ι) (sid : ι → ID) (i : ι) (e : EpId) (h : Header) : Prop :=
  ∀ d, (T.near d).net = i → (T.near d).ep = e → MayLeave (sid (T.far d).net) h.2.2.1

/-- The sids of a network: the two ends of a connection are on nets of different sids, and no net has
one of those with a meaning of their own. -/
structure Apart (T : Topology κ ι) (sid : ι → ID) : Prop where
  ends : ∀ d, sid (T.near d).net ≠ sid (T.far d).net
  notLocal : ∀ i, sid i ≠ 1
  notUnused : ∀ i, sid i ≠ UNUSED_ID

/-- A bridge endpoint of the net `i` has no sid or that of the other end, and all that went through one
may leave. -/
structure Filters (T : Topology κ ι) (sid : ι → ID) (i : ι) (w : World) : Prop where
  own : w.net.sid = sid i
  adopted : ∀ d, (T.near d).net = i → (w.net.eps (T.near d).ep).address.sid = UNUSED_ID ∨
    (w.net.eps (T.near d).ep).address.sid = sid (T.far d).net
  passed : w.Passed (Leaves T sid i)

theorem Filters.leaves (hsid : Apart T sid) {i : ι} {w : World} (hi : Filters T sid i w) {e : EpId}
    {m : Message} (hacc : w.net.accepts m e = true) : Leaves T sid i e (Net.header m) := by
  rintro d rfl rfl
  refine MayLeave.of_accepts (hi.adopted d rfl) ?_ ?_ hacc
  · rw [hi.own]
    exact hsid.ends d
  · rw [hi.own]
    exact hsid.notUnused _

/-- One call that does not set the address of a bridge endpoint. -/
theorem Filters.step (hsid : Apart T sid) {i : ι} {w w' : World} {x : Traffic.Act}
    (hi : Filters T sid i w)
    (hx : ∀ d, (T.near d).net = i → ∀ address, x ≠ .user (.setAddress (T.near d).ep address))
    (hw : w.step x = some w') : Filters T sid i w' where
  own := (World.sid_step hw).trans hi.own
  adopted d hd := by
    rw [World.address_step hw (hx d hd)]
    exact hi.adopted d hd
  passed := World.passed_trans (World.step_trans hw) (fun _ _ hacc => hi.leaves hsid hacc) hi.passed

/-- What was made a frame of may leave. -/
theorem leaves_of_framed {f : Fabric κ ι} {d : Direction κ} (hforwards : Forwards T f d)
    (hi : Filters T sid (T.near d).net (f.net (T.near d).net)) {x : Wire}
    (hx : x ∈ (f.chan d).framed.map wire) : MayLeave (sid (T.far d).net) x.2.2.1 := by
  obtain ⟨y, hy, rfl⟩ := List.mem_map.mp hx
  obtain ⟨ev, hev, hat⟩ := List.mem_filterMap.mp (hforwards.framed.1.subset hy)
  cases ev with
  | returned e id copy msg content =>
    simp only [Traffic.Event.rawAt, Option.ite_none_right_eq_some, Option.some.injEq] at hat
    obtain ⟨⟨rfl, -⟩, rfl⟩ := hat
    exact (hi.passed.returned _ _ _ _ _ hev).2 d rfl rfl
  | _ => cases hat

/-- `thread_rx` has the sid of the other end. -/
theorem Filters.greet (hT : T.Proper) (hsid : Apart T sid) {d' : Direction κ} {w : World}
    (hi : Filters T sid (T.far d').net w) {rsid : ID} (hrsid : rsid = sid (T.near d').net) :
    Filters T sid (T.far d').net (w.setEp (T.far d').ep { w.net.eps (T.far d').ep with
      address := { (w.net.eps (T.far d').ep).address with sid := rsid } }) where
  own := hi.own
  adopted d hd := by
    by_cases he : (T.near d).ep = (T.far d').ep
    · obtain rfl : d = (d'.1, d'.2.other) := hT.ep d (d'.1, d'.2.other) hd he
      refine Or.inr ?_
      simp only [World.setEp, he, Function.update_self, hrsid, Topology.far_eq_near, Which.other_other]
    · simpa [World.setEp, Function.update_of_ne he] using hi.adopted d hd
  passed := by
    have hstep : w.step (.user (.setAddress (T.far d').ep
        { (w.net.eps (T.far d').ep).address with sid := rsid })) = some (w.setEp (T.far d').ep
      { w.net.eps (T.far d').ep with
        address := { (w.net.eps (T.far d').ep).address with sid := rsid } }) := rfl
    exact World.passed_trans (World.step_trans hstep) (fun _ _ hacc => hi.leaves hsid hacc) hi.passed

variable [DecidableEq ι] [Fintype κ] {f f' : Fabric κ ι}

/-- What holds of every way: a message that has come over a connection was let out there. -/
structure Routed (T : Topology κ ι) (sid : ι → ID) (f : Fabric κ ι) : Prop where
  ok : Ok T f
  filters : ∀ i, Filters T sid i (f.net i)

/-- **A way has at most one connection**, unless the message is for everyone or for `UNUSED_ID`. -/
theorem Routed.way (h : Routed T sid f) (hsid : Apart T sid) {i : ι} {x : Wire}
    {path : List (Direction κ)} (hway : Stems T f i x path) (h0 : x.2.2.1 ≠ 0)
    (hunused : x.2.2.1 ≠ UNUSED_ID) :
    path = [] ∨ ∃ d, path = [d] ∧ (T.far d).net = i ∧ x.2.2.1 = sid i := by
  induction hway with
  | sent => exact Or.inl rfl
  | @crossed d x path _ hhanded ih =>
    have hdst : x.2.2.1 = sid (T.far d).net := by
      rcases leaves_of_framed (h.ok.forwards d) (h.filters _) (wire_mem_framed h.ok hhanded) with
        hd | hd | hd
      · exact absurd hd h0
      · exact hd
      · exact absurd hd hunused
    refine Or.inr ⟨d, ?_, rfl, hdst⟩
    rcases ih h0 hunused with rfl | ⟨d', rfl, hnet, hdst'⟩
    · rfl
    · -- it would have been on the net it is for before it left that net
      exact absurd (hdst'.symm.trans hdst) (hsid.ends d)

variable [DecidableEq κ] {a : Act κ ι}

theorem filters_trans (hT : T.Proper) (hsid : Apart T sid) (hok : Ok T f)
    (h : Trans terminate T f a f') (hi : ∀ i, Filters T sid i (f.net i)) (i : ι) :
    Filters T sid i (f'.net i) := by
  by_cases hgreet : ∃ d, a = .greet d
  · obtain ⟨d', rfl⟩ := hgreet
    cases h with
    | ended => exact hi i
    | handed hrx hact => rcases hact with ⟨hact, -⟩ | ⟨hact, -⟩ <;> cases hact
    | @greet _ rsid rest hrx hgoal hread =>
      have hrsid := ((hok.chans d').greet hrx hgoal hread).1.trans (hi (T.near d').net).own
      by_cases hij : i = (T.far d').net
      · subst hij
        simpa using (hi (T.far d').net).greet hT hsid hrsid
      · simpa [Function.update_of_ne hij] using hi i
  · obtain ⟨calls, hcalls, hrun⟩ := net_step h i
    have hset : ∀ x ∈ calls, ∀ d, (T.near d).net = i → ∀ address,
        x ≠ .user (.setAddress (T.near d).ep address) := by
      rintro x hx d rfl address rfl
      exact hcalls.ne_setAddress (fun d' ha => hgreet ⟨d', ha⟩) (T.ownsEp_near d) address hx
    exact run_invariant_of (fun _ _ _ hw hx hstep => hw.step hsid hx hstep)
      (StepsMeet.of_forall hset _) hrun (hi i)

theorem routed_run (hT : T.Proper) (hsid : Apart T sid) (hinit : f.Init)
    (howns : ∀ i, (f.net i).net.sid = sid i)
    (hfresh : ∀ d, ((f.net (T.near d).net).net.eps (T.near d).ep).address.sid = UNUSED_ID)
    {acts : List (Act κ ι)}
    (hclean : StepsMeet (step terminate T) (fun f a => f.clean a = true) f acts)
    (hrun : run (step terminate T) f acts = some f') : Routed T sid f' := by
  refine run_invariant_of (fun f a f' hi hc h => ?_) hclean hrun ⟨ok_init hinit, fun i => ?_⟩
  · exact ⟨ok_step hT hi.ok hc h, filters_trans hT hsid hi.ok (step_trans h) hi.filters⟩
  · refine ⟨howns i, fun d hd => Or.inl ?_, World.passed_init (hinit.nets i)⟩
    subst hd
    exact hfresh d

/-- **How far a message can go.**  Let no two joined nets have the same sid, and none the sid `1` or
`UNUSED_ID`.  In every clean run, whatever the topology, each way that a message has come to a net is
empty if the message is for the local net, and if it is for another net the way is empty or a single
connection, to the net with that sid. -/
theorem ways_confined (hT : T.Proper) (hinit : f.Init)
    (hsid : Apart T fun i => (f.net i).net.sid)
    (hfresh : ∀ d, ((f.net (T.near d).net).net.eps (T.near d).ep).address.sid = UNUSED_ID)
    {acts : List (Act κ ι)}
    (hclean : StepsMeet (step terminate T) (fun f a => f.clean a = true) f acts)
    (hrun : run (step terminate T) f acts = some f') {i : ι} {x : Wire} {path : List (Direction κ)}
    (hway : Stems T f' i x path) :
    (x.2.2.1 = 1 → path = []) ∧
      (x.2.2.1 ≠ 0 → x.2.2.1 ≠ UNUSED_ID → path = [] ∨
        ∃ d, path = [d] ∧ (T.far d).net = i ∧ x.2.2.1 = (f'.net i).net.sid) := by
  have hrouted := routed_run hT hsid hinit (fun _ => rfl) hfresh hclean hrun
  constructor
  · intro h1
    rcases hrouted.way hsid hway (by simp [h1]) (by rw [h1]; decide) with hnil | ⟨d, -, -, hdst⟩
    · exact hnil
    · exact absurd (hdst.symm.trans h1) (hsid.notLocal i)
  · intro h0 hunused
    rw [(hrouted.filters i).own]
    exact hrouted.way hsid hway h0 hunused

end

/-- A message of two bytes for the net of the connector, which has said hello before. -/
def directed : List (Act Unit Which) :=
  let d : Direction Unit := ((), .listener)
  let back : Direction Unit := ((), .connector)
  [Act.tx back, .write back 8] ++ List.replicate 8 (Act.read back) ++ [Act.greet back] ++
    [Act.net .listener (.user (.newRaw (fun _ => 7) 2)), .net .listener (.user (.setHeader 0 0 0 200 0 false)),
      .net .listener (.send 0 0 (.send 0))] ++
    List.replicate 7 (Act.net .listener (.step 0)) ++ List.replicate 6 (Act.tx d) ++
    [Act.write d 60] ++ List.replicate 8 (Act.read d) ++ [Act.greet d] ++ List.replicate 43 (Act.read d) ++
    [Act.pass d fun _ => 0] ++ List.replicate 5 (Act.net .connector (.step 2)) ++
    [Act.net .connector (.recv 0 0)] ++ List.replicate 4 (Act.net .connector (.step 0))

theorem directed_clean :
    StepsMeet (step 9 joined) (fun f a => f.clean a = true) joinedNets directed := by
  decide +kernel

theorem directed_trace : (run (step 9 joined) joinedNets directed).map
      (fun f => (f.net .connector).trace.getLast?) =
    some (some (.returned 0 ⟨0, 0⟩ { crossed 1 2 with dstsid := 200 } { crossed 3 2 with dstsid := 200 }
      ⟨2, 2, [7, 7]⟩)) := by
  decide +kernel

theorem joinedNets_apart : Apart joined fun i => (joinedNets.net i).net.sid := by
  constructor
  · rintro ⟨⟨⟩, w⟩
    cases w <;> decide
  · intro w
    cases w <;> decide
  · intro w
    cases w <;> decide

theorem joinedNets_fresh (d : Direction Unit) :
    ((joinedNets.net (joined.near d).net).net.eps (joined.near d).ep).address.sid = UNUSED_ID := by
  obtain ⟨⟨⟩, w⟩ := d
  cases w <;> decide

theorem ways_confined_directed : ∃ f path, run (step 9 joined) joinedNets directed = some f ∧
    Stems joined f .connector (100, 0x10000, 200, 0, [7, 7]) path ∧
    (path = [] ∨ ∃ d, path = [d] ∧ (joined.far d).net = .connector ∧
      (200 : ID) = (f.net .connector).net.sid) := by
  obtain ⟨f, hrun, htrace⟩ := Option.map_eq_some_iff.mp directed_trace
  obtain ⟨path, hway⟩ := (traced_run joined_proper joinedNets_init directed_clean hrun).stems_of_returned
    (List.mem_of_getLast? htrace) rfl
  refine ⟨f, path, hrun, hway, ?_⟩
  exact (ways_confined joined_proper joinedNets_init joinedNets_apart joinedNets_fresh directed_clean hrun
    hway).2 (by decide) (by decide)

end Fabric

end WaterNet.Tcp
