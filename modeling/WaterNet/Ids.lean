import WaterNet.Lib.Machine
import WaterNet.Net

/-!
# Endpoint IDs a net assigns (`net.rs`)

`hueid` is the next ID that `new_endpoint` and `get_neweid` hand out, and `new_endpoint_withid`
moves it past an ID the caller chose.  Each of the three calls holds the net's mutex throughout,
so a sequence of calls is a list, whatever threads make them.

* `Fresh` — the log of the calls repeats no automatic ID and hands out no special one;
* `IdWorld.fresh_log` — **freshness** of the log, over every sequence of calls that stays clear of
  the two cases in which the counter stops being above the IDs in use (`IdCall.Clear`).
-/

namespace WaterNet.Ids

open Lib.Machine

/-- The calls that assign, return or are passed an endpoint ID; `id` is the identity of the
endpoint that is made. -/
inductive IdCall where
  | newEndpoint (id : EpId)
  | getNeweid
  | newEndpointWithid (id : EpId) (eid : ID)
  deriving DecidableEq, Repr

/-- What a call did with an ID. -/
inductive IdEvent where
  | automatic (eid : ID)
  | chosen (eid : ID)
  deriving DecidableEq, Repr

def IdEvent.eid : IdEvent → ID
  | .automatic eid | .chosen eid => eid

/-- A net and what the calls on it did with IDs, the latest first. -/
structure IdWorld where
  net : Net
  log : List IdEvent

/-- The log repeats no ID it assigned automatically: each differs from all that came before it,
and none is the 'everyone' address or `UNUSED_ID`. -/
def Fresh (log : List IdEvent) : Prop :=
  ∀ later eid earlier, log = later ++ .automatic eid :: earlier →
    eid ≠ 0 ∧ eid ≠ UNUSED_ID ∧ eid ∉ earlier.map IdEvent.eid

theorem fresh_nil : Fresh [] := by
  intro later eid earlier h
  cases later <;> cases h

theorem Fresh.chosen {log : List IdEvent} (h : Fresh log) (eid : ID) :
    Fresh (.chosen eid :: log) := by
  intro later eid' earlier hlog
  cases later with
  | nil => cases hlog
  | cons event later =>
    rw [List.cons_append, List.cons.injEq] at hlog
    exact h later eid' earlier hlog.2

theorem Fresh.automatic {log : List IdEvent} (h : Fresh log) {eid : ID} (h0 : eid ≠ 0)
    (hunused : eid ≠ UNUSED_ID) (hnew : eid ∉ log.map IdEvent.eid) :
    Fresh (.automatic eid :: log) := by
  intro later eid' earlier hlog
  cases later with
  | nil =>
    rw [List.nil_append, List.cons.injEq, IdEvent.automatic.injEq] at hlog
    obtain ⟨rfl, rfl⟩ := hlog
    exact ⟨h0, hunused, hnew⟩
  | cons event later =>
    rw [List.cons_append, List.cons.injEq] at hlog
    exact h later eid' earlier hlog.2

/-- A call and its entry in the log. -/
def IdWorld.step (w : IdWorld) : IdCall → Option IdWorld
  | .newEndpoint id =>
    some { net := w.net.newEndpoint id, log := .automatic w.net.hueid :: w.log }
  | .getNeweid =>
    let (eid, net) := w.net.getNeweid
    some { net := net, log := .automatic eid :: w.log }
  | .newEndpointWithid id eid =>
    some { net := w.net.newEndpointWithid id eid, log := .chosen eid :: w.log }

def IdWorld.new (sid : ID) : IdWorld := { net := Net.new sid, log := [] }

/-- The calls that keep the counter above the IDs in use: an automatic ID is asked for before the
counter has reached `UNUSED_ID`, and a chosen ID is neither the next automatic one, which
`eid > hueid` misses, nor the greatest, whose successor wraps to 0. -/
def IdCall.Clear (w : IdWorld) : IdCall → Prop
  | .newEndpoint _ | .getNeweid => w.net.hueid ≠ UNUSED_ID
  | .newEndpointWithid _ eid => eid ≠ w.net.hueid ∧ eid ≠ UNUSED_ID

instance (w : IdWorld) (c : IdCall) : Decidable (c.Clear w) := by
  cases c <;> unfold IdCall.Clear <;> infer_instance

/-! ### The counter is above every ID seen -/

theorem lt_succ_of_ne_unused {x : ID} (hx : x ≠ UNUSED_ID) : x < x + 1 := by
  have hne : x.toNat ≠ 2 ^ 64 - 1 := by
    intro h
    apply hx
    rw [← UInt64.toNat_inj, h]
    rfl
  have hlt := x.toNat_lt
  rw [UInt64.lt_iff_toNat_lt, UInt64.toNat_add, UInt64.toNat_one]
  omega

/-- `hueid` lies above every ID in the log and never falls. -/
structure Inv (w : IdWorld) : Prop where
  above : ∀ eid ∈ w.log.map IdEvent.eid, eid < w.net.hueid
  low : 0 < w.net.hueid
  fresh : Fresh w.log

theorem inv_new (sid : ID) : Inv (IdWorld.new sid) where
  above := by
    intro eid h
    cases h
  low := by
    show (0 : ID) < 0x10000
    decide
  fresh := fresh_nil

/-- The counter moves past the ID that is entered. -/
theorem above_cons {log : List IdEvent} {hueid hueid' : ID} {event : IdEvent}
    (h : ∀ eid ∈ log.map IdEvent.eid, eid < hueid) (hle : hueid ≤ hueid')
    (hnew : event.eid < hueid') : ∀ eid ∈ (event :: log).map IdEvent.eid, eid < hueid' := by
  intro eid hmem
  rw [List.map_cons, List.mem_cons] at hmem
  rcases hmem with rfl | hmem
  · exact hnew
  · exact UInt64.lt_of_lt_of_le (h eid hmem) hle

/-- An automatic assignment, of either kind. -/
theorem Inv.automatic {w : IdWorld} (hinv : Inv w) (hclear : w.net.hueid ≠ UNUSED_ID) {net : Net}
    (hnet : net.hueid = w.net.hueid + 1) :
    Inv { net := net, log := .automatic w.net.hueid :: w.log } := by
  have hlt := lt_succ_of_ne_unused hclear
  refine ⟨?_, ?_, hinv.fresh.automatic ?_ hclear ?_⟩
  · apply above_cons hinv.above
    · rw [hnet]
      exact UInt64.le_of_lt hlt
    · rw [hnet]
      exact hlt
  · rw [hnet]
    exact UInt64.lt_trans hinv.low hlt
  · exact UInt64.pos_iff_ne_zero.mp hinv.low
  · intro hmem
    exact UInt64.lt_irrefl _ (hinv.above _ hmem)

theorem inv_step {w w' : IdWorld} {c : IdCall} (hinv : Inv w) (hclear : c.Clear w)
    (h : w.step c = some w') : Inv w' := by
  cases c with
  | newEndpoint id =>
    cases h
    exact hinv.automatic hclear rfl
  | getNeweid =>
    cases h
    exact hinv.automatic hclear rfl
  | newEndpointWithid id eid =>
    cases h
    obtain ⟨hne, hunused⟩ := hclear
    by_cases hgt : eid > w.net.hueid
    · have hhueid : (w.net.newEndpointWithid id eid).hueid = eid + 1 := by
        simp [Net.newEndpointWithid, Net.addEndpoint, hgt]
      have hlt := lt_succ_of_ne_unused hunused
      have hle : w.net.hueid < eid + 1 := UInt64.lt_trans hgt hlt
      refine ⟨above_cons hinv.above ?_ ?_, ?_, hinv.fresh.chosen eid⟩
      · rw [hhueid]
        exact UInt64.le_of_lt hle
      · rw [hhueid]
        exact hlt
      · rw [hhueid]
        exact UInt64.lt_trans hinv.low hle
    · have hhueid : (w.net.newEndpointWithid id eid).hueid = w.net.hueid := by
        simp [Net.newEndpointWithid, Net.addEndpoint, hgt]
      have hlt : eid < w.net.hueid :=
        UInt64.lt_of_le_of_ne (UInt64.not_lt.mp hgt) hne
      refine ⟨above_cons hinv.above ?_ ?_, ?_, hinv.fresh.chosen eid⟩
      · rw [hhueid]
        exact UInt64.le_refl _
      · rw [hhueid]
        exact hlt
      · rw [hhueid]
        exact hinv.low

/-- **Automatic IDs are fresh.**  On every net, over every sequence of calls whose steps are all
clear, each ID that `new_endpoint` assigns or `get_neweid` returns is new and neither 0 nor
`UNUSED_ID`. -/
theorem IdWorld.fresh_log (sid : ID) {calls : List IdCall} {w : IdWorld}
    (hclear : StepsMeet IdWorld.step (fun w c => c.Clear w) (IdWorld.new sid) calls)
    (hrun : run IdWorld.step (IdWorld.new sid) calls = some w) : Fresh w.log :=
  (run_invariant_of (fun _ _ _ => inv_step) hclear hrun (inv_new sid)).fresh

/-- Both kinds of assignment around a chosen ID above the counter. -/
def mixedCalls : List IdCall :=
  [.newEndpoint 0, .newEndpointWithid 1 0x20000, .getNeweid, .newEndpointWithid 2 7, .newEndpoint 3]

theorem fresh_log_mixedCalls :
    (run IdWorld.step (IdWorld.new 100) mixedCalls).map IdWorld.log =
      some [.automatic 0x20002, .chosen 7, .automatic 0x20001, .chosen 0x20000,
        .automatic 0x10000] ∧
    ∀ w, run IdWorld.step (IdWorld.new 100) mixedCalls = some w → Fresh w.log :=
  ⟨rfl, fun _ hrun => IdWorld.fresh_log 100 (by decide) hrun⟩

/-- A user picks the next automatic ID, and the net then assigns it again. -/
def equalCalls : List IdCall := [.newEndpointWithid 0 0x10000, .newEndpoint 1]

theorem not_fresh_log : ¬ ∀ (sid : ID) (calls : List IdCall) (w : IdWorld),
    run IdWorld.step (IdWorld.new sid) calls = some w → Fresh w.log := by
  intro hall
  obtain ⟨w, hrun, hlog⟩ : ∃ w, run IdWorld.step (IdWorld.new 100) equalCalls = some w ∧
      w.log = [.automatic 0x10000, .chosen 0x10000] := ⟨_, rfl, rfl⟩
  have hfresh := hall 100 equalCalls w hrun [] 0x10000 [.chosen 0x10000] hlog
  exact hfresh.2.2 (by decide)

end WaterNet.Ids
