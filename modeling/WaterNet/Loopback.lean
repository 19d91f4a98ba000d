import WaterNet.Net

/-!
# Whom the loop-back check excludes (`endpoint.rs`, `net.rs`)

`give` takes an endpoint for the one a message came from when the (sid, eid) pair is the same, and
several endpoints may have the same pair.

* `giveEach_grows` — whatever the list, a send adds copies to queues and changes nothing else;
* `giveEach_took`, `giveEach_refused` — an endpoint of the list that accepts a message is given it,
  and one whose address tests fail is not, whatever else is on the list;
* `endpointSend_accepted_iff` — a message sent without `canloop` is accepted by the endpoints it is
  for exactly if they do not share the pair of the sender.
-/

namespace WaterNet

open Endpoint (Internal)

namespace Endpoint.Internal

/-- The loop-back check, the first test of `give`. -/
def loopsBack (ep : Internal) (msg : Message) : Bool :=
  !msg.canloop && msg.srceid == ep.address.eid && msg.srcsid == ep.address.sid

/-- The destination fields match the endpoint, on a net with the server address `netsid`. -/
def IsFor (netsid : ID) (ep : Internal) (msg : Message) : Prop :=
  (msg.dstsid = 0 ∨ (msg.dstsid = 1 ∧ ep.address.sid = netsid) ∨
    (msg.dstsid ≠ 0 ∧ msg.dstsid ≠ 1 ∧ msg.dstsid = ep.address.sid)) ∧
  (msg.dsteid = 0 ∨ msg.dsteid = ep.address.eid)

instance (netsid : ID) (ep : Internal) (msg : Message) : Decidable (IsFor netsid ep msg) := by
  unfold IsFor
  infer_instance

/-- The two endpoints share their IDs. -/
def SharesIds (ep ep' : Internal) : Prop :=
  ep.address.sid = ep'.address.sid ∧ ep.address.eid = ep'.address.eid

instance (ep ep' : Internal) : Decidable (SharesIds ep ep') := by
  unfold SharesIds
  infer_instance

theorem loopsBack_iff (ep : Internal) (msg : Message) : ep.loopsBack msg = true ↔
    msg.canloop = false ∧ msg.srceid = ep.address.eid ∧ msg.srcsid = ep.address.sid := by
  simp [loopsBack, and_assoc]

theorem routes_eq_true_iff (netsid : ID) (ep : Internal) (msg : Message) :
    ep.routes netsid msg = true ↔ ep.loopsBack msg = false ∧ IsFor netsid ep msg := by
  rw [routes_iff, ← loopsBack_iff, Bool.not_eq_true]
  rfl

end Endpoint.Internal

namespace Net

open Endpoint.Internal (IsFor SharesIds loopsBack_iff routes_eq_true_iff)

/-! ### One endpoint in the give loop -/

/-- What a `give` to `e` does to `b`. -/
theorem give_seen (net : Net) (msg : Message) (e b : EpId) :
    ∃ took ep, (net.eps e).give net.sid net.store msg = some (took, ep) ∧
      (Function.update net.eps e ep b = net.taken msg b ∧ e = b ∧ net.accepts msg b = true ∨
        Function.update net.eps e ep b = net.eps b ∧ ¬(e = b ∧ net.accepts msg b = true)) := by
  rw [give_at]
  by_cases he : e = b
  · subst he
    by_cases hacc : net.accepts msg e = true
    · refine ⟨true, net.taken msg e, by rw [if_pos hacc], Or.inl ⟨?_, rfl, hacc⟩⟩
      rw [Function.update_self]
    · refine ⟨false, net.eps e, by rw [if_neg hacc], Or.inr ⟨?_, fun h => hacc h.2⟩⟩
      rw [Function.update_self]
  · by_cases hacc : net.accepts msg e = true
    · exact ⟨true, _, by rw [if_pos hacc],
        Or.inr ⟨Function.update_of_ne (Ne.symm he) _ _, fun h => he h.1⟩⟩
    · exact ⟨false, _, by rw [if_neg hacc],
        Or.inr ⟨Function.update_of_ne (Ne.symm he) _ _, fun h => he h.1⟩⟩

/-- An endpoint that took a message has it at the back of its queue. -/
theorem taken_messages (net : Net) (msg : Message) (b : EpId) :
    (net.taken msg b).messages = (net.eps b).messages ++ [msg] := rfl

/-- What a send may do to an endpoint: it adds copies at the back of the queue. -/
def Grows (ep ep' : Internal) : Prop :=
  Internal.SameSettings ep ep' ∧ ∃ cs, ep'.messages = ep.messages ++ cs

theorem Grows.refl (ep : Internal) : Grows ep ep :=
  ⟨.refl ep, [], (List.append_nil _).symm⟩

theorem Grows.trans {ep ep' ep'' : Internal} (h : Grows ep ep') (h' : Grows ep' ep'') :
    Grows ep ep'' := by
  obtain ⟨hset, cs, hq⟩ := h
  obtain ⟨hset', cs', hq'⟩ := h'
  exact ⟨hset.trans hset', cs ++ cs', by rw [hq', hq, List.append_assoc]⟩

theorem Grows.taken (net : Net) (msg : Message) (b : EpId) : Grows (net.eps b) (net.taken msg b) :=
  ⟨⟨rfl, rfl, rfl⟩, [msg], taken_messages net msg b⟩

theorem give_grows (net : Net) (msg : Message) (e b : EpId) :
    ∃ took ep, (net.eps e).give net.sid net.store msg = some (took, ep) ∧
      Grows (net.eps b) (Function.update net.eps e ep b) := by
  obtain ⟨took, ep, hgive, hseen⟩ := give_seen net msg e b
  refine ⟨took, ep, hgive, ?_⟩
  rcases hseen with ⟨htaken, -, -⟩ | ⟨hsame, -⟩
  · rw [htaken]
    exact Grows.taken net msg b
  · rw [hsame]
    exact Grows.refl _

/-- The loop adds copies at the back of the queues, and nothing else. -/
theorem giveEach_grows (msg : Message) (b : EpId) (es : List EpId) :
    ∀ (ocnt : ℕ) (net : Net), ∃ n net', giveEach msg es ocnt net = some (n, net') ∧
      Grows (net.eps b) (net'.eps b) := by
  induction es with
  | nil =>
    intro ocnt net
    exact ⟨ocnt, net, rfl, Grows.refl _⟩
  | cons e es ih =>
    intro ocnt net
    obtain ⟨took, ep, hgive, hgrows⟩ := give_grows net msg e b
    obtain ⟨n, net', hrest, hgrows'⟩ := ih (if took then ocnt + 1 else ocnt)
      { net with eps := Function.update net.eps e ep }
    rw [giveEach, hgive, Option.bind_eq_bind, Option.bind_some]
    exact ⟨n, net', hrest, hgrows.trans hgrows'⟩

/-- A send adds copies at the back of the queues, and nothing else. -/
theorem send_grows {net net' : Net} {m : Message} {n : ℕ} (h : net.send m = some (n, net'))
    (b : EpId) : Grows (net.eps b) (net'.eps b) := by
  obtain ⟨n', net'', hgive, hgrows⟩ := giveEach_grows (net.copied m).1 b (net.copied m).2.endpoints 0
    (net.copied m).2
  rw [send_eq, sendInternal, hgive] at h
  cases h
  rwa [copied_eps] at hgrows

/-- What holds of the messages in a queue and of the message given holds of the queue afterwards. -/
theorem giveEach_forall {P : Message → Prop} {msg : Message} (hmsg : P msg) (b : EpId)
    (es : List EpId) : ∀ (ocnt : ℕ) (net : Net), (∀ c ∈ (net.eps b).messages, P c) →
      ∃ n net', giveEach msg es ocnt net = some (n, net') ∧ ∀ c ∈ (net'.eps b).messages, P c := by
  induction es with
  | nil => exact fun ocnt net h => ⟨ocnt, net, rfl, h⟩
  | cons e es ih =>
    intro ocnt net h
    obtain ⟨took, ep, hgive, hseen⟩ := give_seen net msg e b
    obtain ⟨n, net', hrest, hall⟩ := ih (if took then ocnt + 1 else ocnt)
      { net with eps := Function.update net.eps e ep } (by
        show ∀ c ∈ (Function.update net.eps e ep b).messages, P c
        rcases hseen with ⟨htaken, -, -⟩ | ⟨hsame, -⟩
        · rw [htaken, taken_messages]
          exact List.forall_mem_append.mpr ⟨h, List.forall_mem_singleton.mpr hmsg⟩
        · rw [hsame]
          exact h)
    rw [giveEach, hgive, Option.bind_eq_bind, Option.bind_some]
    exact ⟨n, net', hrest, hall⟩

theorem send_forall {P : Message → Prop} {net net' : Net} {m : Message} {n : ℕ}
    (h : net.send m = some (n, net')) (hm : P (net.copied m).1) {b : EpId}
    (hq : ∀ c ∈ (net.eps b).messages, P c) : ∀ c ∈ (net'.eps b).messages, P c := by
  obtain ⟨n', net'', hgive, hall⟩ := giveEach_forall hm b (net.copied m).2.endpoints 0
    (net.copied m).2 (by rw [copied_eps]; exact hq)
  rw [send_eq, sendInternal, hgive] at h
  cases h
  exact hall

/-- **An endpoint of the list that accepts the message is given it.** -/
theorem giveEach_took (msg : Message) (b : EpId) (es : List EpId) :
    ∀ (ocnt : ℕ) (net : Net), b ∈ es → net.accepts msg b = true →
      ∃ n net' cs, giveEach msg es ocnt net = some (n, net') ∧
        (net'.eps b).messages = (net.eps b).messages ++ msg :: cs := by
  induction es with
  | nil =>
    intro ocnt net hb
    cases hb
  | cons e es ih =>
    intro ocnt net hb hacc
    obtain ⟨took, ep, hgive, hseen⟩ := give_seen net msg e b
    rw [giveEach, hgive, Option.bind_eq_bind, Option.bind_some]
    rcases hseen with ⟨htaken, -, -⟩ | ⟨hsame, hnot⟩
    · obtain ⟨n, net', hrest, -, cs, hcs⟩ := giveEach_grows msg b es
        (if took then ocnt + 1 else ocnt) { net with eps := Function.update net.eps e ep }
      refine ⟨n, net', cs, hrest, hcs.trans ?_⟩
      show (Function.update net.eps e ep b).messages ++ cs = _
      rw [htaken, taken_messages, List.append_assoc, List.singleton_append]
    · -- this give was to another endpoint
      have hb' : b ∈ es := (List.mem_cons.mp hb).resolve_left fun h => hnot ⟨h.symm, hacc⟩
      have hacc' : ({ net with eps := Function.update net.eps e ep } : Net).accepts msg b = true := by
        show ((Function.update net.eps e ep b).routes net.sid msg &&
          (Function.update net.eps e ep b).underLimits) = true
        rw [hsame]
        exact hacc
      obtain ⟨n, net', cs, hrest, hcs⟩ := ih (if took then ocnt + 1 else ocnt)
        { net with eps := Function.update net.eps e ep } hb' hacc'
      refine ⟨n, net', cs, hrest, hcs.trans ?_⟩
      show (Function.update net.eps e ep b).messages ++ msg :: cs = _
      rw [hsame]

/-- **An endpoint whose address tests fail is not given the message.** -/
theorem giveEach_refused (msg : Message) (b : EpId) (es : List EpId) :
    ∀ (ocnt : ℕ) (net : Net), (net.eps b).routes net.sid msg = false →
      ∃ n net', giveEach msg es ocnt net = some (n, net') ∧ net'.eps b = net.eps b := by
  induction es with
  | nil =>
    intro ocnt net _
    exact ⟨ocnt, net, rfl, rfl⟩
  | cons e es ih =>
    intro ocnt net hroutes
    obtain ⟨took, ep, hgive, hseen⟩ := give_seen net msg e b
    rw [giveEach, hgive, Option.bind_eq_bind, Option.bind_some]
    have hsame : Function.update net.eps e ep b = net.eps b := by
      rcases hseen with ⟨-, -, hacc⟩ | ⟨hsame, -⟩
      · rw [accepts, hroutes] at hacc
        cases hacc
      · exact hsame
    obtain ⟨n, net', hrest, heps⟩ := ih (if took then ocnt + 1 else ocnt)
      { net with eps := Function.update net.eps e ep } (by
        show (Function.update net.eps e ep b).routes net.sid msg = false
        rw [hsame]
        exact hroutes)
    exact ⟨n, net', hrest, heps.trans hsame⟩

theorem send_took (net : Net) (m : Message) (b : EpId) (hb : b ∈ net.endpoints)
    (hacc : net.accepts m b = true) : ∃ n net' c cs, net.send m = some (n, net') ∧
      header c = header m ∧ (net'.eps b).messages = (net.eps b).messages ++ c :: cs := by
  obtain ⟨n, net', cs, hgive, hq⟩ := giveEach_took (net.copied m).1 b net.endpoints 0
    (net.copied m).2 hb (by rw [copied_accepts]; exact hacc)
  refine ⟨n, net', (net.copied m).1, cs, ?_, copied_header net m, ?_⟩
  · rw [send_eq, sendInternal, copied_endpoints]
    exact hgive
  · rw [hq, copied_eps]

theorem send_refused (net : Net) (m : Message) (b : EpId)
    (hroutes : (net.eps b).routes net.sid m = false) :
    ∃ n net', net.send m = some (n, net') ∧ net'.eps b = net.eps b := by
  have hcopy : ((net.copied m).2.eps b).routes (net.copied m).2.sid (net.copied m).1 = false := by
    have hm := copied_header net m
    simp only [header, Prod.mk.injEq] at hm
    obtain ⟨h1, h2, h3, h4, h5⟩ := hm
    rw [copied_eps, copied_sid, ← hroutes]
    simp only [Internal.routes, h1, h2, h3, h4, h5]
  obtain ⟨n, net', hgive, hsame⟩ := giveEach_refused (net.copied m).1 b net.endpoints 0
    (net.copied m).2 hcopy
  refine ⟨n, net', ?_, ?_⟩
  · rw [send_eq, sendInternal, copied_endpoints]
    exact hgive
  · rw [hsame, copied_eps]

/-! ### The sender and those who share its IDs -/

/-- The message with the addresses of the sender. -/
def sentBy (net : Net) (a : EpId) (m : Message) : Message :=
  { m with srcsid := (net.eps a).address.sid, srceid := (net.eps a).address.eid }

/-- The loop-back check takes the endpoints that share the sender's IDs for the sender. -/
theorem sentBy_loopsBack (net : Net) (a b : EpId) {m : Message} (hloop : m.canloop = false) :
    (net.eps b).loopsBack (net.sentBy a m) = true ↔ SharesIds (net.eps a) (net.eps b) := by
  rw [loopsBack_iff]
  exact ⟨fun h => ⟨h.2.2, h.2.1⟩, fun h => ⟨hloop, h.2, h.1⟩⟩

/-- **Whom the loop-back check excludes.**  Let the endpoint `a` of a net send a message without
`canloop`.  An endpoint `b` the message is for, and whose limits admit it, accepts it exactly if it
does not share the IDs of `a`; and `a` is the only endpoint on the net that the check excludes
exactly if no other endpoint on the net shares its IDs. -/
theorem endpointSend_accepted_iff (net : Net) (a : EpId) (m : Message) (hloop : m.canloop = false) :
    (∀ b ∈ net.endpoints, b ≠ a → IsFor net.sid (net.eps b) m → (net.eps b).underLimits = true →
      ((∃ n net' c cs, net.endpointSend a m = some (n, net') ∧ header c = header (net.sentBy a m) ∧
          (net'.eps b).messages = (net.eps b).messages ++ c :: cs) ↔
        ¬SharesIds (net.eps a) (net.eps b))) ∧
    ((∀ b ∈ net.endpoints, (net.eps b).loopsBack (net.sentBy a m) = true → b = a) ↔
      ∀ b ∈ net.endpoints, b ≠ a → ¬SharesIds (net.eps a) (net.eps b)) := by
  refine ⟨fun b hb _ hfor hlimits => ?_, ?_⟩
  · have hloops := sentBy_loopsBack net a b hloop
    have hroutes : (net.eps b).routes net.sid (net.sentBy a m) = true ↔
        ¬SharesIds (net.eps a) (net.eps b) := by
      rw [routes_eq_true_iff, ← hloops, Bool.not_eq_true]
      exact and_iff_left hfor
    constructor
    · rintro ⟨n, net', c, cs, hsend, -, hq⟩ hshare
      have hrefused : (net.eps b).routes net.sid (net.sentBy a m) = false :=
        Bool.eq_false_iff.mpr fun h => hroutes.mp h hshare
      obtain ⟨n', net'', hsend', hsame⟩ := send_refused net (net.sentBy a m) b hrefused
      have heq : some (n, net') = some (n', net'') := hsend.symm.trans hsend'
      cases heq
      rw [hsame] at hq
      exact List.cons_ne_nil c cs (List.append_right_eq_self.mp hq.symm)
    · intro hshare
      have hacc : net.accepts (net.sentBy a m) b = true := by
        rw [accepts, hroutes.mpr hshare, hlimits]
        rfl
      exact send_took net (net.sentBy a m) b hb hacc
  · refine forall₂_congr fun b _ => ?_
    rw [sentBy_loopsBack net a b hloop]
    exact ⟨fun h hne hshare => hne (h hshare), fun h hshare => by_contra fun hne => h hne hshare⟩

/-- Two endpoints of the net 100, made with the same IDs, and a third one. -/
def twins : Net :=
  (((Net.new 100).addEndpoint 0 (Endpoint.new 100 7)).addEndpoint 1 (Endpoint.new 100 7)).addEndpoint 2
    (Endpoint.new 100 8)

/-- What the endpoint 2 sends, both of the others accept. -/
theorem endpointSend_accepted_iff_twins :
    (∀ b ∈ twins.endpoints, b ≠ 2 → IsFor 100 (twins.eps b) (.newFromraw ⟨0⟩) →
      (twins.eps b).underLimits = true →
      ((∃ n net' c cs, twins.endpointSend 2 (.newFromraw ⟨0⟩) = some (n, net') ∧
          header c = header (twins.sentBy 2 (.newFromraw ⟨0⟩)) ∧
          (net'.eps b).messages = (twins.eps b).messages ++ c :: cs) ↔
        ¬SharesIds (twins.eps 2) (twins.eps b))) ∧
    ((∀ b ∈ twins.endpoints, (twins.eps b).loopsBack (twins.sentBy 2 (.newFromraw ⟨0⟩)) = true → b = 2) ↔
      ∀ b ∈ twins.endpoints, b ≠ 2 → ¬SharesIds (twins.eps 2) (twins.eps b)) :=
  endpointSend_accepted_iff twins 2 (.newFromraw ⟨0⟩) rfl

/-- **An endpoint that did not send the message is excluded**: the endpoint 1 has the IDs of the
endpoint 0. -/
theorem not_endpointSend_accepted : ¬∀ (net : Net) (a b : EpId) (m : Message),
    a ∈ net.endpoints → b ∈ net.endpoints → b ≠ a → m.canloop = false →
    IsFor net.sid (net.eps b) m → (net.eps b).underLimits = true →
    ∃ n net' c cs, net.endpointSend a m = some (n, net') ∧
      (net'.eps b).messages = (net.eps b).messages ++ c :: cs := by
  intro h
  obtain ⟨n, net', c, cs, hsend, hq⟩ := h twins 0 1 (.newFromraw ⟨0⟩) (by decide) (by decide)
    (by decide) rfl (by decide) (by decide)
  obtain ⟨n', net'', hsend', hsame⟩ := send_refused twins (twins.sentBy 0 (.newFromraw ⟨0⟩)) 1
    (by decide)
  have heq : some (n, net') = some (n', net'') := hsend.symm.trans hsend'
  cases heq
  rw [hsame] at hq
  exact List.cons_ne_nil c cs (List.append_right_eq_self.mp hq.symm)

end Net

end WaterNet
