import WaterNet.Lib.Pool
import WaterNet.Traffic.Step

/-!
# What becomes of the copies: the ledger of a run

The trace of a run is read back into lists: what was put into the queue of an endpoint, what was
taken out of it, what was returned and what was thrown away, and which sends a thread has made.
Three invariants of `Trans` tie these lists to the state.

* `Fifo` — put is got followed by the queue, so nothing is lost, invented or overtaken;
* `Fate` — every copy got is with the one `recv` that works on it, or was returned, or discarded;
* `Order` — the copies of one thread's sends are put in the order of the sends, each at most once.
-/

namespace WaterNet.Traffic

open WaterNet.Lib.Pool (total total_set getElem?_set_eq_some)

/-! ### Reading the trace -/

def Event.putAt (e : EpId) : Event → Option Message
  | .put e' m => if e' = e then some m else none
  | _ => none

def Event.gotAt (e : EpId) : Event → Option Message
  | .got e' _ m => if e' = e then some m else none
  | _ => none

def Event.returnedAt (e : EpId) : Event → Option Message
  | .returned e' _ copy _ _ => if e' = e then some copy else none
  | _ => none

def Event.discardedAt (e : EpId) : Event → Option Message
  | .discarded e' _ copy => if e' = e then some copy else none
  | _ => none

def Event.sentBy (t : ℕ) : Event → Option SendId
  | .sent id _ _ => if id.thread = t then some id else none
  | _ => none

/-- The copies ever put into the queue of `e`, in the order of the puts. -/
def enqueued (e : EpId) (tr : List Event) : List Message := tr.filterMap (Event.putAt e)

/-- The copies ever taken out of the queue of `e`. -/
def dequeued (e : EpId) (tr : List Event) : List Message := tr.filterMap (Event.gotAt e)

/-- The copies a `recv` on `e` returned a message for. -/
def returned (e : EpId) (tr : List Event) : List Message := tr.filterMap (Event.returnedAt e)

/-- The copies a `recv` on `e` threw away. -/
def discarded (e : EpId) (tr : List Event) : List Message := tr.filterMap (Event.discardedAt e)

/-- The sends of the thread `t`, in the order it made them. -/
def sends (t : ℕ) (tr : List Event) : List SendId := tr.filterMap (Event.sentBy t)

/-- The sends of the thread `t` whose copies were put into the queue of `e`, in that order. -/
def mine (t : ℕ) (e : EpId) (tr : List Event) : List SendId :=
  ((enqueued e tr).map Message.origin).filter fun id => id.thread = t

/-- Any of these lists after one more event. -/
theorem filterMap_snoc {β : Type} (f : Event → Option β) (tr : List Event) (ev : Event) :
    (tr ++ [ev]).filterMap f = tr.filterMap f ++ (f ev).toList := by
  rw [List.filterMap_append]
  cases h : f ev <;> simp [h]

@[simp] theorem enqueued_snoc (e : EpId) (tr : List Event) (ev : Event) :
    enqueued e (tr ++ [ev]) = enqueued e tr ++ (ev.putAt e).toList :=
  filterMap_snoc _ _ _

@[simp] theorem dequeued_snoc (e : EpId) (tr : List Event) (ev : Event) :
    dequeued e (tr ++ [ev]) = dequeued e tr ++ (ev.gotAt e).toList :=
  filterMap_snoc _ _ _

@[simp] theorem returned_snoc (e : EpId) (tr : List Event) (ev : Event) :
    returned e (tr ++ [ev]) = returned e tr ++ (ev.returnedAt e).toList :=
  filterMap_snoc _ _ _

@[simp] theorem discarded_snoc (e : EpId) (tr : List Event) (ev : Event) :
    discarded e (tr ++ [ev]) = discarded e tr ++ (ev.discardedAt e).toList :=
  filterMap_snoc _ _ _

@[simp] theorem sends_snoc (t : ℕ) (tr : List Event) (ev : Event) :
    sends t (tr ++ [ev]) = sends t tr ++ (ev.sentBy t).toList :=
  filterMap_snoc _ _ _

attribute [simp] Event.putAt Event.gotAt Event.returnedAt Event.discardedAt Event.sentBy

namespace World

/-- User code changes the cells, the messages it holds and the endpoints' settings; it moves no
thread, leaves no event and touches no queue. -/
structure SameTraffic (w w' : World) : Prop where
  trace : w'.trace = w.trace
  threads : w'.threads = w.threads
  endpoints : w'.net.endpoints = w.net.endpoints
  queues : ∀ e, (w'.net.eps e).messages = (w.net.eps e).messages

theorem userStep_sameTraffic {w w' : World} {op : UserOp} (h : w.userStep op = some w') :
    SameTraffic w w' := by
  cases op with
  | newRaw | newSync | newClone | drop =>
    cases h
    exact ⟨rfl, rfl, rfl, fun _ => rfl⟩
  | setHeader | fromPayload =>
    simp only [userStep, Option.map_eq_some_iff] at h
    obtain ⟨m, -, rfl⟩ := h
    exact ⟨rfl, rfl, rfl, fun _ => rfl⟩
  | clone | dup | write =>
    simp only [userStep, Option.bind_eq_bind, Option.bind_eq_some_iff] at h
    obtain ⟨m, -, b, -, h⟩ := h
    cases h
    exact ⟨rfl, rfl, rfl, fun _ => rfl⟩
  | setAddress e0 | setLimits e0 =>
    cases h
    refine ⟨rfl, rfl, rfl, fun e => ?_⟩
    by_cases he : e = e0
    · subst he
      simp
    · simp [Function.update_of_ne he]

/-! ### First in, first out -/

/-- What was put into a queue is what was taken out of it followed by what is in it. -/
def Fifo (w : World) : Prop :=
  ∀ e, enqueued e w.trace = dequeued e w.trace ++ (w.net.eps e).messages

theorem fifo_trans {w w' : World} (h : Trans w w') (hi : w.Fifo) : w'.Fifo := by
  intro e
  have hie := hi e
  cases h with
  | user h =>
    have hs := userStep_sameTraffic h
    rw [hs.trace, hs.queues]
    exact hie
  | startSend | startRecv | sendSnap | sendDone | accept | refuse | recvNone | recvDup => exact hie
  | sendDup | retRaw | retSync | discard | retClone => simpa [giveBack] using hie
  | @put t th m e0 =>
    by_cases he : e = e0
    · subst he
      simp [hie]
    · simp [hie, Function.update_of_ne he, Ne.symm he]
  | @recvGet t th e0 copy rest _ _ hq =>
    by_cases he : e = e0
    · subst he
      simp [hie, hq]
    · simp [hie, Function.update_of_ne he, Ne.symm he]
  | @add t th m e0 =>
    by_cases he : e = e0
    · subst he
      simp [hie]
    · simp [hie, Function.update_of_ne he]
  | @recvSub t th e0 =>
    by_cases he : e = e0
    · subst he
      simp [hie]
    · simp [hie, Function.update_of_ne he]

/-! ### The fate of a copy -/

/-- Whether the thread is in a `recv` that took the copy `c` out of the queue of `e`. -/
def processing (e : EpId) (c : Message) (th : Thread) : ℕ :=
  match th.pc with
  | .recvDup e' copy | .recvSub e' copy _ | .recvEnd e' copy _ => if e' = e ∧ copy = c then 1 else 0
  | _ => 0

/-- As often as a copy was taken out of a queue, it is being worked on, was returned or discarded. -/
def Fate (w : World) : Prop :=
  ∀ e c, (dequeued e w.trace).count c = total (processing e c) w.threads +
    (returned e w.trace).count c + (discarded e w.trace).count c

/-- A step that moves a thread between points that hold the same copy, and logs none of the three
events, changes no fate. -/
theorem fate_of_same {w w' : World} {t : ℕ} {th th' : Thread} (ht : w.threads[t]? = some th)
    (hthreads : w'.threads = w.threads.set t th')
    (hw : ∀ e c, processing e c th' = processing e c th)
    (hd : ∀ e, dequeued e w'.trace = dequeued e w.trace)
    (hr : ∀ e, returned e w'.trace = returned e w.trace)
    (hx : ∀ e, discarded e w'.trace = discarded e w.trace) (hi : w.Fate) : w'.Fate := by
  intro e c
  have hT := total_set (processing e c) ht th'
  have h := hi e c
  rw [hd, hr, hx, hthreads]
  have hwe := hw e c
  omega

/-- A copy is in the list of one event at most once. -/
theorem count_pick (e e0 : EpId) (c copy : Message) :
    ((if e0 = e then some copy else none).toList).count c = if e0 = e ∧ copy = c then 1 else 0 := by
  by_cases he : e0 = e
  · by_cases hc : copy = c <;> simp [he, hc]
  · simp [he]

/-- Returning a message takes its copy out of the hands of the thread. -/
theorem fate_giveBack {w : World} {t : ℕ} {th : Thread} {e0 : EpId} {copy msg msg' : Message}
    {st : Store} (ht : w.threads[t]? = some th) (hpc : th.pc = .recvEnd e0 copy msg) (hi : w.Fate) :
    ((w.setStore st).giveBack t th e0 copy msg').Fate := by
  intro e c
  have hT := total_set (processing e c) ht { th with pc := .idle, recvs := th.recvs + 1 }
  have h := hi e c
  simp [processing, hpc, giveBack, count_pick] at hT ⊢
  omega

theorem fate_trans {w w' : World} (h : Trans w w') (hi : w.Fate) : w'.Fate := by
  cases h with
  | user h =>
    have hs := userStep_sameTraffic h
    intro e c
    rw [hs.trace, hs.threads]
    exact hi e c
  | startSend ht hpc hm =>
    exact fate_of_same ht rfl (by simp [processing, hpc]) (fun _ => rfl) (fun _ => rfl) (fun _ => rfl) hi
  | startRecv ht hpc | sendSnap ht hpc | sendDone ht hpc | recvNone ht hpc =>
    exact fate_of_same ht rfl (by simp [processing, hpc]) (fun _ => rfl) (fun _ => rfl) (fun _ => rfl) hi
  | accept ht hpc | refuse ht hpc | add ht hpc | recvDup ht hpc | recvSub ht hpc =>
    exact fate_of_same ht rfl (by simp [processing, hpc]) (fun _ => rfl) (fun _ => rfl) (fun _ => rfl) hi
  | sendDup ht hpc | put ht hpc =>
    exact fate_of_same ht rfl (by simp [processing, hpc]) (by simp) (by simp) (by simp) hi
  | @recvGet t th e0 copy rest ht hpc hq =>
    -- the copy enters the hands of the thread as it leaves the queue
    intro e c
    have hT := total_set (processing e c) ht { th with pc := .recvDup e0 copy }
    have h := hi e c
    simp [processing, hpc, count_pick] at hT ⊢
    omega
  | @discard t th e0 copy msg s ht hpc =>
    intro e c
    have hT := total_set (processing e c) ht { th with pc := .recvGet e0 }
    have h := hi e c
    simp [processing, hpc, count_pick] at hT ⊢
    omega
  | retRaw ht hpc | retSync ht hpc | retClone ht hpc => exact fate_giveBack ht hpc hi

/-! ### The order of a thread's sends -/

/-- The send a thread is in the middle of, and the endpoints it has still to offer it to. -/
def pendingSend (es : List EpId) : Pc → Option (Message × List EpId)
  | .sendSnap m => some (m, es)
  | .giving m todo _ => some (m, todo)
  | .putting m e todo _ => some (m, e :: todo)
  | .adding m _ todo _ => some (m, todo)
  | _ => none

/-- The sends of each thread are numbered upwards, and what reached an endpoint is a sublist of
them; the one in progress has not reached the endpoints it is still to be offered to. -/
structure Order (w : World) : Prop where
  distinct : w.net.endpoints.Nodup
  increasing : ∀ t, (sends t w.trace).Pairwise fun a b => a.seq < b.seq
  bounded : ∀ (t : ℕ) (th : Thread), w.threads[t]? = some th → ∀ id ∈ sends t w.trace, id.seq < th.sent
  kept : ∀ t e, (mine t e w.trace).Sublist (sends t w.trace)
  stamped : ∀ (t : ℕ) (th : Thread) (m : Message), w.threads[t]? = some th → th.pc = .sendDup m →
    m.origin = ⟨t, th.sent⟩
  current : ∀ (t : ℕ) (th : Thread) (m : Message) (todo : List EpId), w.threads[t]? = some th →
    pendingSend w.net.endpoints th.pc = some (m, todo) → todo.Nodup ∧
      ∃ prior, sends t w.trace = prior ++ [m.origin] ∧ ∀ e ∈ todo, (mine t e w.trace).Sublist prior

theorem thread_of_mem_sends {t : ℕ} {tr : List Event} {id : SendId} (h : id ∈ sends t tr) :
    id.thread = t := by
  obtain ⟨ev, -, hev⟩ := List.mem_filterMap.mp h
  cases ev with
  | sent id' m content =>
    simp only [Event.sentBy, Option.ite_none_right_eq_some, Option.some.injEq] at hev
    exact hev.2 ▸ hev.1
  | _ => simp at hev

theorem mine_snoc (t : ℕ) (e : EpId) (tr : List Event) (ev : Event) :
    mine t e (tr ++ [ev]) = mine t e tr ++
      ((ev.putAt e).toList.map Message.origin).filter fun id => id.thread = t := by
  simp [mine]

/-- A step that logs neither a send nor a put keeps the order if it only drops endpoints from the
list of those still to visit. -/
theorem order_of_same {w w' : World} {t : ℕ} {th th' : Thread} (ht : w.threads[t]? = some th)
    (hthreads : w'.threads = w.threads.set t th') (hends : w'.net.endpoints = w.net.endpoints)
    (hs : ∀ u, sends u w'.trace = sends u w.trace) (hm : ∀ u e, mine u e w'.trace = mine u e w.trace)
    (hsent : th'.sent = th.sent) (hstamp : ∀ m, th'.pc = .sendDup m → m.origin = ⟨t, th.sent⟩)
    (hpend : ∀ m todo', pendingSend w.net.endpoints th'.pc = some (m, todo') →
      ∃ todo, pendingSend w.net.endpoints th.pc = some (m, todo) ∧ todo'.Sublist todo)
    (hi : w.Order) : w'.Order := by
  constructor
  · rw [hends]
    exact hi.distinct
  · intro u
    rw [hs]
    exact hi.increasing u
  · intro u thu hu id hid
    rw [hs] at hid
    rw [hthreads] at hu
    rcases getElem?_set_eq_some hu with ⟨rfl, rfl⟩ | ⟨-, hu⟩
    · rw [hsent]
      exact hi.bounded u th ht id hid
    · exact hi.bounded u thu hu id hid
  · intro u e
    rw [hs, hm]
    exact hi.kept u e
  · intro u thu m hu hpc
    rw [hthreads] at hu
    rcases getElem?_set_eq_some hu with ⟨rfl, rfl⟩ | ⟨-, hu⟩
    · rw [hsent]
      exact hstamp m hpc
    · exact hi.stamped u thu m hu hpc
  · intro u thu m todo hu hpc
    rw [hthreads] at hu
    rw [hends] at hpc
    simp only [hs, hm]
    rcases getElem?_set_eq_some hu with ⟨rfl, rfl⟩ | ⟨-, hu⟩
    · obtain ⟨todo₀, hp, hsub⟩ := hpend m todo hpc
      obtain ⟨hnd, prior, hprior, hrest⟩ := hi.current u th m todo₀ ht hp
      exact ⟨hnd.sublist hsub, prior, hprior, fun e he => hrest e (hsub.subset he)⟩
    · exact hi.current u thu m todo hu hpc

/-- The send of a thread is numbered one past its last, and has reached no endpoint yet. -/
theorem order_sendDup {w : World} {t : ℕ} {th : Thread} {m m' : Message} {st : Store}
    {content : RawMessage.Internal} (ht : w.threads[t]? = some th) (hpc : th.pc = .sendDup m)
    (hm' : m'.origin = m.origin) (hi : w.Order) :
    (((w.setStore st).setPc t { th with pc := .sendSnap m', sent := th.sent + 1 }).log
      (.sent m.origin m content)).Order := by
  have horigin := hi.stamped t th m ht hpc
  have hsends : ∀ u, u ≠ t → sends u (w.trace ++ [.sent m.origin m content]) = sends u w.trace := by
    intro u hu
    simp [horigin, Ne.symm hu]
  have hself : sends t (w.trace ++ [.sent m.origin m content]) = sends t w.trace ++ [m.origin] := by
    simp [horigin]
  have hmine : ∀ u e, mine u e (w.trace ++ [.sent m.origin m content]) = mine u e w.trace := by
    intro u e
    simp [mine_snoc]
  constructor
  · exact hi.distinct
  · intro u
    show (sends u (w.trace ++ [.sent m.origin m content])).Pairwise _
    by_cases hu : u = t
    · subst hu
      rw [hself, List.pairwise_append]
      refine ⟨hi.increasing u, List.pairwise_singleton _ _, fun a ha b hb => ?_⟩
      rw [List.mem_singleton.mp hb, horigin]
      exact hi.bounded u th ht a ha
    · rw [hsends u hu]
      exact hi.increasing u
  · intro u thu hu id hid
    change (w.threads.set t _)[u]? = some thu at hu
    change id ∈ sends u (w.trace ++ [.sent m.origin m content]) at hid
    rcases getElem?_set_eq_some hu with ⟨rfl, rfl⟩ | ⟨hne, hu⟩
    · rw [hself] at hid
      rcases List.mem_append.mp hid with hid | hid
      · exact Nat.lt_succ_of_lt (hi.bounded u th ht id hid)
      · rw [List.mem_singleton.mp hid, horigin]
        exact Nat.lt_succ_self _
    · rw [hsends u hne] at hid
      exact hi.bounded u thu hu id hid
  · intro u e
    show (mine u e (w.trace ++ [.sent m.origin m content])).Sublist
      (sends u (w.trace ++ [.sent m.origin m content]))
    rw [hmine, sends_snoc]
    exact (hi.kept u e).trans (List.sublist_append_left _ _)
  · intro u thu m₀ hu hpc₀
    change (w.threads.set t _)[u]? = some thu at hu
    rcases getElem?_set_eq_some hu with ⟨rfl, rfl⟩ | ⟨-, hu⟩
    · cases hpc₀
    · exact hi.stamped u thu m₀ hu hpc₀
  · intro u thu m₀ todo hu hpc₀
    change (w.threads.set t _)[u]? = some thu at hu
    change pendingSend w.net.endpoints thu.pc = _ at hpc₀
    show todo.Nodup ∧ ∃ prior, sends u (w.trace ++ [.sent m.origin m content]) = _ ∧
      ∀ e ∈ todo, (mine u e (w.trace ++ [.sent m.origin m content])).Sublist prior
    rcases getElem?_set_eq_some hu with ⟨rfl, rfl⟩ | ⟨hne, hu⟩
    · simp only [pendingSend, Option.some.injEq, Prod.mk.injEq] at hpc₀
      obtain ⟨rfl, rfl⟩ := hpc₀
      refine ⟨hi.distinct, sends u w.trace, by rw [hself, hm'], fun e _ => ?_⟩
      rw [hmine]
      exact hi.kept u e
    · rw [hsends u hne]
      simp only [hmine]
      exact hi.current u thu m₀ todo hu hpc₀

/-- A put brings the thread's current send, and so its last one, to one more endpoint. -/
theorem order_put {w : World} {t : ℕ} {th : Thread} {m : Message} {e₀ : EpId} {todo : List EpId}
    {ocnt : ℕ} {ep : Endpoint.Internal} {b : Bool} (ht : w.threads[t]? = some th)
    (hpc : th.pc = .putting m e₀ todo ocnt) (hi : w.Order) :
    ((((w.setEp e₀ ep).lock e₀ b).setPc t { th with pc := .adding m e₀ todo ocnt }).log
      (.put e₀ m)).Order := by
  obtain ⟨hnd, prior, hprior, hrest⟩ := hi.current t th m (e₀ :: todo) ht (by rw [hpc]; rfl)
  have hlast : m.origin ∈ sends t w.trace := by
    rw [hprior]
    exact List.mem_append_right _ (List.mem_singleton.mpr rfl)
  have hthread : m.origin.thread = t := thread_of_mem_sends hlast
  have hsends : ∀ u, sends u (w.trace ++ [.put e₀ m]) = sends u w.trace := by simp
  have hmine : ∀ u e, ¬(u = t ∧ e = e₀) → mine u e (w.trace ++ [.put e₀ m]) = mine u e w.trace := by
    intro u e hne
    rw [mine_snoc]
    by_cases he : e₀ = e
    · have hu : t ≠ u := fun h => hne ⟨h.symm, he.symm⟩
      simp [he, hthread, hu]
    · simp [he]
  have hself : mine t e₀ (w.trace ++ [.put e₀ m]) = mine t e₀ w.trace ++ [m.origin] := by
    simp [mine_snoc, hthread]
  constructor
  · exact hi.distinct
  · intro u
    show (sends u (w.trace ++ [.put e₀ m])).Pairwise _
    rw [hsends]
    exact hi.increasing u
  · intro u thu hu id hid
    change (w.threads.set t _)[u]? = some thu at hu
    change id ∈ sends u (w.trace ++ [.put e₀ m]) at hid
    rw [hsends] at hid
    rcases getElem?_set_eq_some hu with ⟨rfl, rfl⟩ | ⟨-, hu⟩
    · exact hi.bounded u th ht id hid
    · exact hi.bounded u thu hu id hid
  · intro u e
    show (mine u e (w.trace ++ [.put e₀ m])).Sublist (sends u (w.trace ++ [.put e₀ m]))
    rw [hsends]
    by_cases hue : u = t ∧ e = e₀
    · obtain ⟨rfl, rfl⟩ := hue
      rw [hself, hprior]
      exact (hrest e List.mem_cons_self).append (List.Sublist.refl _)
    · rw [hmine u e hue]
      exact hi.kept u e
  · intro u thu m₀ hu hpc₀
    change (w.threads.set t _)[u]? = some thu at hu
    rcases getElem?_set_eq_some hu with ⟨rfl, rfl⟩ | ⟨-, hu⟩
    · cases hpc₀
    · exact hi.stamped u thu m₀ hu hpc₀
  · intro u thu m₀ todo₀ hu hpc₀
    change (w.threads.set t _)[u]? = some thu at hu
    change pendingSend w.net.endpoints thu.pc = _ at hpc₀
    show todo₀.Nodup ∧ ∃ prior, sends u (w.trace ++ [.put e₀ m]) = _ ∧
      ∀ e ∈ todo₀, (mine u e (w.trace ++ [.put e₀ m])).Sublist prior
    rw [hsends]
    rcases getElem?_set_eq_some hu with ⟨rfl, rfl⟩ | ⟨hne, hu⟩
    · simp only [pendingSend, Option.some.injEq, Prod.mk.injEq] at hpc₀
      obtain ⟨rfl, rfl⟩ := hpc₀
      obtain ⟨hnot, hnd⟩ := List.nodup_cons.mp hnd
      refine ⟨hnd, prior, hprior, fun e he => ?_⟩
      rw [hmine u e (fun h => hnot (h.2 ▸ he))]
      exact hrest e (List.mem_cons_of_mem _ he)
    · obtain ⟨hnd', prior', hprior', hrest'⟩ := hi.current u thu m₀ todo₀ hu hpc₀
      refine ⟨hnd', prior', hprior', fun e he => ?_⟩
      rw [hmine u e (fun h => hne h.1)]
      exact hrest' e he

theorem order_trans {w w' : World} (h : Trans w w') (hi : w.Order) : w'.Order := by
  cases h with
  | user h =>
    have hs := userStep_sameTraffic h
    obtain ⟨h1, h2, h3, h4, h5, h6⟩ := hi
    constructor
    · rw [hs.endpoints]; exact h1
    · rw [hs.trace]; exact h2
    · rw [hs.threads, hs.trace]; exact h3
    · rw [hs.trace]; exact h4
    · rw [hs.threads]; exact h5
    · rw [hs.threads, hs.endpoints, hs.trace]; exact h6
  | startSend ht hpc | startRecv ht hpc | sendDone ht hpc | recvNone ht hpc =>
    exact order_of_same ht rfl rfl (fun _ => rfl) (fun _ _ => rfl) rfl (by simp) (by simp [pendingSend])
      hi
  | recvDup ht hpc | recvSub ht hpc =>
    exact order_of_same ht rfl rfl (fun _ => rfl) (fun _ _ => rfl) rfl (by simp) (by simp [pendingSend])
      hi
  | sendSnap ht hpc | accept ht hpc | add ht hpc =>
    exact order_of_same ht rfl rfl (fun _ => rfl) (fun _ _ => rfl) rfl (by simp)
      (by simp [pendingSend, hpc]) hi
  | refuse ht hpc =>
    exact order_of_same ht rfl rfl (fun _ => rfl) (fun _ _ => rfl) rfl (by simp)
      (by simp [pendingSend, hpc]) hi
  | sendDup ht hpc => exact order_sendDup ht hpc (by simp) hi
  | put ht hpc => exact order_put ht hpc hi
  | recvGet ht hpc | discard ht hpc =>
    exact order_of_same ht rfl rfl (by simp) (by simp [mine_snoc]) rfl (by simp)
      (by simp [pendingSend]) hi
  | retRaw ht hpc | retSync ht hpc | retClone ht hpc =>
    exact order_of_same ht rfl rfl (by simp [giveBack]) (by simp [giveBack, mine_snoc]) rfl (by simp)
      (by simp [pendingSend]) hi

end World

end WaterNet.Traffic
