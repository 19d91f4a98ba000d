import WaterNet.Traffic.Ledger

/-!
# Who owns a buffer

Every raw buffer is either the network's, made by one of the duplications of `Net::send` and
`Internal::recv`, or user code's.  Messages in queues and in the hands of library calls carry raw
buffers of the network only, messages user code holds carry buffers of its own only, and user code
changes no buffer but its own.  So a queued raw message still holds what its send found.

* `Owned own w` — the invariant, for a colouring `own` of the buffers; `owned_trans` is its step;
* `HandedOut` — what was returned is in a buffer of its own and is what its send found;
  `handedOut_trans` is its step.
-/

namespace WaterNet.Traffic

open WaterNet.Lib.Pool (mem_set_or)

/-- The message a thread has handed to a send that has not yet duplicated it. -/
def Pc.pending : Pc → List Message
  | .sendDup m => [m]
  | _ => []

/-- The messages a thread has in its hands past the duplication of a send, or inside a `recv`. -/
def Pc.carried : Pc → List Message
  | .sendSnap m | .giving m _ _ | .putting m _ _ _ | .adding m _ _ _ => [m]
  | .recvDup _ copy => [copy]
  | .recvSub _ copy msg | .recvEnd _ copy msg => [copy, msg]
  | _ => []

/-- The queue entry a `recv` works on, beside what it made of it. -/
def Pc.working : Pc → Option (Message × Message)
  | .recvSub _ copy msg | .recvEnd _ copy msg => some (copy, msg)
  | _ => none

/-- User code may hold `m`: it reaches none of the network's buffers. -/
structure UserOwned (own : ℕ → Bool) (st : Store) (m : Message) : Prop where
  buf : m.buf < st.nbuf
  owner : own m.buf = false
  flag : ∀ f, m.flag = some f → f < st.nvalid

/-- What a send found: the message `m₀`, and `content` in its buffer. -/
def SentAs (tr : List Event) (m m₀ : Message) (content : RawMessage.Internal) : Prop :=
  .sent m.origin m₀ content ∈ tr ∧ m₀.isRaw = m.isRaw ∧ (m.isRaw = false → m₀ = m)

/-- The network may carry `m`: a raw message in a buffer of the network's with what its send found,
any other message as its send found it. -/
structure NetOwned (own : ℕ → Bool) (st : Store) (tr : List Event) (m : Message) : Prop where
  buf : m.buf < st.nbuf
  owner : own m.buf = m.isRaw
  flag : ∀ f, m.flag = some f → f < st.nvalid
  sent : ∃ m₀ content, SentAs tr m m₀ content ∧ (m.isRaw = true → st.buf m.buf = content.dup)

/-- What `recv` makes of a queue entry: the entry itself, or a duplicate of a raw one. -/
structure MadeOf (copy msg : Message) : Prop where
  origin : msg.origin = copy.origin
  raw : msg.isRaw = copy.isRaw
  same : copy.isRaw = false → msg = copy

structure ThreadOwned (own : ℕ → Bool) (st : Store) (tr : List Event) (th : Thread) : Prop where
  pending : ∀ m ∈ th.pc.pending, UserOwned own st m
  carried : ∀ m ∈ th.pc.carried, NetOwned own st tr m
  working : ∀ copy msg, th.pc.working = some (copy, msg) → MadeOf copy msg

/-! ### Growth of the heap -/

/-- Nothing is freed, no buffer changes hands, and the network's buffers keep their contents. -/
structure Grows (own : ℕ → Bool) (st : Store) (tr : List Event) (own' : ℕ → Bool) (st' : Store)
    (tr' : List Event) : Prop where
  nbuf : st.nbuf ≤ st'.nbuf
  nvalid : st.nvalid ≤ st'.nvalid
  owner : ∀ b < st.nbuf, own' b = own b
  buf : ∀ b < st.nbuf, own b = true → st'.buf b = st.buf b
  trace : ∀ ev ∈ tr, ev ∈ tr'

theorem Grows.refl (own : ℕ → Bool) (st : Store) (tr : List Event) : Grows own st tr own st tr :=
  ⟨le_rfl, le_rfl, fun _ _ => rfl, fun _ _ _ => rfl, fun _ h => h⟩

/-- Logging an event. -/
theorem Grows.snoc {own own' : ℕ → Bool} {st st' : Store} {tr : List Event}
    (h : Grows own st tr own' st' tr) (ev : Event) : Grows own st tr own' st' (tr ++ [ev]) :=
  ⟨h.nbuf, h.nvalid, h.owner, h.buf, fun _ hx => List.mem_append_left _ hx⟩

/-- A new buffer, for either owner. -/
theorem Grows.newBuf (own : ℕ → Bool) (st : Store) (tr : List Event) (i : RawMessage.Internal)
    (b : Bool) : Grows own st tr (Function.update own st.nbuf b) (st.newBuf i).2 tr := by
  refine ⟨Nat.le_succ _, le_rfl, fun x hx => ?_, fun x hx _ => ?_, fun _ h => h⟩
  · exact Function.update_of_ne (Nat.ne_of_lt hx) _ _
  · exact Store.newBuf_buf_of_lt st i hx

/-- A new flag. -/
theorem Grows.newValid {own own' : ℕ → Bool} {st st' : Store} {tr tr' : List Event}
    (h : Grows own st tr own' st' tr') : Grows own st tr own' st'.newValid.2 tr' :=
  ⟨h.nbuf, Nat.le_succ_of_le h.nvalid, h.owner, h.buf, h.trace⟩

/-- User code writes to a buffer of its own. -/
theorem Grows.setBuf {own : ℕ → Bool} {st : Store} (tr : List Event) {r : RawMessage}
    (h : own r.i = false) (i : RawMessage.Internal) : Grows own st tr own (st.setBuf r i) tr := by
  refine ⟨le_rfl, le_rfl, fun _ _ => rfl, fun b _ hb => ?_, fun _ hx => hx⟩
  have hne : b ≠ r.i := fun heq => by simp [heq, h] at hb
  exact Function.update_of_ne hne _ _

theorem UserOwned.grow {own own' : ℕ → Bool} {st st' : Store} {tr tr' : List Event} {m : Message}
    (h : UserOwned own st m) (hg : Grows own st tr own' st' tr') : UserOwned own' st' m where
  buf := lt_of_lt_of_le h.buf hg.nbuf
  owner := by rw [hg.owner _ h.buf, h.owner]
  flag f hf := lt_of_lt_of_le (h.flag f hf) hg.nvalid

theorem NetOwned.grow {own own' : ℕ → Bool} {st st' : Store} {tr tr' : List Event} {m : Message}
    (h : NetOwned own st tr m) (hg : Grows own st tr own' st' tr') : NetOwned own' st' tr' m where
  buf := lt_of_lt_of_le h.buf hg.nbuf
  owner := by rw [hg.owner _ h.buf, h.owner]
  flag f hf := lt_of_lt_of_le (h.flag f hf) hg.nvalid
  sent := by
    obtain ⟨m₀, content, ⟨hsent, hraw, hsame⟩, hbuf⟩ := h.sent
    refine ⟨m₀, content, ⟨hg.trace _ hsent, hraw, hsame⟩, fun hr => ?_⟩
    rw [hg.buf _ h.buf (by rw [h.owner, hr]), hbuf hr]

theorem ThreadOwned.grow {own own' : ℕ → Bool} {st st' : Store} {tr tr' : List Event} {th : Thread}
    (h : ThreadOwned own st tr th) (hg : Grows own st tr own' st' tr') :
    ThreadOwned own' st' tr' th where
  pending m hm := (h.pending m hm).grow hg
  carried m hm := (h.carried m hm).grow hg
  working := h.working

/-- Owning a message is a matter of its payload. -/
theorem UserOwned.of_payload {own : ℕ → Bool} {st : Store} {m m' : Message}
    (h : UserOwned own st m) (hp : m'.payload = m.payload) : UserOwned own st m' where
  buf := by
    rw [show m'.buf = m.buf by simp [Message.buf, hp]]
    exact h.buf
  owner := by
    rw [show m'.buf = m.buf by simp [Message.buf, hp]]
    exact h.owner
  flag f hf := h.flag f (by rw [← hf]; simp [Message.flag, hp])

/-- A raw message over a buffer just made for user code. -/
theorem userOwned_newBuf (own : ℕ → Bool) (st : Store) (i : RawMessage.Internal) {m : Message}
    (hb : m.buf = st.nbuf) (hf : m.flag = none) :
    UserOwned (Function.update own st.nbuf false) (st.newBuf i).2 m where
  buf := by simp [hb]
  owner := by simp [hb]
  flag f h := by simp [hf] at h

/-- What a network message is turned into on its way to user code, when it is not raw. -/
theorem NetOwned.toUser {own : ℕ → Bool} {st : Store} {tr : List Event} {m : Message}
    (h : NetOwned own st tr m) (hraw : m.isRaw = false) : UserOwned own st m :=
  ⟨h.buf, by rw [h.owner, hraw], h.flag⟩

/-- A duplicate of a network message is a network message, with the same content. -/
theorem NetOwned.onFresh {own : ℕ → Bool} {st : Store} {tr : List Event} {m : Message}
    (h : NetOwned own st tr m) (hraw : m.isRaw = true) :
    NetOwned (Function.update own st.nbuf true) (st.newBuf (st.buf m.buf).dup).2 tr
      (m.onFresh st) where
  buf := by simp
  owner := by simp
  flag f hf := by simp at hf
  sent := by
    obtain ⟨m₀, content, ⟨hsent, hr, -⟩, hbuf⟩ := h.sent
    refine ⟨m₀, content, ⟨hsent, by rw [hr, hraw]; rfl, fun hn => ?_⟩, fun _ => ?_⟩
    · cases hn
    · rw [Message.onFresh_buf, Store.newBuf_buf_self, hbuf hraw, RawMessage.Internal.dup_dup]

namespace World

/-! ### The invariant -/

/-- Messages user code holds are user code's, messages in queues and in calls are the network's. -/
structure Owned (own : ℕ → Bool) (w : World) : Prop where
  held : ∀ m ∈ w.held, UserOwned own w.net.store m
  threads : ∀ th ∈ w.threads, ThreadOwned own w.net.store w.trace th
  queued : ∀ e, ∀ m ∈ (w.net.eps e).messages, NetOwned own w.net.store w.trace m

/-- What a step leaves in place stays owned when the heap grows. -/
theorem Owned.grow {own own' : ℕ → Bool} {w w' : World} (hi : Owned own w)
    (hg : Grows own w.net.store w.trace own' w'.net.store w'.trace)
    (hheld : ∀ m ∈ w'.held, m ∈ w.held ∨ UserOwned own' w'.net.store m)
    (hthreads : ∀ th ∈ w'.threads,
      th ∈ w.threads ∨ ThreadOwned own' w'.net.store w'.trace th)
    (hqueued : ∀ e, ∀ m ∈ (w'.net.eps e).messages,
      m ∈ (w.net.eps e).messages ∨ NetOwned own' w'.net.store w'.trace m) : Owned own' w' where
  held m hm := (hheld m hm).elim (fun h => (hi.held m h).grow hg) id
  threads th hth := (hthreads th hth).elim (fun h => (hi.threads th h).grow hg) id
  queued e m hm := (hqueued e m hm).elim (fun h => (hi.queued e m h).grow hg) id

theorem mem_snoc_or {m m' : Message} {ms : List Message} {P : Message → Prop} (h : m ∈ ms ++ [m'])
    (hP : P m') : m ∈ ms ∨ P m := by
  rcases List.mem_append.mp h with h | h
  · exact Or.inl h
  · exact Or.inr (List.mem_singleton.mp h ▸ hP)

/-- What is queued after an endpoint was replaced was queued before, if that is so at the endpoint. -/
theorem mem_queue_update {eps : EpId → Endpoint.Internal} {e e' : EpId} {ep : Endpoint.Internal}
    {m : Message} {p : Prop} (hep : m ∈ ep.messages → m ∈ (eps e).messages ∨ p)
    (hm : m ∈ (Function.update eps e ep e').messages) : m ∈ (eps e').messages ∨ p := by
  by_cases he : e' = e
  · subst he
    rw [Function.update_self] at hm
    exact hep hm
  · rw [Function.update_of_ne he] at hm
    exact Or.inl hm

theorem owned_user {own : ℕ → Bool} {w w' : World} {op : UserOp} (h : w.userStep op = some w')
    (hi : Owned own w) :
    ∃ own', Grows own w.net.store w.trace own' w'.net.store w'.trace ∧ Owned own' w' := by
  have hs := userStep_sameTraffic h
  -- an operation leaves threads and queues alone, so only the heap and `held` matter
  suffices hsuff : ∃ own', Grows own w.net.store w.trace own' w'.net.store w'.trace ∧
      ∀ m ∈ w'.held, m ∈ w.held ∨ UserOwned own' w'.net.store m by
    obtain ⟨own', hg, hheld⟩ := hsuff
    exact ⟨own', hg, hi.grow hg hheld (fun th hth => Or.inl (hs.threads ▸ hth))
      (fun e m hm => Or.inl (hs.queues e ▸ hm))⟩
  cases op with
  | newRaw junk cap =>
    cases h
    exact ⟨_, Grows.newBuf own _ _ _ false, fun m hm =>
      mem_snoc_or hm (userOwned_newBuf own _ _ rfl rfl)⟩
  | newClone junk ty t =>
    cases h
    exact ⟨_, Grows.newBuf own _ _ _ false, fun m hm =>
      mem_snoc_or hm (userOwned_newBuf own _ _ rfl rfl)⟩
  | newSync junk ty t =>
    cases h
    refine ⟨_, (Grows.newBuf own _ _ _ false).newValid, fun m hm => mem_snoc_or hm ?_⟩
    refine ⟨Nat.lt_succ_self _, ?_, fun f hf => ?_⟩
    · exact Function.update_self ..
    · cases hf
      exact Nat.lt_succ_self _
  | setHeader i =>
    simp only [userStep, Option.map_eq_some_iff] at h
    obtain ⟨m₀, hm₀, rfl⟩ := h
    refine ⟨own, Grows.refl .., fun m hm => ?_⟩
    rcases List.mem_or_eq_of_mem_set hm with hm | rfl
    · exact Or.inl hm
    · exact Or.inr ((hi.held m₀ (List.mem_of_getElem? hm₀)).of_payload rfl)
  | clone i =>
    simp only [userStep, Option.bind_eq_bind, Option.bind_eq_some_iff] at h
    obtain ⟨m₀, hm₀, m', hm', h⟩ := h
    cases h
    rw [Message.clone_eq, Option.ite_none_left_eq_some, Option.some.injEq] at hm'
    exact ⟨own, Grows.refl .., fun m hm =>
      mem_snoc_or hm (hm'.2 ▸ hi.held m₀ (List.mem_of_getElem? hm₀))⟩
  | dup i =>
    simp only [userStep, Option.bind_eq_bind, Option.bind_eq_some_iff] at h
    obtain ⟨m₀, hm₀, ⟨m', st⟩, hm', h⟩ := h
    cases h
    obtain ⟨-, rfl, rfl⟩ := Message.dup_eq_some hm'
    exact ⟨_, Grows.newBuf own _ _ _ false, fun m hm =>
      mem_snoc_or hm (userOwned_newBuf own _ _ rfl rfl)⟩
  | fromPayload i =>
    simp only [userStep, Option.map_eq_some_iff] at h
    obtain ⟨m₀, hm₀, rfl⟩ := h
    have hown := hi.held m₀ (List.mem_of_getElem? hm₀)
    exact ⟨own, Grows.refl .., fun m hm =>
      mem_snoc_or hm ⟨hown.buf, hown.owner, fun f hf => by cases hf⟩⟩
  | write i op =>
    simp only [userStep, Option.bind_eq_bind, Option.bind_eq_some_iff] at h
    obtain ⟨m₀, hm₀, b, -, h⟩ := h
    cases h
    exact ⟨own, Grows.setBuf _ (hi.held m₀ (List.mem_of_getElem? hm₀)).owner _,
      fun m hm => Or.inl hm⟩
  | drop i =>
    cases h
    exact ⟨own, Grows.refl .., fun m hm => Or.inl (List.mem_of_mem_eraseIdx hm)⟩
  | setAddress | setLimits =>
    cases h
    exact ⟨own, Grows.refl .., fun m hm => Or.inl hm⟩

theorem threadOwned_of_empty {own : ℕ → Bool} {st : Store} {tr : List Event} {th : Thread}
    (hp : th.pc.pending = []) (hc : th.pc.carried = []) (hw : th.pc.working = none) :
    ThreadOwned own st tr th :=
  ⟨by simp [hp], by simp [hc], by simp [hw]⟩

/-- Before any step there is nothing to own. -/
theorem owned_init {w : World} (h : Init w) : Owned (fun _ => false) w := by
  refine ⟨?_, fun th hth => ?_, ?_⟩
  · simp [h.held]
  · have hidle := h.threads th hth
    exact threadOwned_of_empty (by rw [hidle]; rfl) (by rw [hidle]; rfl) (by rw [hidle]; rfl)
  · simp [h.queues]

/-- A step of a thread that allocates nothing, and ends at a point whose messages are owned. -/
theorem Owned.move {own : ℕ → Bool} {w w' : World} {t : ℕ} {th' : Thread} (hi : Owned own w)
    (hstore : w'.net.store = w.net.store) (htrace : ∀ ev ∈ w.trace, ev ∈ w'.trace)
    (hthreads : w'.threads = w.threads.set t th')
    (hth' : ThreadOwned own w.net.store w.trace th')
    (hheld : ∀ m ∈ w'.held, m ∈ w.held)
    (hqueued : ∀ e, ∀ m ∈ (w'.net.eps e).messages,
      m ∈ (w.net.eps e).messages ∨ NetOwned own w.net.store w.trace m) :
    ∃ own', Grows own w.net.store w.trace own' w'.net.store w'.trace ∧ Owned own' w' := by
  have hg : Grows own w.net.store w.trace own w'.net.store w'.trace := by
    rw [hstore]
    exact ⟨le_rfl, le_rfl, fun _ _ => rfl, fun _ _ _ => rfl, htrace⟩
  refine ⟨own, hg, hi.grow hg (fun m hm => Or.inl (hheld m hm)) (fun th hth => ?_)
    (fun e m hm => (hqueued e m hm).imp_right fun h => h.grow hg)⟩
  rw [hthreads] at hth
  exact mem_set_or hth (hth'.grow hg)

/-- The copy a send puts on the net is the network's. -/
theorem netOwned_copied {own : ℕ → Bool} {net : Net} {m : Message}
    (h : UserOwned own net.store m) (tr : List Event) :
    ∃ own', Grows own net.store tr own' (net.copied m).2.store
        (tr ++ [.sent m.origin m (net.store.buf m.buf)]) ∧
      NetOwned own' (net.copied m).2.store (tr ++ [.sent m.origin m (net.store.buf m.buf)])
        (net.copied m).1 := by
  by_cases hraw : m.isRaw = true
  · rw [Net.copied, if_pos hraw]
    refine ⟨_, (Grows.newBuf own _ _ _ true).snoc _, ⟨by simp, by simp, fun f hf => ?_, ?_⟩⟩
    · simp at hf
    · exact ⟨m, net.store.buf m.buf, ⟨by simp, by simp [hraw], fun h => by simp at h⟩, by simp⟩
  · rw [Net.copied, if_neg hraw]
    have hraw : m.isRaw = false := Bool.eq_false_iff.mpr hraw
    refine ⟨own, (Grows.refl ..).snoc _, ⟨h.buf, by rw [h.owner, hraw], h.flag, ?_⟩⟩
    exact ⟨m, net.store.buf m.buf, ⟨by simp, rfl, fun _ => rfl⟩, fun h => by simp [hraw] at h⟩

/-- The buffers grow by at most one duplicate when a `recv` takes a queue entry in hand. -/
theorem netOwned_dupIfok {own : ℕ → Bool} {st : Store} {tr : List Event} {m : Message}
    (h : NetOwned own st tr m) :
    ∃ own', Grows own st tr own' (m.dupIfok st).2 tr ∧
      NetOwned own' (m.dupIfok st).2 tr (m.dupIfok st).1 ∧ MadeOf m (m.dupIfok st).1 := by
  by_cases hraw : m.isRaw = true
  · rw [Message.dupIfok_raw hraw]
    exact ⟨_, Grows.newBuf own _ _ _ true, h.onFresh hraw,
      ⟨rfl, by simp [hraw], fun hn => by simp [hraw] at hn⟩⟩
  · rw [Message.dupIfok_of_not_raw (Bool.eq_false_iff.mpr hraw)]
    exact ⟨own, Grows.refl .., h, ⟨rfl, rfl, fun _ => rfl⟩⟩

/-- Returning a message: user code owns it, and the thread is done. -/
theorem Owned.giveBack {own own' : ℕ → Bool} {w : World} {st : Store} {t : ℕ} {th : Thread}
    {e : EpId} {copy msg : Message} (hi : Owned own w)
    (hg : Grows own w.net.store w.trace own' st w.trace) (hmsg : UserOwned own' st msg) :
    ∃ own', Grows own w.net.store w.trace own' st ((w.setStore st).giveBack t th e copy msg).trace ∧
      Owned own' ((w.setStore st).giveBack t th e copy msg) := by
  refine ⟨own', hg.snoc _, hi.grow (hg.snoc _) (fun m hm => mem_snoc_or hm hmsg) (fun th' hth => ?_)
    (fun e m hm => Or.inl hm)⟩
  exact mem_set_or hth (threadOwned_of_empty rfl rfl rfl)

theorem stamp_payload (how : Sender) (net : Net) (m : Message) :
    (how.stamp net m).payload = m.payload := by
  cases how <;> rfl

/-- **Ownership is kept by every step**, and the heap only grows. -/
theorem owned_trans {own : ℕ → Bool} {w w' : World} (h : Trans w w') (hi : Owned own w) :
    ∃ own', Grows own w.net.store w.trace own' w'.net.store w'.trace ∧ Owned own' w' := by
  -- what the thread that moves has in its hands
  have hcar : ∀ {t : ℕ} {th : Thread} {m : Message}, w.threads[t]? = some th → m ∈ th.pc.carried →
      NetOwned own w.net.store w.trace m :=
    fun ht hm => (hi.threads _ (List.mem_of_getElem? ht)).carried _ hm
  cases h with
  | user h => exact owned_user h hi
  | @startSend t th i m how ht hpc hm =>
    have hm' := hi.held m (List.mem_of_getElem? hm)
    refine hi.move rfl (fun _ h => h) rfl ⟨fun x hx => ?_, by simp [Pc.carried], by simp [Pc.working]⟩
      (fun x hx => List.mem_of_mem_eraseIdx hx) (fun e x hx => Or.inl hx)
    rw [List.mem_singleton.mp hx]
    exact hm'.of_payload (stamp_payload how w.net m)
  | startRecv ht hpc | sendDone ht hpc | recvNone ht hpc =>
    exact hi.move rfl (fun _ h => h) rfl (threadOwned_of_empty rfl rfl rfl) (fun _ h => h)
      (fun _ _ h => Or.inl h)
  | @sendDup t th m ht hpc =>
    have hm := (hi.threads _ (List.mem_of_getElem? ht)).pending m (by simp [hpc, Pc.pending])
    obtain ⟨own', hg, hnet⟩ := netOwned_copied hm w.trace
    refine ⟨own', hg, hi.grow hg (fun _ h => Or.inl h) (fun th' hth => mem_set_or hth ?_)
      (fun _ _ h => Or.inl h)⟩
    exact ⟨by simp [Pc.pending], fun x hx => List.mem_singleton.mp hx ▸ hnet, by simp [Pc.working]⟩
  | @sendSnap t th m ht hpc | @accept t th m e todo ocnt ht hpc hacc
  | @refuse t th m e todo ocnt ht hpc hacc =>
    have hm := hcar (m := m) ht (by simp [hpc, Pc.carried])
    exact hi.move rfl (fun _ h => h) rfl
      ⟨by simp [Pc.pending], fun x hx => List.mem_singleton.mp hx ▸ hm, by simp [Pc.working]⟩
      (fun _ h => h) (fun _ _ h => Or.inl h)
  | @put t th m e todo ocnt ht hpc hfree =>
    have hm := hcar (m := m) ht (by simp [hpc, Pc.carried])
    refine hi.move rfl (fun _ h => List.mem_append_left _ h) rfl
      ⟨by simp [Pc.pending], fun x hx => List.mem_singleton.mp hx ▸ hm, by simp [Pc.working]⟩
      (fun _ h => h) (fun e' x hx => mem_queue_update (fun h => ?_) hx)
    exact mem_snoc_or (by simpa using h) hm
  | @add t th m e todo ocnt ht hpc =>
    have hm := hcar (m := m) ht (by simp [hpc, Pc.carried])
    refine hi.move rfl (fun _ h => h) rfl
      ⟨by simp [Pc.pending], fun x hx => List.mem_singleton.mp hx ▸ hm, by simp [Pc.working]⟩
      (fun _ h => h) (fun e' x hx => mem_queue_update (fun h => Or.inl ?_) hx)
    simpa using h
  | @recvGet t th e copy rest ht hpc hq =>
    have hcopy := hi.queued e copy (by simp [hq])
    refine hi.move rfl (fun _ h => List.mem_append_left _ h) rfl
      ⟨by simp [Pc.pending], fun x hx => List.mem_singleton.mp hx ▸ hcopy, by simp [Pc.working]⟩
      (fun _ h => h) (fun e' x hx => mem_queue_update (fun h => Or.inl ?_) hx)
    rw [hq]
    exact List.mem_cons_of_mem _ (by simpa using h)
  | @recvDup t th e copy ht hpc =>
    have hcopy := hcar (m := copy) ht (by simp [hpc, Pc.carried])
    obtain ⟨own', hg, hnet, hmade⟩ := netOwned_dupIfok hcopy
    refine ⟨own', hg, hi.grow hg (fun _ h => Or.inl h) (fun th' hth => mem_set_or hth ?_)
      (fun _ _ h => Or.inl h)⟩
    refine ⟨by simp [Pc.pending], fun x hx => ?_, fun c m hcm => ?_⟩
    · rcases List.mem_pair.mp hx with rfl | rfl
      · exact hcopy.grow hg
      · exact hnet
    · cases hcm
      exact hmade
  | @recvSub t th e copy msg ht hpc =>
    have hth := hi.threads _ (List.mem_of_getElem? ht)
    refine hi.move rfl (fun _ h => h) rfl
      ⟨by simp [Pc.pending], fun x hx => hth.carried x (by rw [hpc]; exact hx),
        fun c m hcm => hth.working c m (by rw [hpc]; exact hcm)⟩
      (fun _ h => h) (fun e' x hx => mem_queue_update (fun h => Or.inl ?_) hx)
    simpa using h
  | @retRaw t th e copy msg ht hpc hraw =>
    exact hi.giveBack (Grows.newBuf own _ _ _ false) (userOwned_newBuf own _ _ rfl rfl)
  | @retSync t th e copy msg s ht hpc hs hv =>
    have hmsg := hcar (m := msg) ht (by simp [hpc, Pc.carried])
    have huser := hmsg.toUser (Message.isRaw_false_of_sync hs)
    exact hi.giveBack ⟨le_rfl, le_rfl, fun _ _ => rfl, fun _ _ _ => rfl, fun _ h => h⟩
      ⟨huser.buf, huser.owner, huser.flag⟩
  | @retClone t th e copy msg c ht hpc hc =>
    have hmsg := hcar (m := msg) ht (by simp [hpc, Pc.carried])
    exact hi.giveBack (Grows.refl own w.net.store w.trace)
      (hmsg.toUser (Message.isRaw_false_of_clone hc))
  | discard ht hpc =>
    exact hi.move rfl (fun _ h => List.mem_append_left _ h) rfl (threadOwned_of_empty rfl rfl rfl)
      (fun _ h => h) (fun _ _ h => Or.inl h)

end World

/-! ### What user code gets back -/

/-- The buffer of the raw message that a `recv` returned. -/
@[simp] def Event.handedBuf : Event → Option ℕ
  | .returned _ _ _ msg _ => if msg.isRaw then some msg.buf else none
  | _ => none

/-- The buffers of the raw messages returned so far. -/
def handed (tr : List Event) : List ℕ := tr.filterMap Event.handedBuf

@[simp] theorem handed_snoc (tr : List Event) (ev : Event) :
    handed (tr ++ [ev]) = handed tr ++ ev.handedBuf.toList :=
  filterMap_snoc _ _ _

theorem SentAs.mono {tr tr' : List Event} {m m₀ : Message} {content : RawMessage.Internal}
    (h : SentAs tr m m₀ content) (htr : ∀ ev ∈ tr, ev ∈ tr') : SentAs tr' m m₀ content :=
  ⟨htr _ h.1, h.2⟩

namespace World

/-- No two raw messages were returned in one buffer, and each message returned is what its send
found: a raw one has the duplicate of the content, any other is the message itself. -/
structure HandedOut (w : World) : Prop where
  fresh : ∀ b ∈ handed w.trace, b < w.net.store.nbuf
  nodup : (handed w.trace).Nodup
  content : ∀ e id copy msg content, .returned e id copy msg content ∈ w.trace →
    MadeOf copy msg ∧ ∃ m₀ content₀, SentAs w.trace msg m₀ content₀ ∧
      (msg.isRaw = true → content = content₀.dup)

/-- A step that returns nothing. -/
theorem HandedOut.same {own own' : ℕ → Bool} {w w' : World} (hi : w.HandedOut)
    (hg : Grows own w.net.store w.trace own' w'.net.store w'.trace)
    (htr : ∀ ev ∈ w'.trace, ev ∈ w.trace ∨ ∀ e id copy msg content,
      ev ≠ .returned e id copy msg content)
    (hh : handed w'.trace = handed w.trace) : w'.HandedOut where
  fresh b hb := lt_of_lt_of_le (hi.fresh b (hh ▸ hb)) hg.nbuf
  nodup := by
    rw [hh]
    exact hi.nodup
  content e id copy msg content hev := by
    rcases htr _ hev with h | h
    · obtain ⟨hmade, m₀, content₀, hsent, hc⟩ := hi.content e id copy msg content h
      exact ⟨hmade, m₀, content₀, hsent.mono hg.trace, hc⟩
    · exact absurd rfl (h e id copy msg content)

theorem HandedOut.giveBack {w : World} {st : Store} {t : ℕ} {th : Thread} {e : EpId}
    {copy msg : Message} (hi : w.HandedOut) (hnbuf : w.net.store.nbuf ≤ st.nbuf)
    (hfresh : msg.isRaw = true → w.net.store.nbuf ≤ msg.buf ∧ msg.buf < st.nbuf)
    (hmade : MadeOf copy msg) (hsent : ∃ m₀ content₀, SentAs w.trace msg m₀ content₀ ∧
      (msg.isRaw = true → st.buf msg.buf = content₀.dup)) :
    ((w.setStore st).giveBack t th e copy msg).HandedOut := by
  have htrace : ((w.setStore st).giveBack t th e copy msg).trace =
      w.trace ++ [.returned e ⟨t, th.recvs⟩ copy msg (st.buf msg.buf)] := rfl
  have hhanded : handed ((w.setStore st).giveBack t th e copy msg).trace =
      handed w.trace ++ (if msg.isRaw then some msg.buf else none).toList := by
    rw [htrace, handed_snoc, Event.handedBuf]
  constructor
  · intro b hb
    rw [hhanded, List.mem_append] at hb
    show b < st.nbuf
    rcases hb with hb | hb
    · exact lt_of_lt_of_le (hi.fresh b hb) hnbuf
    · by_cases hraw : msg.isRaw = true
      · rw [if_pos hraw] at hb
        exact List.mem_singleton.mp hb ▸ (hfresh hraw).2
      · simp [hraw] at hb
  · rw [hhanded]
    by_cases hraw : msg.isRaw = true
    · rw [if_pos hraw]
      refine List.nodup_append.mpr ⟨hi.nodup, List.pairwise_singleton _ _, fun a ha b hb => ?_⟩
      have hlt := hi.fresh a ha
      have hge := (hfresh hraw).1
      rw [List.mem_singleton.mp hb]
      omega
    · simpa [hraw] using hi.nodup
  · intro e' id copy' msg' content hev
    rw [htrace] at hev ⊢
    have hold : ∀ ev ∈ w.trace, ev ∈ w.trace ++ [.returned e ⟨t, th.recvs⟩ copy msg (st.buf msg.buf)] :=
      fun ev h => List.mem_append_left _ h
    rcases List.mem_append.mp hev with hev | hev
    · obtain ⟨hm, m₀, content₀, hs, hc⟩ := hi.content e' id copy' msg' content hev
      exact ⟨hm, m₀, content₀, hs.mono hold, hc⟩
    · cases List.mem_singleton.mp hev
      obtain ⟨m₀, content₀, hs, hc⟩ := hsent
      exact ⟨hmade, m₀, content₀, hs.mono hold, hc⟩

/-- A non-raw message is returned as the queue entry is. -/
theorem HandedOut.giveBack_same {own : ℕ → Bool} {w : World} {t : ℕ} {th : Thread} {e : EpId}
    {copy msg : Message} {st : Store} (hi : w.HandedOut) (hnbuf : w.net.store.nbuf ≤ st.nbuf)
    (hmade : MadeOf copy msg) (hmsg : NetOwned own w.net.store w.trace msg)
    (hraw : msg.isRaw = false) : ((w.setStore st).giveBack t th e copy msg).HandedOut := by
  obtain ⟨m₀, content₀, hs, -⟩ := hmsg.sent
  have hnot : ¬msg.isRaw = true := by simp [hraw]
  exact hi.giveBack hnbuf (fun h => absurd h hnot) hmade ⟨m₀, content₀, hs, fun h => absurd h hnot⟩

theorem handedOut_trans {own : ℕ → Bool} {w w' : World} (h : Trans w w') (ho : Owned own w)
    (hi : w.HandedOut) : w'.HandedOut := by
  obtain ⟨own', hg, -⟩ := owned_trans h ho
  cases h with
  | user h =>
    have htrace := (userStep_sameTraffic h).trace
    exact hi.same hg (fun _ hev => Or.inl (htrace ▸ hev)) (by rw [htrace])
  | startSend | startRecv | sendSnap | sendDone | accept | refuse | add | recvNone | recvDup
  | recvSub => exact hi.same hg (fun _ h => Or.inl h) rfl
  | sendDup | put | recvGet | discard =>
    refine hi.same hg (fun ev h => ?_) (by simp)
    rcases List.mem_append.mp h with h | h
    · exact Or.inl h
    · refine Or.inr fun _ _ _ _ _ heq => ?_
      cases List.mem_singleton.mp h
      cases heq
  | @retRaw t th e copy msg ht hpc hraw =>
    have hth := ho.threads _ (List.mem_of_getElem? ht)
    have hmade := hth.working copy msg (by simp [hpc, Pc.working])
    have hmsg := hth.carried msg (by simp [hpc, Pc.carried])
    have hcopy : copy.isRaw = true := by rw [← hmade.raw, hraw]
    refine hi.giveBack (Nat.le_succ _) (fun _ => ?_) ⟨hmade.origin, by simp [hcopy], fun h => ?_⟩
      (hmsg.onFresh hraw).sent
    · exact ⟨le_rfl, Nat.lt_succ_self _⟩
    · simp [hcopy] at h
  | @retSync t th e copy msg s ht hpc hs hv =>
    have hth := ho.threads _ (List.mem_of_getElem? ht)
    exact hi.giveBack_same le_rfl (hth.working copy msg (by simp [hpc, Pc.working]))
      (hth.carried msg (by simp [hpc, Pc.carried])) (Message.isRaw_false_of_sync hs)
  | @retClone t th e copy msg c ht hpc hc =>
    have hth := ho.threads _ (List.mem_of_getElem? ht)
    show ((w.setStore w.net.store).giveBack t th e copy msg).HandedOut
    exact hi.giveBack_same le_rfl
      (hth.working copy msg (by simp [hpc, Pc.working]))
      (hth.carried msg (by simp [hpc, Pc.carried])) (Message.isRaw_false_of_clone hc)

end World

end WaterNet.Traffic
