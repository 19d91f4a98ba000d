import WaterNet.RawMessage.Shared
import WaterNet.Traffic.Typed

/-!
# Where a message that a `recv` returned comes from

`Net::send` and `Endpoint::recv` duplicate the payload of a message and leave its header alone, and
`Endpoint::give` puts a message only into the queue of an endpoint that took it.

* `Passed Q w`, `passed_trans` — every message on its way has the header its send found, and one
  at an endpoint meets what that endpoint asks of a header, `Q`;
* `Sized`, `sized_step` — every buffer has the size of its capacity, and is not empty;
* `Good.provenance` — **what was returned at an endpoint was sent**: with the same header, which the
  endpoint took, and with the duplicate of its bytes.
-/

namespace WaterNet

open RawMessage (Internal)

/-- The header fields of a message, as `Net.header` lists them. -/
abbrev Header := ID × ID × ID × ID × Bool

@[simp] theorem Message.onFresh_header (m : Message) (st : Store) :
    Net.header (m.onFresh st) = Net.header m := rfl

@[simp] theorem Message.dupIfok_header (m : Message) (st : Store) :
    Net.header (m.dupIfok st).1 = Net.header m := by
  by_cases hraw : m.isRaw = true
  · rw [Message.dupIfok_raw hraw]
    rfl
  · rw [Message.dupIfok_of_not_raw (Bool.eq_false_iff.mpr hraw)]

@[simp] theorem Message.dupIfok_origin (m : Message) (st : Store) :
    (m.dupIfok st).1.origin = m.origin := by
  by_cases hraw : m.isRaw = true
  · rw [Message.dupIfok_raw hraw]
    rfl
  · rw [Message.dupIfok_of_not_raw (Bool.eq_false_iff.mpr hraw)]

namespace Traffic

open WaterNet.Lib.Pool (getElem?_set_eq_some)

/-- The messages that an endpoint has taken and a thread has in its hands. -/
def Pc.inside : Pc → List (EpId × Message)
  | .putting m e _ _ => [(e, m)]
  | .recvDup e copy => [(e, copy)]
  | .recvSub e copy msg | .recvEnd e copy msg => [(e, copy), (e, msg)]
  | _ => []

/-- The thread is in no call, or in a `recv` at the endpoint `e`. -/
def Pc.receives (e : EpId) : Pc → Prop
  | .idle => True
  | .recvGet e' | .recvDup e' _ | .recvSub e' _ _ | .recvEnd e' _ _ => e' = e
  | _ => False

/-- The endpoint of the `recv` that the thread is in. -/
def Pc.recvsAt : Pc → Option EpId
  | .recvGet e | .recvDup e _ | .recvSub e _ _ | .recvEnd e _ _ => some e
  | _ => none

/-- A raw message that a `recv` at the endpoint `e` returned, and what its buffer held. -/
def Event.rawAt (e : EpId) : Event → Option (Message × Internal)
  | .returned e' _ _ msg content => if e' = e ∧ msg.isRaw then some (msg, content) else none
  | _ => none

/-- The raw messages that were returned at `e`, in the order of the returns. -/
def rawReturned (e : EpId) (tr : List Event) : List (Message × Internal) := tr.filterMap (Event.rawAt e)

@[simp] theorem rawReturned_snoc (e : EpId) (tr : List Event) (ev : Event) :
    rawReturned e (tr ++ [ev]) = rawReturned e tr ++ (ev.rawAt e).toList :=
  filterMap_snoc _ _ _

/-- A message that the thread `t` sent, and what its buffer held. -/
def Event.sentWith (t : ℕ) : Event → Option (Message × Internal)
  | .sent id m content => if id.thread = t then some (m, content) else none
  | _ => none

/-- The messages that the thread `t` sent, in the order of the sends. -/
def sentContents (t : ℕ) (tr : List Event) : List (Message × Internal) :=
  tr.filterMap (Event.sentWith t)

@[simp] theorem sentContents_snoc (t : ℕ) (tr : List Event) (ev : Event) :
    sentContents t (tr ++ [ev]) = sentContents t tr ++ (ev.sentWith t).toList :=
  filterMap_snoc _ _ _

/-- The message has the header of the send it stems from. -/
def Headed (tr : List Event) (m : Message) : Prop :=
  ∃ m₀ content, .sent m.origin m₀ content ∈ tr ∧ Net.header m₀ = Net.header m

/-- A log with one more event, which returns nothing. -/
theorem mem_snoc_not_returned {tr : List Event} {ev : Event}
    (hev : ∀ e id copy msg content, ev ≠ .returned e id copy msg content) :
    ∀ ev' ∈ tr ++ [ev], ev' ∈ tr ∨ ∀ e id copy msg content, ev' ≠ .returned e id copy msg content := by
  intro ev' h
  rcases List.mem_append.mp h with h | h
  · exact Or.inl h
  · rw [List.mem_singleton.mp h]
    exact Or.inr hev

theorem Headed.mono {tr tr' : List Event} {m : Message} (h : Headed tr m)
    (htr : ∀ ev ∈ tr, ev ∈ tr') : Headed tr' m := by
  obtain ⟨m₀, content, hsent, hheader⟩ := h
  exact ⟨m₀, content, htr _ hsent, hheader⟩

theorem Headed.copy {tr : List Event} {m m' : Message} (h : Headed tr m)
    (horigin : m'.origin = m.origin) (hheader : Net.header m' = Net.header m) : Headed tr m' := by
  obtain ⟨m₀, content, hsent, heq⟩ := h
  exact ⟨m₀, content, horigin ▸ hsent, heq.trans hheader.symm⟩

namespace World

/-! ### Headers -/

/-- What every endpoint asks of the headers it takes is so of the messages there. -/
structure Passed (Q : EpId → Header → Prop) (w : World) : Prop where
  carried : ∀ th ∈ w.threads, ∀ m ∈ th.pc.carried, Headed w.trace m
  inside : ∀ th ∈ w.threads, ∀ e m, (e, m) ∈ th.pc.inside → Q e (Net.header m)
  queued : ∀ e, ∀ m ∈ (w.net.eps e).messages, Headed w.trace m ∧ Q e (Net.header m)
  returned : ∀ e id copy msg content, .returned e id copy msg content ∈ w.trace →
    Headed w.trace msg ∧ Q e (Net.header msg)

section Passed

variable {Q : EpId → Header → Prop} {w w' : World} {t : ℕ} {th' : Thread}

theorem passed_init (h : Init w) : w.Passed Q where
  carried th hth m hm := by
    rw [h.threads th hth] at hm
    cases hm
  inside th hth e m hm := by
    rw [h.threads th hth] at hm
    cases hm
  queued e m hm := by
    rw [h.queues e] at hm
    cases hm
  returned e id copy msg content hret := by
    rw [h.trace] at hret
    cases hret

/-- A step of a thread that returns nothing. -/
theorem Passed.move (h : w.Passed Q) (hthreads : w'.threads = w.threads.set t th')
    (htrace : ∀ ev ∈ w.trace, ev ∈ w'.trace)
    (hnew : ∀ ev ∈ w'.trace, ev ∈ w.trace ∨ ∀ e id copy msg content,
      ev ≠ .returned e id copy msg content)
    (hcarried : ∀ m ∈ th'.pc.carried, Headed w'.trace m)
    (hinside : ∀ e m, (e, m) ∈ th'.pc.inside → Q e (Net.header m))
    (hqueued : ∀ e, ∀ m ∈ (w'.net.eps e).messages,
      m ∈ (w.net.eps e).messages ∨ Headed w'.trace m ∧ Q e (Net.header m)) : w'.Passed Q where
  carried th hth m hm := by
    rw [hthreads] at hth
    rcases List.mem_or_eq_of_mem_set hth with hth | rfl
    · exact (h.carried th hth m hm).mono htrace
    · exact hcarried m hm
  inside th hth e m hm := by
    rw [hthreads] at hth
    rcases List.mem_or_eq_of_mem_set hth with hth | rfl
    · exact h.inside th hth e m hm
    · exact hinside e m hm
  queued e m hm := by
    rcases hqueued e m hm with hold | hnew
    · exact ⟨(h.queued e m hold).1.mono htrace, (h.queued e m hold).2⟩
    · exact hnew
  returned e id copy msg content hret := by
    rcases hnew _ hret with hold | hnot
    · have hp := h.returned e id copy msg content hold
      exact ⟨hp.1.mono htrace, hp.2⟩
    · exact absurd rfl (hnot e id copy msg content)

/-- A `recv` that returns a message. -/
theorem Passed.giveBack (h : w.Passed Q) {st : Store} {th : Thread} {e : EpId} {copy msg : Message}
    (hmsg : Headed w.trace msg ∧ Q e (Net.header msg)) :
    ((w.setStore st).giveBack t th e copy msg).Passed Q where
  carried th' hth' m hm := by
    rcases List.mem_or_eq_of_mem_set hth' with hth' | rfl
    · exact (h.carried th' hth' m hm).mono fun _ hev => List.mem_append_left _ hev
    · cases hm
  inside th' hth' e' m hm := by
    rcases List.mem_or_eq_of_mem_set hth' with hth' | rfl
    · exact h.inside th' hth' e' m hm
    · cases hm
  queued e' m hm :=
    ⟨(h.queued e' m hm).1.mono fun _ hev => List.mem_append_left _ hev, (h.queued e' m hm).2⟩
  returned e' id copy' msg' content hret := by
    rcases List.mem_append.mp hret with hold | hnew
    · have hp := h.returned e' id copy' msg' content hold
      exact ⟨hp.1.mono fun _ hev => List.mem_append_left _ hev, hp.2⟩
    · cases List.mem_singleton.mp hnew
      exact ⟨hmsg.1.mono fun _ hev => List.mem_append_left _ hev, hmsg.2⟩

/-- **One step.**  `Q` is met wherever an endpoint takes a message now. -/
theorem passed_trans (h : Trans w w')
    (hacc : ∀ e m, w.net.accepts m e = true → Q e (Net.header m)) (hi : w.Passed Q) :
    w'.Passed Q := by
  have hcar : ∀ {t : ℕ} {th : Thread} {m : Message}, w.threads[t]? = some th →
      m ∈ th.pc.carried → Headed w.trace m :=
    fun ht hm => hi.carried _ (List.mem_of_getElem? ht) _ hm
  have hins : ∀ {t : ℕ} {th : Thread} {e : EpId} {m : Message}, w.threads[t]? = some th →
      (e, m) ∈ th.pc.inside → Q e (Net.header m) :=
    fun ht hm => hi.inside _ (List.mem_of_getElem? ht) _ _ hm
  cases h with
  | user h =>
    have hs := userStep_sameTraffic h
    constructor
    · rw [hs.threads, hs.trace]
      exact hi.carried
    · rw [hs.threads]
      exact hi.inside
    · intro e
      rw [hs.queues, hs.trace]
      exact hi.queued e
    · rw [hs.trace]
      exact hi.returned
  | startSend ht hpc hm =>
    exact hi.move rfl (fun _ h => h) (fun _ h => Or.inl h) (by simp [Pc.carried]) (by simp [Pc.inside])
      (fun _ _ h => Or.inl h)
  | startRecv ht hpc | sendDone ht hpc | recvNone ht hpc hq =>
    exact hi.move rfl (fun _ h => h) (fun _ h => Or.inl h) (by simp [Pc.carried]) (by simp [Pc.inside])
      (fun _ _ h => Or.inl h)
  | @sendDup t th m ht hpc =>
    refine hi.move rfl (fun _ h => List.mem_append_left _ h)
      (mem_snoc_not_returned fun _ _ _ _ _ h => by cases h) (fun x hx => ?_) (by simp [Pc.inside])
      (fun e x hx => Or.inl (by simpa using hx))
    rw [List.mem_singleton.mp hx]
    exact ⟨m, w.net.store.buf m.buf, by simp, by simp⟩
  | @sendSnap t th m ht hpc =>
    have hm := hcar (m := m) ht (by simp [hpc, Pc.carried])
    exact hi.move rfl (fun _ h => h) (fun _ h => Or.inl h) (by simpa [Pc.carried] using hm)
      (by simp [Pc.inside]) (fun _ _ h => Or.inl h)
  | @accept t th m e todo ocnt ht hpc ha =>
    have hm := hcar (m := m) ht (by simp [hpc, Pc.carried])
    refine hi.move rfl (fun _ h => h) (fun _ h => Or.inl h) (by simpa [Pc.carried] using hm)
      (fun e' m' hx => ?_) (fun _ _ h => Or.inl h)
    cases List.mem_singleton.mp hx
    exact hacc e m ha
  | @refuse t th m e todo ocnt ht hpc ha =>
    have hm := hcar (m := m) ht (by simp [hpc, Pc.carried])
    exact hi.move rfl (fun _ h => h) (fun _ h => Or.inl h) (by simpa [Pc.carried] using hm)
      (by simp [Pc.inside]) (fun _ _ h => Or.inl h)
  | @put t th m e todo ocnt ht hpc hfree =>
    have hm := hcar (m := m) ht (by simp [hpc, Pc.carried])
    have hq := hins (e := e) (m := m) ht (by simp [hpc, Pc.inside])
    have hold : ∀ ev ∈ w.trace, ev ∈ w.trace ++ [.put e m] := fun _ h => List.mem_append_left _ h
    refine hi.move rfl hold (mem_snoc_not_returned fun _ _ _ _ _ h => by cases h) (fun x hx => ?_)
      (by simp [Pc.inside]) (fun e' x hx => ?_)
    · rw [List.mem_singleton.mp hx]
      exact hm.mono hold
    · -- the new entry of the queue is the message that the thread had at the endpoint
      by_cases he : e' = e
      · subst he
        have hx' : x ∈ (w.net.eps e').messages ∨ x = m := by simpa using hx
        rcases hx' with hx' | rfl
        · exact Or.inl hx'
        · exact Or.inr ⟨hm.mono hold, hq⟩
      · exact Or.inl (by simpa [Function.update_of_ne he] using hx)
  | @add t th m e todo ocnt ht hpc =>
    have hm := hcar (m := m) ht (by simp [hpc, Pc.carried])
    refine hi.move rfl (fun _ h => h) (fun _ h => Or.inl h) (by simpa [Pc.carried] using hm)
      (by simp [Pc.inside]) (fun e' x hx => mem_queue_update (fun h => Or.inl ?_) hx)
    simpa using h
  | @recvGet t th e copy rest ht hpc hq =>
    have hcopy := hi.queued e copy (by simp [hq])
    have hold : ∀ ev ∈ w.trace, ev ∈ w.trace ++ [.got e ⟨t, th.recvs⟩ copy] :=
      fun _ h => List.mem_append_left _ h
    refine hi.move rfl hold (mem_snoc_not_returned fun _ _ _ _ _ h => by cases h) (fun x hx => ?_)
      (fun e' x hx => ?_) (fun e' x hx => mem_queue_update (fun h => Or.inl ?_) hx)
    · rw [List.mem_singleton.mp hx]
      exact hcopy.1.mono hold
    · cases List.mem_singleton.mp hx
      exact hcopy.2
    · rw [hq]
      exact List.mem_cons_of_mem _ (by simpa using h)
  | @recvDup t th e copy ht hpc =>
    have hm := hcar (m := copy) ht (by simp [hpc, Pc.carried])
    have hq := hins (e := e) (m := copy) ht (by simp [hpc, Pc.inside])
    refine hi.move rfl (fun _ h => h) (fun _ h => Or.inl h) (fun x hx => ?_) (fun e' x hx => ?_)
      (fun _ _ h => Or.inl h)
    · rcases List.mem_pair.mp hx with rfl | rfl
      · exact hm
      · exact hm.copy (by simp) (by simp)
    · rcases List.mem_pair.mp hx with hx | hx
      · cases hx
        exact hq
      · cases hx
        simpa using hq
  | @recvSub t th e copy msg ht hpc =>
    have hc : ∀ m ∈ th.pc.carried, Headed w.trace m := fun m hm => hcar ht hm
    have hn : ∀ e m, (e, m) ∈ th.pc.inside → Q e (Net.header m) := fun e m hm => hins ht hm
    rw [hpc] at hc hn
    refine hi.move rfl (fun _ h => h) (fun _ h => Or.inl h) hc hn
      (fun e' x hx => mem_queue_update (fun h => Or.inl ?_) hx)
    simpa using h
  | @retRaw t th e copy msg ht hpc hraw =>
    have hm := hcar (m := msg) ht (by simp [hpc, Pc.carried])
    have hq := hins (e := e) (m := msg) ht (by simp [hpc, Pc.inside])
    exact hi.giveBack ⟨hm.copy rfl rfl, hq⟩
  | @retSync t th e copy msg s ht hpc hs hv =>
    have hm := hcar (m := msg) ht (by simp [hpc, Pc.carried])
    have hq := hins (e := e) (m := msg) ht (by simp [hpc, Pc.inside])
    exact hi.giveBack ⟨hm, hq⟩
  | @retClone t th e copy msg c ht hpc hc =>
    have hm := hcar (m := msg) ht (by simp [hpc, Pc.carried])
    have hq := hins (e := e) (m := msg) ht (by simp [hpc, Pc.inside])
    show ((w.setStore w.net.store).giveBack t th e copy msg).Passed Q
    exact hi.giveBack ⟨hm, hq⟩
  | @discard t th e copy msg s ht hpc =>
    exact hi.move rfl (fun _ h => List.mem_append_left _ h)
      (mem_snoc_not_returned fun _ _ _ _ _ h => by cases h) (by simp [Pc.carried]) (by simp [Pc.inside])
      (fun _ _ h => Or.inl h)

end Passed

/-! ### Buffers -/

/-- Nobody resizes a buffer to no bytes at all. -/
def keepsBytes : Act → Bool
  | .user (.write _ (.resize _ newcap)) => newcap != 0
  | _ => true

/-- Every buffer has the size of its capacity, and has a byte if a message can point to it; so it was
with the buffers that were sent. -/
structure Sized (w : World) : Prop where
  buffers : ∀ b, (w.net.store.buf b).Allocated
  full : ∀ b < w.net.store.nbuf, (w.net.store.buf b).cap ≠ 0
  sent : ∀ id m content, .sent id m content ∈ w.trace → content.Allocated ∧ content.cap ≠ 0

/-- The same of a store alone. -/
def Filled (st : Store) : Prop :=
  (∀ b, (st.buf b).Allocated) ∧ ∀ b < st.nbuf, (st.buf b).cap ≠ 0

theorem Filled.newBuf {st : Store} {i : Internal} (h : Filled st) (hi : i.Allocated)
    (hcap : i.cap ≠ 0) : Filled (st.newBuf i).2 := by
  have hself := Store.newBuf_buf_self st i
  constructor
  · intro b
    by_cases hb : b = st.nbuf
    · rw [hb, hself]
      exact hi
    · show (Function.update st.buf st.nbuf i b).Allocated
      rw [Function.update_of_ne hb]
      exact h.1 b
  · intro b hlt
    rcases Nat.lt_succ_iff_lt_or_eq.mp hlt with hlt | hb
    · rw [Store.newBuf_buf_of_lt st i hlt]
      exact h.2 b hlt
    · rw [hb, hself]
      exact hcap

theorem Filled.setBuf {st : Store} {b : ℕ} {i : Internal} (h : Filled st) (hi : i.Allocated)
    (hcap : b < st.nbuf → i.cap ≠ 0) : Filled (st.setBuf ⟨b⟩ i) := by
  constructor
  · intro b'
    by_cases hb : b' = b
    · rw [hb, Store.setBuf_buf_self]
      exact hi
    · rw [Store.setBuf_buf_of_ne st i hb]
      exact h.1 b'
  · intro b' hlt
    by_cases hb : b' = b
    · rw [hb, Store.setBuf_buf_self]
      exact hcap (hb ▸ hlt)
    · rw [Store.setBuf_buf_of_ne st i hb]
      exact h.2 b' hlt

theorem allocated_dup {i : Internal} (h : i.Allocated) : i.dup.Allocated := by
  have hlen : i.buf.length = i.cap.toNat := h
  show (i.buf.take i.cap.toNat).length = i.cap.toNat
  rw [List.length_take, hlen, Nat.min_self]

theorem Filled.dup {st : Store} (h : Filled st) {b : ℕ} (hb : b < st.nbuf) :
    Filled (st.newBuf (st.buf b).dup).2 :=
  h.newBuf (allocated_dup (h.1 b)) (h.2 b hb)

theorem new_cap_ne_zero (junk : ℕ → UInt8) (cap : UInt64) : (Internal.new junk cap).cap ≠ 0 := by
  show (if cap = 0 then 1 else cap) ≠ 0
  split
  · decide
  · assumption

theorem writestructref_keeps {i i' : Internal} {offset : UInt64} {t : List UInt8}
    (h : i.Allocated) (hw : i.writestructref offset t = some i') : i'.Allocated ∧ i'.cap = i.cap := by
  have hlen : i.buf.length = i.cap.toNat := h
  unfold Internal.writestructref at hw
  split at hw
  · cases hw
  · split at hw
    · cases hw
      exact ⟨h, rfl⟩
    · cases hw
      refine ⟨?_, rfl⟩
      show (RawMessage.storeBytes i.buf offset t).length = i.cap.toNat
      rw [RawMessage.length_storeBytes, hlen]

/-- No call of a holder of a raw message changes the size of the buffer but `resize`, which gives it
the size of the new capacity. -/
theorem apply_keeps {op : RawMessage.RawOp} {i i' : Internal} (h : i.Allocated)
    (hop : op.apply i = some i') :
    i'.Allocated ∧ (i'.cap = i.cap ∨ ∃ junk, op = .resize junk i'.cap) := by
  have hlen : i.buf.length = i.cap.toNat := h
  cases op with
  | setlen len =>
    simp only [RawMessage.RawOp.apply, Internal.setlen] at hop
    split at hop
    · cases hop
    · cases hop
      exact ⟨h, Or.inl rfl⟩
  | resize junk newcap =>
    cases hop
    exact ⟨(RawMessage.Internal.resize_wellFormed junk i newcap).allocated, Or.inr ⟨junk, rfl⟩⟩
  | writeFromSlice offset f =>
    simp only [RawMessage.RawOp.apply, Internal.writeFromSlice] at hop
    split at hop
    · cases hop
    · cases hop
      refine ⟨?_, Or.inl rfl⟩
      show (RawMessage.storeBytes i.buf offset f).length = i.cap.toNat
      rw [RawMessage.length_storeBytes, hlen]
  | writestruct offset t =>
    obtain ⟨halloc, hcap⟩ := writestructref_keeps h hop
    exact ⟨halloc, Or.inl hcap⟩
  | setMutslice k b =>
    simp only [RawMessage.RawOp.apply, Internal.setMutslice] at hop
    split at hop
    · cases hop
      refine ⟨?_, Or.inl rfl⟩
      show (i.buf.set k b).length = i.cap.toNat
      rw [List.length_set, hlen]
    · cases hop

theorem typedBuf_filled (junk : ℕ → UInt8) (t : List UInt8) :
    (Message.typedBuf junk t).Allocated ∧ (Message.typedBuf junk t).cap ≠ 0 := by
  have hnew := Internal.new_allocated junk (UInt64.ofNat t.length)
  have hcap := new_cap_ne_zero junk (UInt64.ofNat t.length)
  have hbuf : Message.typedBuf junk t = ((Internal.new junk (UInt64.ofNat t.length)).writestructref 0
      t).getD (Internal.new junk (UInt64.ofNat t.length)) := rfl
  rw [hbuf]
  cases hw : (Internal.new junk (UInt64.ofNat t.length)).writestructref 0 t with
  | none => exact ⟨hnew, hcap⟩
  | some i =>
    obtain ⟨halloc, hsame⟩ := writestructref_keeps hnew hw
    exact ⟨halloc, fun h0 => hcap (hsame ▸ h0)⟩

theorem sized_init {w : World} (h : Init w) : w.Sized where
  buffers b := by
    rw [h.store]
    rfl
  full b hb := by
    rw [h.store] at hb
    cases hb
  sent id m content hsent := by
    rw [h.trace] at hsent
    cases hsent

theorem Sized.filled {w : World} (h : w.Sized) : Filled w.net.store := ⟨h.buffers, h.full⟩

theorem sized_of_filled {w w' : World} (hi : w.Sized) (hst : Filled w'.net.store)
    (hsent : ∀ id m content, .sent id m content ∈ w'.trace → .sent id m content ∈ w.trace) :
    w'.Sized :=
  ⟨hst.1, hst.2, fun id m content h => hi.sent id m content (hsent id m content h)⟩

theorem sized_user {own : ℕ → Bool} {w w' : World} {op : UserOp} (h : w.userStep op = some w')
    (hop : keepsBytes (.user op) = true) (ho : Owned own w) (hi : w.Sized) : w'.Sized := by
  have htrace := (userStep_sameTraffic h).trace
  refine sized_of_filled hi ?_ fun id m content hsent => htrace ▸ hsent
  have hst := hi.filled
  cases op with
  | newRaw junk cap =>
    cases h
    exact hst.newBuf (Internal.new_allocated junk cap) (new_cap_ne_zero junk cap)
  | newSync junk ty t | newClone junk ty t =>
    cases h
    exact hst.newBuf (typedBuf_filled junk t).1 (typedBuf_filled junk t).2
  | setHeader | fromPayload =>
    simp only [userStep, Option.map_eq_some_iff] at h
    obtain ⟨m, -, rfl⟩ := h
    exact hst
  | clone =>
    simp only [userStep, Option.bind_eq_bind, Option.bind_eq_some_iff] at h
    obtain ⟨m, -, m', -, h⟩ := h
    cases h
    exact hst
  | dup i =>
    simp only [userStep, Option.bind_eq_bind, Option.bind_eq_some_iff] at h
    obtain ⟨m, hm, ⟨m', st⟩, hdup, h⟩ := h
    cases h
    obtain ⟨-, -, rfl⟩ := Message.dup_eq_some hdup
    exact hst.dup (ho.held m (List.mem_of_getElem? hm)).buf
  | write i op =>
    simp only [userStep, Option.bind_eq_bind, Option.bind_eq_some_iff] at h
    obtain ⟨m, hm, i', happly, h⟩ := h
    cases h
    obtain ⟨halloc, hcap⟩ := apply_keeps (hst.1 m.buf) happly
    refine hst.setBuf halloc fun hlt h0 => ?_
    rcases hcap with hcap | ⟨junk, rfl⟩
    · exact hst.2 m.buf hlt (hcap ▸ h0)
    · simp [keepsBytes, h0] at hop
  | drop | setAddress | setLimits =>
    cases h
    exact hst

/-- **One step**, if it resizes no buffer to nothing. -/
theorem sized_step {own : ℕ → Bool} {w w' : World} {a : Act} (h : w.step a = some w')
    (hop : keepsBytes a = true) (ho : Owned own w) (hi : w.Sized) : w'.Sized := by
  have hst := hi.filled
  cases a with
  | user op => exact sized_user h hop ho hi
  | send t i how =>
    simp only [step, Option.bind_eq_bind, Option.bind_eq_some_iff, Option.ite_none_right_eq_some] at h
    obtain ⟨th, -, m, -, -, h⟩ := h
    cases h
    exact sized_of_filled hi hst fun _ _ _ h => h
  | recv t e =>
    simp only [step, Option.bind_eq_bind, Option.bind_eq_some_iff, Option.ite_none_right_eq_some] at h
    obtain ⟨th, -, -, h⟩ := h
    cases h
    exact sized_of_filled hi hst fun _ _ _ h => h
  | step t =>
    simp only [step, Option.bind_eq_bind, Option.bind_eq_some_iff] at h
    obtain ⟨th, ht, h⟩ := h
    have hth := ho.threads th (List.mem_of_getElem? ht)
    cases advance_cases h with
    | sendSnap | sendDone | accept | refuse | add | recvNone | recvSub =>
      exact sized_of_filled hi hst fun _ _ _ h => h
    | @sendDup m hpc =>
      have hlt := (hth.pending m (by simp [hpc, Pc.pending])).buf
      have hfilled : Filled (w.net.copied m).2.store := by
        unfold Net.copied
        split
        · exact hst.dup hlt
        · exact hst
      refine ⟨hfilled.1, hfilled.2, fun id m' content hsent => ?_⟩
      rcases List.mem_append.mp hsent with hold | hnew
      · exact hi.sent id m' content hold
      · cases List.mem_singleton.mp hnew
        exact ⟨hst.1 m.buf, hst.2 m.buf hlt⟩
    | put | recvGet | retSync | discard | retClone =>
      refine sized_of_filled hi hst fun id m' content hsent => ?_
      rcases List.mem_append.mp hsent with hold | hnew
      · exact hold
      · cases List.mem_singleton.mp hnew
    | @recvDup e copy hpc =>
      refine sized_of_filled hi ?_ fun _ _ _ h => h
      show Filled (copy.dupIfok w.net.store).2
      by_cases hraw : copy.isRaw = true
      · rw [Message.dupIfok_raw hraw]
        exact hst.dup (hth.carried copy (by simp [hpc, Pc.carried])).buf
      · rw [Message.dupIfok_of_not_raw (Bool.eq_false_iff.mpr hraw)]
        exact hst
    | @retRaw e copy msg hpc hraw =>
      have hlt := (hth.carried msg (by simp [hpc, Pc.carried])).buf
      refine sized_of_filled hi (hst.dup hlt) fun id m' content hsent => ?_
      rcases List.mem_append.mp hsent with hold | hnew
      · exact hold
      · cases List.mem_singleton.mp hnew

/-! ### Addresses -/

theorem sid_step {w w' : World} {a : Act} (h : w.step a = some w') : w'.net.sid = w.net.sid := by
  cases step_trans h with
  | @user op _ h =>
    cases op with
    | newRaw | newSync | newClone | drop | setAddress | setLimits =>
      cases h
      rfl
    | setHeader | fromPayload =>
      simp only [userStep, Option.map_eq_some_iff] at h
      obtain ⟨m, -, rfl⟩ := h
      rfl
    | clone | dup | write =>
      simp only [userStep, Option.bind_eq_bind, Option.bind_eq_some_iff] at h
      obtain ⟨m, -, b, -, h⟩ := h
      cases h
      rfl
  | startSend | startRecv | sendDup | sendSnap | sendDone | accept | refuse | put | add | recvNone
  | recvGet | recvDup | recvSub | retRaw | retSync | discard | retClone => rfl

/-- Only `setAddress` changes an address. -/
theorem address_step {w w' : World} {a : Act} {e : EpId} (h : w.step a = some w')
    (ha : ∀ address, a ≠ .user (.setAddress e address)) :
    (w'.net.eps e).address = (w.net.eps e).address := by
  have hset : ∀ {e' : EpId} {ep : Endpoint.Internal}, ep.address = (w.net.eps e').address →
      (Function.update w.net.eps e' ep e).address = (w.net.eps e).address := by
    intro e' ep hep
    by_cases he : e = e'
    · subst he
      rw [Function.update_self, hep]
    · rw [Function.update_of_ne he]
  cases a with
  | user op =>
    simp only [step] at h
    cases op with
    | newRaw | newSync | newClone | drop =>
      cases h
      rfl
    | setHeader | fromPayload =>
      simp only [userStep, Option.map_eq_some_iff] at h
      obtain ⟨m, -, rfl⟩ := h
      rfl
    | clone | dup | write =>
      simp only [userStep, Option.bind_eq_bind, Option.bind_eq_some_iff] at h
      obtain ⟨m, -, b, -, h⟩ := h
      cases h
      rfl
    | setAddress e' address =>
      cases h
      have he : e ≠ e' := fun he => ha address (by rw [he])
      show (Function.update w.net.eps e' _ e).address = _
      rw [Function.update_of_ne he]
    | setLimits e' =>
      cases h
      exact hset rfl
  | send t i how =>
    simp only [step, Option.bind_eq_bind, Option.bind_eq_some_iff, Option.ite_none_right_eq_some] at h
    obtain ⟨th, -, m, -, -, h⟩ := h
    cases h
    rfl
  | recv t e' =>
    simp only [step, Option.bind_eq_bind, Option.bind_eq_some_iff, Option.ite_none_right_eq_some] at h
    obtain ⟨th, -, -, h⟩ := h
    cases h
    rfl
  | step t =>
    simp only [step, Option.bind_eq_bind, Option.bind_eq_some_iff] at h
    obtain ⟨th, -, h⟩ := h
    cases advance_cases h with
    | sendDup | sendSnap | sendDone | accept | refuse | recvNone | recvDup | retRaw | retSync
    | discard | retClone => rfl
    | put | add | recvGet | recvSub => exact hset rfl

/-! ### Who sends and who receives -/

/-- The threads after a step: one has moved, by the call it is in or into a call. -/
theorem threads_step {w w' : World} {a : Act} (h : w.step a = some w') :
    w'.threads = w.threads ∨ ∃ t th th', w.threads[t]? = some th ∧
      w'.threads = w.threads.set t th' ∧
      (a = .step t ∧ w.advance t th = some w' ∨ (∃ e, a = .recv t e ∧ th'.pc = .recvGet e) ∨
        ∃ i how m, a = .send t i how ∧ th'.pc = .sendDup m) := by
  cases a with
  | user op => exact Or.inl (userStep_sameTraffic h).threads
  | send t i how =>
    simp only [step, Option.bind_eq_bind, Option.bind_eq_some_iff, Option.ite_none_right_eq_some] at h
    obtain ⟨th, ht, m, -, -, h⟩ := h
    cases h
    exact Or.inr ⟨t, th, _, ht, rfl, Or.inr (Or.inr ⟨i, how, _, rfl, rfl⟩)⟩
  | recv t e =>
    simp only [step, Option.bind_eq_bind, Option.bind_eq_some_iff, Option.ite_none_right_eq_some] at h
    obtain ⟨th, ht, -, h⟩ := h
    cases h
    exact Or.inr ⟨t, th, _, ht, rfl, Or.inr (Or.inl ⟨e, rfl, rfl⟩)⟩
  | step t =>
    simp only [step, Option.bind_eq_bind, Option.bind_eq_some_iff] at h
    obtain ⟨th, ht, h⟩ := h
    obtain ⟨th', hth'⟩ : ∃ th', w'.threads = w.threads.set t th' := by
      cases advance_cases h <;> exact ⟨_, rfl⟩
    exact Or.inr ⟨t, th, th', ht, hth', Or.inl ⟨rfl, h⟩⟩

/-- A property of the program point of one thread that starts no send. -/
theorem pc_step {P : Pc → Prop} {w w' : World} {a : Act} {t : ℕ} (h : w.step a = some w')
    (hadv : ∀ th w', P th.pc → w.advance t th = some w' →
      ∃ th', w'.threads = w.threads.set t th' ∧ P th'.pc)
    (hrecv : ∀ e, a = .recv t e → P (.recvGet e)) (hsend : ∀ i how, a ≠ .send t i how)
    (hi : ∀ th, w.threads[t]? = some th → P th.pc) : ∀ th, w'.threads[t]? = some th → P th.pc := by
  intro th hth
  rcases threads_step h with hsame | ⟨u, thu, thu', hu, hset, hact⟩
  · rw [hsame] at hth
    exact hi th hth
  · by_cases hut : u = t
    · subst hut
      rcases hact with ⟨-, hstep⟩ | ⟨e, ha, hpc⟩ | ⟨i, how, -, ha, -⟩
      · obtain ⟨th', hset', hP⟩ := hadv thu w' (hi thu hu) hstep
        rw [hset'] at hth
        rcases getElem?_set_eq_some hth with ⟨-, rfl⟩ | ⟨hne, -⟩
        · exact hP
        · exact absurd rfl hne
      · rw [hset] at hth
        rcases getElem?_set_eq_some hth with ⟨-, rfl⟩ | ⟨hne, -⟩
        · rw [hpc]
          exact hrecv e ha
        · exact absurd rfl hne
      · exact absurd ha (hsend i how)
    · rw [hset, List.getElem?_set_ne hut] at hth
      exact hi th hth

/-- No atomic step leads to the entry of a send. -/
theorem pending_advance {w w' : World} {t : ℕ} {th : Thread} (h : w.advance t th = some w') :
    ∃ th', w'.threads = w.threads.set t th' ∧ th'.pc.pending = [] := by
  cases advance_cases h <;> exact ⟨_, rfl, rfl⟩

/-- A thread in a `recv` at `e` stays in it until it is in no call. -/
theorem receives_advance {e : EpId} {w w' : World} {t : ℕ} {th : Thread} (hpc : th.pc.receives e)
    (h : w.advance t th = some w') :
    ∃ th', w'.threads = w.threads.set t th' ∧ th'.pc.receives e := by
  cases advance_cases h with
  | sendDup hp | sendSnap hp | sendDone hp | accept hp _ | refuse hp _ | put hp _ | add hp =>
    rw [hp] at hpc
    cases hpc
  | recvNone | retRaw | retSync | retClone => exact ⟨_, rfl, trivial⟩
  | recvGet hp _ | recvDup hp | recvSub hp | discard hp _ _ =>
    rw [hp] at hpc
    exact ⟨_, rfl, hpc⟩

/-- **What a step inside a `recv` at `e` leaves with user code**: nothing, or the message that the
`recv` returned. -/
theorem held_advance {e : EpId} {w w' : World} {t : ℕ} {th : Thread} (hpc : th.pc.receives e)
    (h : w.advance t th = some w') :
    w'.held = w.held ∨ ∃ id copy msg, w'.held = w.held ++ [msg] ∧
      w'.trace = w.trace ++ [.returned e id copy msg (w'.net.store.buf msg.buf)] := by
  cases advance_cases h with
  | sendDup | sendSnap | sendDone | accept | refuse | put | add | recvNone | recvGet | recvDup
  | recvSub | discard => exact Or.inl rfl
  | @retRaw e' copy msg hend hraw =>
    rw [hend] at hpc
    cases hpc
    exact Or.inr ⟨_, copy, msg.onFresh w.net.store, rfl, rfl⟩
  | @retSync e' copy msg s hend hs hv =>
    rw [hend] at hpc
    cases hpc
    exact Or.inr ⟨_, copy, msg, rfl, rfl⟩
  | @retClone e' copy msg c hend hc =>
    rw [hend] at hpc
    cases hpc
    exact Or.inr ⟨_, copy, msg, rfl, rfl⟩

/-- **The log of the sends of a thread** grows by its own steps, and only out of the entry of a send. -/
theorem sentContents_step {w w' : World} {a : Act} (h : w.step a = some w') (ho : w.Order) {t : ℕ}
    (hcalm : ∀ th, w.threads[t]? = some th → th.pc.pending = []) :
    sentContents t w'.trace = sentContents t w.trace := by
  cases a with
  | user op => rw [(userStep_sameTraffic h).trace]
  | send u i how =>
    simp only [step, Option.bind_eq_bind, Option.bind_eq_some_iff, Option.ite_none_right_eq_some] at h
    obtain ⟨th, -, m, -, -, h⟩ := h
    cases h
    rfl
  | recv u e =>
    simp only [step, Option.bind_eq_bind, Option.bind_eq_some_iff, Option.ite_none_right_eq_some] at h
    obtain ⟨th, -, -, h⟩ := h
    cases h
    rfl
  | step u =>
    simp only [step, Option.bind_eq_bind, Option.bind_eq_some_iff] at h
    obtain ⟨th, hu, h⟩ := h
    cases advance_cases h with
    | sendSnap | sendDone | accept | refuse | add | recvNone | recvDup | recvSub => rfl
    | put | recvGet | retRaw | retSync | discard | retClone =>
      exact (sentContents_snoc _ _ _).trans (List.append_nil _)
    | @sendDup m hpc =>
      have horigin := ho.stamped u th m hu hpc
      have hne : u ≠ t := by
        rintro rfl
        have hnil := hcalm th hu
        rw [hpc] at hnil
        cases hnil
      show sentContents t (w.trace ++ [.sent m.origin m (w.net.store.buf m.buf)]) = _
      rw [sentContents_snoc, horigin]
      simp [Event.sentWith, hne]

/-- Inside a call a thread comes to no other `recv`. -/
theorem recvsAt_advance {w w' : World} {t : ℕ} {th : Thread} (h : w.advance t th = some w') :
    ∃ th', w'.threads = w.threads.set t th' ∧
      ∀ e, th'.pc.recvsAt = some e → th.pc.recvsAt = some e := by
  cases advance_cases h with
  | sendDup hp | sendSnap hp | sendDone hp | accept hp _ | refuse hp _ | put hp _ | add hp
  | recvNone hp _ | retRaw hp _ | retSync hp _ _ | retClone hp _ =>
    exact ⟨_, rfl, fun e he => by cases he⟩
  | recvGet hp _ | recvDup hp | recvSub hp | discard hp _ _ =>
    exact ⟨_, rfl, fun e he => by rw [hp]; exact he⟩

/-- **The log of the raw messages returned at an endpoint** grows by those that a thread in a `recv`
there gets. -/
theorem rawReturned_step {w w' : World} {a : Act} (h : w.step a = some w') (e : EpId) :
    rawReturned e w'.trace = rawReturned e w.trace ∨ ∃ t th msg, a = .step t ∧
      w.threads[t]? = some th ∧ th.pc.recvsAt = some e ∧ w'.held = w.held ++ [msg] ∧
      rawReturned e w'.trace = rawReturned e w.trace ++
        if msg.isRaw then [(msg, w'.net.store.buf msg.buf)] else [] := by
  cases a with
  | user op => exact Or.inl (by rw [(userStep_sameTraffic h).trace])
  | send t i how =>
    simp only [step, Option.bind_eq_bind, Option.bind_eq_some_iff, Option.ite_none_right_eq_some] at h
    obtain ⟨th, -, m, -, -, h⟩ := h
    cases h
    exact Or.inl rfl
  | recv t e' =>
    simp only [step, Option.bind_eq_bind, Option.bind_eq_some_iff, Option.ite_none_right_eq_some] at h
    obtain ⟨th, -, -, h⟩ := h
    cases h
    exact Or.inl rfl
  | step t =>
    simp only [step, Option.bind_eq_bind, Option.bind_eq_some_iff] at h
    obtain ⟨th, ht, h⟩ := h
    have hback : ∀ (st : Store) {e' : EpId} {copy copy' msg : Message},
        th.pc = .recvEnd e' copy copy' →
        w' = (w.setStore st).giveBack t th e' copy msg →
        rawReturned e w'.trace = rawReturned e w.trace ∨ ∃ u th msg, Act.step t = .step u ∧
          w.threads[u]? = some th ∧ th.pc.recvsAt = some e ∧ w'.held = w.held ++ [msg] ∧
          rawReturned e w'.trace = rawReturned e w.trace ++
            if msg.isRaw then [(msg, w'.net.store.buf msg.buf)] else [] := by
      intro st e' copy copy' msg hpc hw'
      have hlog : rawReturned e w'.trace = rawReturned e w.trace ++
          (if e' = e ∧ msg.isRaw then some (msg, st.buf msg.buf) else none).toList := by
        rw [hw']
        exact rawReturned_snoc e w.trace _
      by_cases he : e' = e
      · refine Or.inr ⟨t, th, msg, rfl, ht, by rw [hpc, he]; rfl, by rw [hw']; rfl, ?_⟩
        rw [hlog, hw']
        by_cases hraw : msg.isRaw = true <;> simp [he, hraw, giveBack]
      · exact Or.inl (by rw [hlog]; simp [he])
    cases advance_cases h with
    | sendSnap | sendDone | accept | refuse | add | recvNone | recvDup | recvSub => exact Or.inl rfl
    | sendDup | put | recvGet | discard => exact Or.inl (by simp [Event.rawAt])
    | retRaw hpc _ => exact hback _ hpc rfl
    | retSync hpc _ _ => exact hback _ hpc rfl
    | retClone hpc _ => exact hback w.net.store hpc rfl

/-! ### Returned messages -/

/-- **What was returned was sent.**  The send had the header of the message, which the endpoint
took; a raw message has the duplicate of what the send found in its buffer. -/
theorem Good.provenance {Q : EpId → Header → Prop} {w : World} (h : w.Good) (hp : w.Passed Q)
    {e : EpId} {id : RecvId} {copy msg : Message} {content : Internal}
    (hret : .returned e id copy msg content ∈ w.trace) :
    ∃ m₀ content₀, .sent msg.origin m₀ content₀ ∈ w.trace ∧ Net.header m₀ = Net.header msg ∧
      m₀.isRaw = msg.isRaw ∧ (msg.isRaw = true → content = content₀.dup) ∧
      Q e (Net.header msg) := by
  obtain ⟨-, m₀, content₀, ⟨hsent, hraw, -⟩, hcontent⟩ := h.handedOut.content e id copy msg content hret
  obtain ⟨⟨m₁, content₁, hsent₁, hheader⟩, hQ⟩ := hp.returned e id copy msg content hret
  obtain ⟨rfl, -⟩ := h.order.sent_unique hsent hsent₁
  exact ⟨m₀, content₀, hsent, hheader, hraw, hcontent, hQ⟩

end World

end Traffic

end WaterNet
