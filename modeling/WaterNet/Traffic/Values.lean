import WaterNet.Traffic.Delivery

/-!
# Who owns a value sent in a message

`new_clone` and `new_sync` move a value into the bytes of a buffer; `typeunwrap` consumes a message
and reads the value out of its buffer, bit by bit.  Clones of a clone message share the buffer, and
no function of the library calls `T::clone`, so nothing but the number of messages over a buffer
bounds how often its value is handed out.

* `Values.step` — the traffic of a net, with `typeunwrap` of held messages, the values moved in and
  the values handed out;
* `Values.fresh` — the step unwraps no buffer that was unwrapped before;
* `Sourced` — every typed message stands for a value that was moved in;
* `handed_le_moved` — **in every run of such steps no more values of a type are handed out than
  were moved in**;
* `not_handed_le_moved` — two endpoints unwrap the one value that was sent.
-/

namespace WaterNet

/-- The type and the cell of the value in a clone or sync message. -/
def Message.typed (m : Message) : Option (TypeId × ℕ) :=
  match m.payload with
  | .clone c => some (c.tyid, c.payload.i)
  | .sync s => some (s.tyid, s.payload.i)
  | .raw _ => none

theorem Message.typed_of_raw {m : Message} (h : m.isRaw = true) : m.typed = none := by
  obtain ⟨r, hr⟩ := Message.isRaw_iff.mp h
  simp [Message.typed, hr]

theorem Message.typed_of_payload {m m' : Message} (h : m'.payload = m.payload) :
    m'.typed = m.typed := by
  simp [Message.typed, h]

/-- What `typeunwrap` reads is the value of the message, of the type that was asked for. -/
theorem Message.typed_of_typeunwrap {junk : ℕ → UInt8} {m : Message} {st : Store} {ty : TypeId}
    {size : ℕ} {bytes : List UInt8} (h : m.typeunwrap junk st ty size = some bytes) :
    m.typed = some (ty, m.buf) := by
  unfold Message.typeunwrap at h
  split at h
  · rename_i c hc
    simp only [Message.getClonePayload, Option.ite_none_left_eq_some, bne_iff_ne, ne_eq,
      not_not] at h
    simp [Message.typed, Message.buf, hc, h.1]
  · rename_i s hs
    simp only [Message.getSyncPayload, Option.ite_none_left_eq_some, bne_iff_ne, ne_eq,
      not_not] at h
    simp [Message.typed, Message.buf, hs, h.1]
  · cases h

namespace Traffic

open WaterNet.Lib.Machine (run StepsMeet run_invariant_of)
open WaterNet.Lib.Pool (mem_set_or)

/-! ### The machine with its values -/

/-- A value of the type `ty`, in the buffer `cell`. -/
structure Value where
  ty : TypeId
  cell : ℕ
  bytes : List UInt8
  deriving DecidableEq, Repr

def Value.key (v : Value) : TypeId × ℕ := (v.ty, v.cell)

/-- The value that an action moves into a new message. -/
def World.movedBy (w : World) : Act → List Value
  | .user (.newClone _ ty t) => [⟨ty, w.net.store.nbuf, t⟩]
  | .user (.newSync _ ty t) => [⟨ty, w.net.store.nbuf, t⟩]
  | _ => []

/-- A world, the values moved into messages so far and the values handed out so far. -/
structure Values where
  world : World
  moved : List Value
  handed : List Value

inductive ValueAct where
  | act (a : Act)
  /-- `typeunwrap`, or `get_payload`, of the held message `i` -/
  | typeunwrap (i : ℕ) (junk : ℕ → UInt8) (ty : TypeId) (size : ℕ)

namespace Values

def step (x : Values) : ValueAct → Option Values
  | .act a => (x.world.step a).map fun w' =>
    { x with world := w', moved := x.moved ++ x.world.movedBy a }
  | .typeunwrap i junk ty size => do
    let m ← x.world.held[i]?
    let bytes ← m.typeunwrap junk x.world.net.store ty size
    some { x with
      world := x.world.hold (x.world.held.eraseIdx i)
      handed := x.handed ++ [⟨ty, m.buf, bytes⟩] }

/-- No value moved or handed out yet. -/
def start (w : World) : Values := ⟨w, [], []⟩

/-- The step is no second `typeunwrap` of the same buffer. -/
def fresh (x : Values) : ValueAct → Bool
  | .act _ => true
  | .typeunwrap i _ _ _ =>
    match x.world.held[i]? with
    | some m => x.handed.all fun v => v.cell != m.buf
    | none => true

end Values

/-! ### Where messages come from -/

/-- Every message that user code holds, that is in a call or in a queue has the property. -/
structure World.All (P : Message → Prop) (w : World) : Prop where
  held : ∀ m ∈ w.held, P m
  threads : ∀ th ∈ w.threads, ∀ m ∈ th.pc.pending ++ th.pc.carried, P m
  queued : ∀ e, ∀ m ∈ (w.net.eps e).messages, P m

namespace World

section All

variable {P : Message → Prop} {w w' : World} {t : ℕ} {th th' : Thread}

theorem All.mono {Q : Message → Prop} (h : w.All P) (hPQ : ∀ m, P m → Q m) : w.All Q :=
  ⟨fun m hm => hPQ m (h.held m hm), fun th hth m hm => hPQ m (h.threads th hth m hm),
    fun e m hm => hPQ m (h.queued e m hm)⟩

/-- A step of a thread to a point whose messages have the property. -/
theorem All.move (h : w.All P) (hthreads : w'.threads = w.threads.set t th')
    (hth' : ∀ m ∈ th'.pc.pending ++ th'.pc.carried, P m)
    (hheld : ∀ m ∈ w'.held, m ∈ w.held ∨ P m)
    (hqueued : ∀ e, ∀ m ∈ (w'.net.eps e).messages, m ∈ (w.net.eps e).messages ∨ P m) :
    w'.All P where
  held m hm := (hheld m hm).elim (h.held m) id
  threads th hth m hm := by
    rw [hthreads] at hth
    rcases List.mem_or_eq_of_mem_set hth with hth | rfl
    · exact h.threads th hth m hm
    · exact hth' m hm
  queued e m hm := (hqueued e m hm).elim (h.queued e m) id

variable (hraw : ∀ m : Message, m.isRaw = true → P m)
  (hpayload : ∀ m m' : Message, m'.payload = m.payload → P m → P m')

include hraw

/-- What `recv` makes of a queue entry. -/
theorem all_dupIfok {m : Message} (h : P m) (st : Store) : P (m.dupIfok st).1 := by
  by_cases hr : m.isRaw = true
  · rw [Message.dupIfok_raw hr]
    exact hraw _ rfl
  · rw [Message.dupIfok_of_not_raw (Bool.eq_false_iff.mpr hr)]
    exact h

/-- What a send puts on the net. -/
theorem all_copied {net : Net} {m : Message} (h : P m) : P (net.copied m).1 := by
  unfold Net.copied
  split
  · exact hraw _ rfl
  · exact h

/-- **A step of a thread** brings messages no further than a copy over the same cells, or a raw
message. -/
theorem all_advance (ht : w.threads[t]? = some th) (hi : w.All P)
    (h : w.advance t th = some w') : w'.All P := by
  have hcar : ∀ m ∈ th.pc.pending ++ th.pc.carried, P m := hi.threads th (List.mem_of_getElem? ht)
  cases advance_cases h with
  | @sendDup m hpc =>
    have hm : P m := hcar m (by simp [hpc, Pc.pending])
    refine hi.move rfl (fun x hx => ?_) (fun _ hx => Or.inl hx) (fun _ _ hx => Or.inl hx)
    rw [List.mem_singleton.mp hx]
    exact all_copied hraw hm
  | sendSnap hpc | accept hpc hacc | refuse hpc hacc =>
    exact hi.move rfl (by simpa [hpc, Pc.pending, Pc.carried] using hcar) (fun _ hx => Or.inl hx)
      (fun _ _ hx => Or.inl hx)
  | sendDone hpc | recvNone hpc hq | discard hpc hs hv =>
    exact hi.move rfl (by simp [Pc.pending, Pc.carried]) (fun _ hx => Or.inl hx)
      (fun _ _ hx => Or.inl hx)
  | @put m e todo ocnt hpc hfree =>
    have hm : P m := hcar m (by simp [hpc, Pc.carried])
    refine hi.move rfl (by simpa [hpc, Pc.pending, Pc.carried] using hcar)
      (fun _ hx => Or.inl hx) (fun e' x hx => mem_queue_update (fun h => ?_) hx)
    exact mem_snoc_or (by simpa using h) hm
  | add hpc | recvSub hpc =>
    refine hi.move rfl (by simpa [hpc, Pc.pending, Pc.carried] using hcar)
      (fun _ hx => Or.inl hx) (fun e' x hx => mem_queue_update (fun h => Or.inl ?_) hx)
    simpa using h
  | @recvGet e copy rest hpc hq =>
    refine hi.move rfl (fun x hx => ?_) (fun _ hx => Or.inl hx)
      (fun e' x hx => mem_queue_update (fun h => Or.inl ?_) hx)
    · rw [List.mem_singleton.mp hx]
      exact hi.queued e copy (by simp [hq])
    · rw [hq]
      exact List.mem_cons_of_mem _ (by simpa using h)
  | @recvDup e copy hpc =>
    have hm : P copy := hcar copy (by simp [hpc, Pc.carried])
    refine hi.move rfl (fun x hx => ?_) (fun _ hx => Or.inl hx) (fun _ _ hx => Or.inl hx)
    rcases List.mem_pair.mp hx with rfl | rfl
    · exact hm
    · exact all_dupIfok hraw hm _
  | retRaw hpc _ =>
    exact hi.move rfl (by simp [Pc.pending, Pc.carried]) (fun x hx => mem_snoc_or hx (hraw _ rfl))
      (fun _ _ hx => Or.inl hx)
  | @retSync e copy msg s hpc hs hv =>
    have hm : P msg := hcar msg (by simp [hpc, Pc.carried])
    exact hi.move rfl (by simp [Pc.pending, Pc.carried]) (fun x hx => mem_snoc_or hx hm)
      (fun _ _ hx => Or.inl hx)
  | @retClone e copy msg c hpc hc =>
    have hm : P msg := hcar msg (by simp [hpc, Pc.carried])
    exact hi.move rfl (by simp [Pc.pending, Pc.carried]) (fun x hx => mem_snoc_or hx hm)
      (fun _ _ hx => Or.inl hx)

include hpayload

/-- **A user call** makes raw messages, copies over the same cells, or a message over a new cell. -/
theorem all_user {op : UserOp} (hi : w.All P)
    (hnew : ∀ v ∈ w.movedBy (.user op), ∀ m : Message, m.typed = some v.key → P m)
    (h : w.userStep op = some w') : w'.All P := by
  have hs := userStep_sameTraffic h
  suffices hheld : ∀ m ∈ w'.held, m ∈ w.held ∨ P m by
    refine ⟨fun m hm => (hheld m hm).elim (hi.held m) id, ?_, ?_⟩
    · rw [hs.threads]
      exact hi.threads
    · intro e
      rw [hs.queues]
      exact hi.queued e
  cases op with
  | newRaw junk cap =>
    cases h
    exact fun m hm => mem_snoc_or hm (hraw _ rfl)
  | newClone junk ty t | newSync junk ty t =>
    cases h
    exact fun m hm => mem_snoc_or hm (hnew _ List.mem_cons_self _ rfl)
  | setHeader i =>
    simp only [userStep, Option.map_eq_some_iff] at h
    obtain ⟨m₀, hm₀, rfl⟩ := h
    intro m hm
    rcases List.mem_or_eq_of_mem_set hm with hm | rfl
    · exact Or.inl hm
    · exact Or.inr (hpayload m₀ _ rfl (hi.held m₀ (List.mem_of_getElem? hm₀)))
  | clone i =>
    simp only [userStep, Option.bind_eq_bind, Option.bind_eq_some_iff] at h
    obtain ⟨m₀, hm₀, m', hm', h⟩ := h
    cases h
    rw [Message.clone_eq, Option.ite_none_left_eq_some, Option.some.injEq] at hm'
    exact fun m hm => mem_snoc_or hm (hm'.2 ▸ hi.held m₀ (List.mem_of_getElem? hm₀))
  | dup i =>
    simp only [userStep, Option.bind_eq_bind, Option.bind_eq_some_iff] at h
    obtain ⟨m₀, hm₀, ⟨m', st⟩, hm', h⟩ := h
    cases h
    obtain ⟨-, rfl, rfl⟩ := Message.dup_eq_some hm'
    exact fun m hm => mem_snoc_or hm (hraw _ rfl)
  | fromPayload i =>
    simp only [userStep, Option.map_eq_some_iff] at h
    obtain ⟨m₀, -, rfl⟩ := h
    exact fun m hm => mem_snoc_or hm (hraw _ rfl)
  | write i op =>
    simp only [userStep, Option.bind_eq_bind, Option.bind_eq_some_iff] at h
    obtain ⟨m₀, -, b, -, h⟩ := h
    cases h
    exact fun m hm => Or.inl hm
  | drop i =>
    cases h
    exact fun m hm => Or.inl (List.mem_of_mem_eraseIdx hm)
  | setAddress | setLimits =>
    cases h
    exact fun m hm => Or.inl hm

/-- **Every step** keeps the property, if it holds of the messages made over a new cell. -/
theorem all_step {a : Act} (hi : w.All P)
    (hnew : ∀ v ∈ w.movedBy a, ∀ m : Message, m.typed = some v.key → P m)
    (h : w.step a = some w') : w'.All P := by
  cases a with
  | user op => exact all_user hraw hpayload hi hnew h
  | send t i how =>
    simp only [step, Option.bind_eq_bind, Option.bind_eq_some_iff, Option.ite_none_right_eq_some] at h
    obtain ⟨th, ht, m, hm, hpc, h⟩ := h
    cases h
    refine hi.move rfl (fun x hx => ?_) (fun _ hx => Or.inl (List.mem_of_mem_eraseIdx hx))
      (fun _ _ hx => Or.inl hx)
    rw [List.mem_singleton.mp hx]
    exact hpayload m _ (stamp_payload how w.net m) (hi.held m (List.mem_of_getElem? hm))
  | recv t e =>
    simp only [step, Option.bind_eq_bind, Option.bind_eq_some_iff, Option.ite_none_right_eq_some] at h
    obtain ⟨th, ht, hpc, h⟩ := h
    cases h
    exact hi.move rfl (by simp [Pc.pending, Pc.carried]) (fun _ hx => Or.inl hx)
      (fun _ _ hx => Or.inl hx)
  | step t =>
    simp only [step, Option.bind_eq_bind, Option.bind_eq_some_iff] at h
    obtain ⟨th, ht, h⟩ := h
    exact all_advance hraw ht hi h

end All

end World

namespace Values

/-! ### Every typed message stands for a value that was moved in -/

/-- The messages over the cells `keys`. -/
def Over (keys : List (TypeId × ℕ)) (m : Message) : Prop := ∀ k, m.typed = some k → k ∈ keys

theorem over_of_raw (keys : List (TypeId × ℕ)) (m : Message) (h : m.isRaw = true) : Over keys m := by
  intro k hk
  rw [Message.typed_of_raw h] at hk
  cases hk

theorem over_of_payload (keys : List (TypeId × ℕ)) (m m' : Message) (h : m'.payload = m.payload)
    (hm : Over keys m) : Over keys m' := by
  intro k hk
  exact hm k (by rw [← Message.typed_of_payload h, hk])

/-- The values moved in are in cells of their own, every message with a value is over one of them,
and no cell was unwrapped twice. -/
structure Sourced (x : Values) : Prop where
  owned : ∃ own, World.Owned own x.world
  bound : ∀ v ∈ x.moved, v.cell < x.world.net.store.nbuf
  typed : x.world.All (Over (x.moved.map Value.key))
  source : ∀ v ∈ x.handed, v.key ∈ x.moved.map Value.key
  once : (x.handed.map Value.cell).Nodup

theorem sourced_start {w : World} (h : World.Init w) : (start w).Sourced where
  owned := ⟨_, World.owned_init h⟩
  bound v hv := by cases hv
  typed := by
    refine ⟨fun m hm => ?_, fun th hth m hm => ?_, fun e m hm => ?_⟩
    · rw [start, h.held] at hm
      cases hm
    · rw [h.threads th hth] at hm
      cases hm
    · rw [start, h.queues] at hm
      cases hm
  source v hv := by cases hv
  once := List.nodup_nil

/-- A new value is in the next free cell, which the step allocates. -/
theorem cell_of_movedBy {w w' : World} {a : Act} (h : w.step a = some w') {v : Value}
    (hv : v ∈ w.movedBy a) : v.cell < w'.net.store.nbuf := by
  unfold World.movedBy at hv
  split at hv
  · cases h
    rw [List.mem_singleton.mp hv]
    exact Nat.lt_succ_self _
  · cases h
    rw [List.mem_singleton.mp hv]
    exact Nat.lt_succ_self _
  · cases hv

theorem sourced_act {x : Values} {a : Act} {w' : World} (hi : x.Sourced)
    (h : x.world.step a = some w') :
    ({ x with world := w', moved := x.moved ++ x.world.movedBy a } : Values).Sourced := by
  obtain ⟨own, ho⟩ := hi.owned
  obtain ⟨own', hg, ho'⟩ := World.owned_trans (World.step_trans h) ho
  have hkeys : ∀ k ∈ x.moved.map Value.key,
      k ∈ (x.moved ++ x.world.movedBy a).map Value.key := by
    intro k hk
    rw [List.map_append]
    exact List.mem_append_left _ hk
  refine ⟨⟨own', ho'⟩, fun v hv => ?_, ?_, fun v hv => hkeys _ (hi.source v hv), hi.once⟩
  · rcases List.mem_append.mp hv with hv | hv
    · exact lt_of_lt_of_le (hi.bound v hv) hg.nbuf
    · exact cell_of_movedBy h hv
  · have hold := hi.typed.mono fun m hm k hk => hkeys k (hm k hk)
    refine World.all_step (over_of_raw _) (over_of_payload _) hold (fun v hv m hm k hk => ?_) h
    rw [hm, Option.some.injEq] at hk
    rw [← hk, List.map_append]
    exact List.mem_append_right _ (List.mem_map_of_mem hv)

/-- **What `typeunwrap` hands out was moved in**, and if the buffer was not unwrapped before, it was
not handed out before. -/
theorem sourced_typeunwrap {x : Values} {i : ℕ} {junk : ℕ → UInt8} {ty : TypeId} {size : ℕ}
    {m : Message} {bytes : List UInt8} (hi : x.Sourced) (hm : x.world.held[i]? = some m)
    (hbytes : m.typeunwrap junk x.world.net.store ty size = some bytes)
    (hfresh : x.fresh (.typeunwrap i junk ty size) = true) :
    ({ x with
      world := x.world.hold (x.world.held.eraseIdx i)
      handed := x.handed ++ [⟨ty, m.buf, bytes⟩] } : Values).Sourced := by
  obtain ⟨own, ho⟩ := hi.owned
  have hsub : ∀ m ∈ x.world.held.eraseIdx i, m ∈ x.world.held :=
    fun m hm => List.mem_of_mem_eraseIdx hm
  have hheld := hi.typed.held m (List.mem_of_getElem? hm)
  refine ⟨⟨own, fun m hm => ho.held m (hsub m hm), ho.threads, ho.queued⟩, hi.bound,
    ⟨fun m hm => hi.typed.held m (hsub m hm), hi.typed.threads, hi.typed.queued⟩, fun v hv => ?_, ?_⟩
  · rcases List.mem_append.mp hv with hv | hv
    · exact hi.source v hv
    · rw [List.mem_singleton.mp hv]
      exact hheld _ (Message.typed_of_typeunwrap hbytes)
  · simp only [fresh, hm, List.all_eq_true, bne_iff_ne, ne_eq] at hfresh
    rw [List.map_append, List.nodup_append]
    refine ⟨hi.once, List.nodup_singleton _, fun c hc c' hc' => ?_⟩
    obtain ⟨v, hv, rfl⟩ := List.mem_map.mp hc
    rw [List.map_singleton, List.mem_singleton] at hc'
    rw [hc']
    exact hfresh v hv

theorem sourced_step {x x' : Values} {a : ValueAct} (hi : x.Sourced) (hfresh : x.fresh a = true)
    (h : x.step a = some x') : x'.Sourced := by
  cases a with
  | act a =>
    obtain ⟨w', hw, rfl⟩ := Option.map_eq_some_iff.mp h
    exact sourced_act hi hw
  | typeunwrap i junk ty size =>
    simp only [step, Option.bind_eq_bind, Option.bind_eq_some_iff, Option.some.injEq] at h
    obtain ⟨m, hm, bytes, hbytes, rfl⟩ := h
    exact sourced_typeunwrap hi hm hbytes hfresh

/-- Values in cells of their own are no more than the values they come from. -/
theorem Sourced.count_le {x : Values} (h : x.Sourced) (ty : TypeId) :
    x.handed.countP (fun v => v.ty = ty) ≤ x.moved.countP (fun v => v.ty = ty) := by
  have hnodup : ((x.handed.filter fun v => v.ty = ty).map Value.key).Nodup := by
    refine List.Nodup.of_map Prod.snd ?_
    rw [List.map_map]
    exact h.once.sublist (List.filter_sublist.map _)
  have hsubset : (x.handed.filter fun v => v.ty = ty).map Value.key ⊆
      (x.moved.filter fun v => v.ty = ty).map Value.key := by
    intro k hk
    obtain ⟨v, hv, rfl⟩ := List.mem_map.mp hk
    obtain ⟨hv, hty⟩ := List.mem_filter.mp hv
    obtain ⟨v', hv', hkey⟩ := List.mem_map.mp (h.source v hv)
    have htype : v'.ty = v.ty := congrArg Prod.fst hkey
    refine List.mem_map.mpr ⟨v', List.mem_filter.mpr ⟨hv', ?_⟩, hkey⟩
    rw [htype]
    exact hty
  have hle := (List.subperm_of_subset hnodup hsubset).length_le
  rwa [List.length_map, List.length_map, ← List.countP_eq_length_filter,
    ← List.countP_eq_length_filter] at hle

/-- **A value is handed out at most once.**  In every run in which no buffer is unwrapped a second
time, `typeunwrap` and `get_payload` have handed out no more values of a type than were moved into
messages; the library itself makes no call of `T::clone`. -/
theorem handed_le_moved {w₀ : World} (hinit : World.Init w₀) {acts : List ValueAct} {x : Values}
    (hfresh : StepsMeet step (fun x a => x.fresh a = true) (start w₀) acts)
    (hrun : run step (start w₀) acts = some x) (ty : TypeId) :
    x.handed.countP (fun v => v.ty = ty) ≤ x.moved.countP (fun v => v.ty = ty) := by
  have hsourced : x.Sourced :=
    run_invariant_of (fun _ _ _ hi hf h => sourced_step hi hf h) hfresh hrun (sourced_start hinit)
  exact hsourced.count_le ty

/-- The thread 0 makes a clone message of three bytes and broadcasts it as nobody, and both
endpoints receive it. -/
def broadcastScript : List ValueAct :=
  let acts : List Act :=
    [Act.user (.newClone (fun _ => 0) 5 [1, 2, 3]), .send 0 0 .sendx] ++ List.replicate 9 (Act.step 0) ++
      [Act.recv 0 0, .recv 1 1] ++ List.replicate 4 (Act.step 0) ++ List.replicate 4 (Act.step 1)
  acts.map .act

/-- `typeunwrap` of the first message that is held. -/
def unwrapFirst : ValueAct := .typeunwrap 0 (fun _ => 0) 5 3

/-- One receiver unwraps the message, and the other drops it. -/
theorem handed_le_moved_broadcast :
    ∃ x, run step (start World.pair) (broadcastScript ++ [unwrapFirst, .act (.user (.drop 0))]) =
        some x ∧ x.handed = [⟨5, 0, [1, 2, 3]⟩] ∧
      x.handed.countP (fun v => v.ty = 5) ≤ x.moved.countP (fun v => v.ty = 5) := by
  have hrun : (run step (start World.pair)
      (broadcastScript ++ [unwrapFirst, .act (.user (.drop 0))])).map handed =
        some [⟨5, 0, [1, 2, 3]⟩] := by
    decide +kernel
  obtain ⟨x, hx, hhanded⟩ := Option.map_eq_some_iff.mp hrun
  exact ⟨x, hx, hhanded, handed_le_moved World.pair_init (by decide +kernel) hx 5⟩

/-- **One value, two owners.**  Both endpoints unwrap the clone message they received: the one value
that was moved in is handed out twice, from the same cell. -/
theorem not_handed_le_moved :
    ∃ (w₀ : World) (x : Values), World.Init w₀ ∧
      run step (start w₀) (broadcastScript ++ [unwrapFirst, unwrapFirst]) = some x ∧
      x.moved = [⟨5, 0, [1, 2, 3]⟩] ∧ x.handed = [⟨5, 0, [1, 2, 3]⟩, ⟨5, 0, [1, 2, 3]⟩] ∧
      ¬x.handed.countP (fun v => v.ty = 5) ≤ x.moved.countP (fun v => v.ty = 5) := by
  have hrun : (run step (start World.pair) (broadcastScript ++ [unwrapFirst, unwrapFirst])).map
      (fun x => (x.moved, x.handed)) =
        some ([⟨5, 0, [1, 2, 3]⟩], [⟨5, 0, [1, 2, 3]⟩, ⟨5, 0, [1, 2, 3]⟩]) := by
    decide +kernel
  obtain ⟨x, hx, hview⟩ := Option.map_eq_some_iff.mp hrun
  simp only [Prod.mk.injEq] at hview
  obtain ⟨hmoved, hhanded⟩ := hview
  refine ⟨World.pair, x, World.pair_init, hx, hmoved, hhanded, ?_⟩
  rw [hmoved, hhanded]
  decide

end Values

end Traffic

end WaterNet
