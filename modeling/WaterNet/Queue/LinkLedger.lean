import WaterNet.Queue.LinkOrder

/-!
# The values of the list under several threads (`queue.rs`)

A value is with its put until the put links the item that holds it.  The get that claims the item
has the value until it returns it.

* `Ledger` — each value put is with its put or in the list, once; each claimed one is with its get or
  was returned, once;
* `Ledger.move` and the lemmas after it — each kind of step keeps this.
-/

namespace WaterNet.Queue.Link

open Lib.Pool

variable {α : Type*}

namespace Pc

/-- The value of a put whose item is not in the list yet. -/
def brings : Pc α → Option (Tagged α)
  | .popPos v | .popSwap _ v | .boxNew v | .reset _ _ v | .bumpSent _ v | .swapPtr _ v => some v
  | _ => none

/-- The value that a get has claimed. -/
def takes : Pc α → Option (Tagged α)
  | .markRel _ v | .bumpRel v | .leave v => some v
  | pc => pc.claims

def bringing (n : ℕ) (pc : Pc α) : ℕ := pc.brings.elim 0 (ofPut n)

def taking (n : ℕ) (pc : Pc α) : ℕ := pc.takes.elim 0 (ofPut n)

end Pc

/-- The item holds the value of put number `n`. -/
def itemOf (n : ℕ) (x : Ptr × Tagged α) : ℕ := ofPut n x.2

/-- **Every value put is in one place**: with its put or in the list; and every claimed one is with
its get or was returned. -/
structure Ledger (threads : List (Pc α)) (returned : List (Tagged α)) (puts : List α)
    (hist : List (Ptr × Tagged α)) (claimed : ℕ) : Prop where
  brought : ∀ n, total (Pc.bringing n) threads + total (itemOf n) hist =
    if n < puts.length then 1 else 0
  taken : ∀ n, total (ofPut n) returned + total (Pc.taking n) threads =
    total (itemOf n) (hist.take claimed)
  inPut : ∀ pc ∈ threads, ∀ v, pc.brings = some v → puts[v.origin]? = some v.value
  inList : ∀ x ∈ hist, puts[x.2.origin]? = some x.2.value
  inGet : ∀ pc ∈ threads, ∀ v, pc.takes = some v → puts[v.origin]? = some v.value
  given : ∀ v ∈ returned, puts[v.origin]? = some v.value

namespace Ledger

variable {threads : List (Pc α)} {returned : List (Tagged α)} {puts : List α}
  {hist : List (Ptr × Tagged α)} {claimed t : ℕ} {pc pc' : Pc α} {v : Tagged α}

theorem move (h : Ledger threads returned puts hist claimed) (ht : threads[t]? = some pc)
    (hbrings : pc'.brings = pc.brings) (htakes : pc'.takes = pc.takes) :
    Ledger (threads.set t pc') returned puts hist claimed := by
  have hmem := List.mem_of_getElem? ht
  refine ⟨fun n => ?_, fun n => ?_, forall_mem_set h.inPut fun v hv => ?_, h.inList,
    forall_mem_set h.inGet fun v hv => ?_, h.given⟩
  · have hset := total_set (Pc.bringing n) ht pc'
    have hsame : Pc.bringing n pc' = Pc.bringing n pc := by rw [Pc.bringing, Pc.bringing, hbrings]
    rw [← h.brought n]
    omega
  · have hset := total_set (Pc.taking n) ht pc'
    have hsame : Pc.taking n pc' = Pc.taking n pc := by rw [Pc.taking, Pc.taking, htakes]
    rw [← h.taken n]
    omega
  · exact h.inPut pc hmem v (hbrings ▸ hv)
  · exact h.inGet pc hmem v (htakes ▸ hv)

/-- A put begins: its value is the next one. -/
theorem start (h : Ledger threads returned puts hist claimed) (ht : threads[t]? = some .idle)
    (x : α) : Ledger (threads.set t (.popPos ⟨puts.length, x⟩)) returned (puts ++ [x]) hist
      claimed := by
  have hold : ∀ v : Tagged α, puts[v.origin]? = some v.value →
      (puts ++ [x])[v.origin]? = some v.value := by
    intro v hv
    rw [List.getElem?_append_left (List.getElem?_eq_some_iff.mp hv).1]
    exact hv
  refine ⟨fun n => ?_, fun n => ?_, ?_, fun y hy => hold _ (h.inList y hy), ?_,
    fun v hv => hold v (h.given v hv)⟩
  · have hset : total (Pc.bringing n) (threads.set t (.popPos ⟨puts.length, x⟩)) + 0 =
        total (Pc.bringing n) threads + (if puts.length = n then 1 else 0) := total_set _ ht _
    have hbrought := h.brought n
    rw [List.length_append, List.length_singleton]
    split_ifs at hset hbrought ⊢ <;> omega
  · have hset : total (Pc.taking n) (threads.set t (.popPos ⟨puts.length, x⟩)) + 0 =
        total (Pc.taking n) threads + 0 := total_set _ ht _
    rw [← h.taken n]
    omega
  · refine forall_mem_set (fun pc hpc v hv => hold v (h.inPut pc hpc v hv)) fun v hv => ?_
    cases hv
    exact List.getElem?_concat_length
  · refine forall_mem_set (fun pc hpc v hv => hold v (h.inGet pc hpc v hv)) fun v hv => ?_
    cases hv

/-- A put links its item. -/
theorem link (h : Ledger threads returned puts hist claimed) (hle : claimed ≤ hist.length)
    {item oldhead : Ptr} (ht : threads[t]? = some (.swapPtr item v)) :
    Ledger (threads.set t (.linkNext item oldhead)) returned puts (hist ++ [(item, v)])
      claimed := by
  refine ⟨fun n => ?_, fun n => ?_, forall_mem_set h.inPut nofun, fun x hx => ?_,
    forall_mem_set h.inGet nofun, h.given⟩
  · have hset : total (Pc.bringing n) (threads.set t (.linkNext item oldhead)) + ofPut n v =
        total (Pc.bringing n) threads + 0 := total_set _ ht _
    have hitem : itemOf n (item, v) = ofPut n v := rfl
    rw [← h.brought n, total_append, total_cons, total_nil, hitem]
    omega
  · have hset : total (Pc.taking n) (threads.set t (.linkNext item oldhead)) + 0 =
        total (Pc.taking n) threads + 0 := total_set _ ht _
    rw [List.take_append_of_le_length hle, ← h.taken n]
    omega
  · rcases List.mem_append.mp hx with hx | hx
    · exact h.inList x hx
    · rw [List.mem_singleton.mp hx]
      exact h.inPut _ (List.mem_of_getElem? ht) v rfl

/-- A get claims the next item. -/
theorem claim (h : Ledger threads returned puts hist claimed) {cur : Ptr} {first : Bool}
    (ht : threads[t]? = some (.claim cur first)) (hv : hist[claimed]? = some (cur, v)) :
    Ledger (threads.set t (.dropLen cur first v)) returned puts hist (claimed + 1) := by
  refine ⟨fun n => ?_, fun n => ?_, forall_mem_set h.inPut nofun, h.inList,
    forall_mem_set h.inGet fun x hx => ?_, h.given⟩
  · have hset : total (Pc.bringing n) (threads.set t (.dropLen cur first v)) + 0 =
        total (Pc.bringing n) threads + 0 := total_set _ ht _
    rw [← h.brought n]
    omega
  · have hset : total (Pc.taking n) (threads.set t (.dropLen cur first v)) + 0 =
        total (Pc.taking n) threads + ofPut n v := total_set _ ht _
    have htaken := h.taken n
    have hitem : itemOf n (cur, v) = ofPut n v := rfl
    rw [List.take_add_one, hv, Option.toList_some, total_append, total_cons, total_nil, hitem]
    omega
  · cases hx
    exact h.inList _ (List.mem_of_getElem? hv)

theorem giveBack (h : Ledger threads returned puts hist claimed)
    (ht : threads[t]? = some (.leave v)) :
    Ledger (threads.set t .idle) (returned ++ [v]) puts hist claimed := by
  refine ⟨fun n => ?_, fun n => ?_, forall_mem_set h.inPut nofun, h.inList,
    forall_mem_set h.inGet nofun, fun x hx => ?_⟩
  · have hset : total (Pc.bringing n) (threads.set t .idle) + 0 =
        total (Pc.bringing n) threads + 0 := total_set _ ht _
    rw [← h.brought n]
    omega
  · have hset : total (Pc.taking n) (threads.set t .idle) + ofPut n v =
        total (Pc.taking n) threads + 0 := total_set _ ht _
    rw [← h.taken n, total_append, total_cons, total_nil]
    omega
  · rcases List.mem_append.mp hx with hx | hx
    · exact h.given x hx
    · rw [List.mem_singleton.mp hx]
      exact h.inGet _ (List.mem_of_getElem? ht) v rfl

/-- No more items were linked than values put. -/
theorem length_le (h : Ledger threads returned puts hist claimed) : hist.length ≤ puts.length := by
  have hlen : (hist.map Prod.snd).length = hist.length := List.length_map _
  rw [← hlen]
  refine length_le_of_once (fun n => ?_) fun v hv => ?_
  · have hbrought := h.brought n
    have heq : total (ofPut n) (hist.map Prod.snd) = total (itemOf n) hist := by
      rw [total, total, List.map_map]
      rfl
    rw [heq]
    split at hbrought <;> omega
  · obtain ⟨x, hx, rfl⟩ := List.mem_map.mp hv
    exact h.inList x hx

end Ledger

end WaterNet.Queue.Link
