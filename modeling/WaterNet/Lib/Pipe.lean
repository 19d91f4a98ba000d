import Mathlib.Data.List.Basic

/-!
# A pipe between a writer and a reader of chunks

The writer pushes whole chunks, and a chunk goes out in pieces of any size.  The reader takes one
element at a time and keeps those of the chunk it is in until it has all of them.

* `Pipe.push`, `Pipe.write`, `Pipe.read`, `Pipe.take` — the operations;
* `Carries p cs` — what is in the pipe are the chunks `cs`, the reader being inside the first;
* `Carries.push`, `Carries.write`, `Carries.read`, `Carries.take` — **what the operations do to the
  chunks**: only `push` adds one, only `take` removes one, and what it takes is the first.
-/

namespace WaterNet.Lib

variable {α : Type*}

/-- `unsent` is with the writer, `wire` is on its way, `got` is with the reader. -/
structure Pipe (α : Type*) where
  unsent : List α
  wire : List α
  got : List α
  deriving DecidableEq, Repr

namespace Pipe

def empty : Pipe α := ⟨[], [], []⟩

def push (p : Pipe α) (c : List α) : Pipe α := { p with unsent := p.unsent ++ c }

/-- The next `n` elements go out. -/
def write (p : Pipe α) (n : ℕ) : Pipe α :=
  { p with unsent := p.unsent.drop n, wire := p.wire ++ p.unsent.take n }

/-- The reader takes one element off the wire. -/
def read (p : Pipe α) : Option (Pipe α) :=
  match p.wire with
  | [] => none
  | x :: rest => some { p with wire := rest, got := p.got ++ [x] }

/-- The reader has dealt with the elements it kept. -/
def take (p : Pipe α) : Pipe α := { p with got := [] }

/-- The chunks in the pipe; the reader has the first elements of the first of them. -/
structure Carries (p : Pipe α) (cs : List (List α)) : Prop where
  all : p.got ++ (p.wire ++ p.unsent) = cs.flatten
  inside : p.got <+: cs.headD []

theorem carries_empty : (empty : Pipe α).Carries [] := ⟨rfl, List.nil_prefix⟩

namespace Carries

variable {p p' : Pipe α} {c : List α} {cs : List (List α)}

theorem push (h : p.Carries cs) (c : List α) : (p.push c).Carries (cs ++ [c]) where
  all := by
    rw [List.flatten_append, ← h.all]
    simp [Pipe.push]
  inside := by
    cases cs with
    | nil =>
      have hnil : p.got = [] := List.prefix_nil.mp h.inside
      show p.got <+: c
      rw [hnil]
      exact List.nil_prefix
    | cons d ds => exact h.inside

theorem write (h : p.Carries cs) (n : ℕ) : (p.write n).Carries cs where
  all := by
    rw [← h.all]
    simp [Pipe.write]
  inside := h.inside

/-- The reader never reads past the end of the chunk it is in. -/
theorem read (h : p.Carries (c :: cs)) (hmore : p.got.length < c.length) (hread : p.read = some p') :
    p'.Carries (c :: cs) := by
  unfold Pipe.read at hread
  split at hread
  · cases hread
  · rename_i x rest hwire
    cases hread
    have hall : p.got ++ [x] ++ (rest ++ p.unsent) = (c :: cs).flatten := by
      rw [← h.all, hwire]
      simp
    refine ⟨hall, ?_⟩
    -- both are initial parts of what is in the pipe, and the chunk is the longer one
    refine List.prefix_of_prefix_length_le ⟨_, hall⟩ (List.prefix_append c cs.flatten) ?_
    rw [List.length_append, List.length_singleton]
    exact hmore

/-- Once it has as many elements as the chunk, it has the chunk. -/
theorem got_eq (h : p.Carries (c :: cs)) (hlen : p.got.length = c.length) : p.got = c :=
  h.inside.eq_of_length hlen

theorem take (h : p.Carries (c :: cs)) (hgot : p.got = c) : p.take.Carries cs where
  all := by
    have hall := h.all
    rw [hgot, List.flatten_cons] at hall
    exact List.append_cancel_left hall
  inside := List.nil_prefix

/-- With nothing in it the reader can neither have nor get an element. -/
theorem of_nil (h : p.Carries []) : p = empty := by
  obtain ⟨unsent, wire, got⟩ := p
  have hall : got ++ (wire ++ unsent) = [] := h.all
  simp only [List.append_eq_nil_iff] at hall
  obtain ⟨rfl, rfl, rfl⟩ := hall
  rfl

end Carries

end Pipe

end WaterNet.Lib
