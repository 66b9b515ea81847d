set_option autoImplicit false

/-!
# Defined names

The names that a program has defined so far, in the order of their first definition. Each name
occurs once, and two collections are the same when they hold the same names in any order.

## Main definitions

* `Abacus.Definitions` — a list of names without repetition.
* `Abacus.Definitions.insert` — adds a name at the end unless it is there already.
* `Abacus.Definitions.sameNames` — whether two collections hold the same names.

## Main results

* `Abacus.Definitions.mem_insert` — what is defined after an insertion.
* `Abacus.Definitions.sameNames_iff` — `sameNames` compares members only.
-/

namespace Abacus

/-- Names in the order of their first definition, each once. -/
structure Definitions where
  /-- The names, first defined first. -/
  names : List String
  /-- No name occurs twice. -/
  nodup : names.Nodup
deriving DecidableEq, Repr

namespace Definitions

/-- No name is defined. -/
def empty : Definitions := ⟨[], List.nodup_nil⟩

/-- Whether a name is defined. -/
def contains (d : Definitions) (name : String) : Bool := decide (name ∈ d.names)

/-- The number of names. -/
def size (d : Definitions) : Nat := d.names.length

/-- Whether no name is defined. -/
def isEmpty (d : Definitions) : Bool := d.names.isEmpty

/-- Defines a name: it goes to the end, unless it is defined already. -/
def insert (d : Definitions) (name : String) : Definitions :=
  if h : name ∈ d.names then d
  else ⟨d.names ++ [name], by
    refine List.nodup_append.2 ⟨d.nodup, by simp, fun a ha b hb => ?_⟩
    rw [List.mem_singleton.1 hb]
    exact fun e => h (e ▸ ha)⟩

/-- Whether the same names are defined, in whatever order. -/
def sameNames (d e : Definitions) : Bool :=
  d.names.all e.contains && e.names.all d.contains

instance : Membership String Definitions := ⟨fun d name => name ∈ d.names⟩

/-- A name is defined exactly if it is among the names. -/
theorem mem_def (d : Definitions) (name : String) : name ∈ d ↔ name ∈ d.names := Iff.rfl

/-- The test for a name says whether the name is defined. -/
@[simp] theorem contains_iff (d : Definitions) (name : String) :
    d.contains name = true ↔ name ∈ d := by
  simp [contains, mem_def]

/-- At first no name is defined. -/
@[simp] theorem not_mem_empty (name : String) : name ∉ empty := by
  simp [mem_def, empty]

/-- The names after an insertion, in order. -/
theorem names_insert (d : Definitions) (name : String) :
    (d.insert name).names = if name ∈ d.names then d.names else d.names ++ [name] := by
  unfold insert
  split <;> simp_all

/-- A name is defined after an insertion when it is the new one or was defined before. -/
@[simp] theorem mem_insert (d : Definitions) (name other : String) :
    other ∈ d.insert name ↔ other = name ∨ other ∈ d := by
  rw [mem_def, names_insert, mem_def]
  by_cases h : name ∈ d.names
  · simp only [h, if_true]
    exact ⟨Or.inr, fun h' => h'.elim (fun e => e ▸ h) id⟩
  · simp only [h, if_false, List.mem_append, List.mem_singleton]
    exact or_comm

/-- Two collections are the same exactly when they have the same members. -/
theorem sameNames_iff (d e : Definitions) :
    d.sameNames e = true ↔ ∀ name, name ∈ d ↔ name ∈ e := by
  simp only [sameNames, Bool.and_eq_true, List.all_eq_true, contains_iff, mem_def]
  exact ⟨fun h name => ⟨h.1 name, h.2 name⟩, fun h => ⟨fun n => (h n).1, fun n => (h n).2⟩⟩

end Definitions

end Abacus
