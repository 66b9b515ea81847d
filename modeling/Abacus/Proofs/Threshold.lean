import Abacus.Proofs.Language
import Abacus.Proofs.Monotone

set_option autoImplicit false

/-!
# The limit only cuts off

Two runs of lowering with different limits look at the same nodes in the same order, until the one
with fewer levels has none left. So more levels change nothing about an outcome other than that
there were too few, and a tree that is lowered with some limit is lowered with exactly the limits
that allow the levels that it needs.

## Main definitions

* `Abacus.IsCutOff` — an outcome that is the fault of too few levels.
* `Abacus.Below` — an outcome that is another one, unless it is cut off.

## Main results

* `Abacus.Tree.program_below` — the outcome with fewer levels is below the outcome with more.
* `Abacus.Program.ofTreeUpTo_exact_threshold` — the limits with which a tree is lowered.
-/

namespace Abacus

variable {α : Type}

/-- An outcome is cut off if it is the fault of too few levels, at whatever node. -/
def IsCutOff (r : Except Fault α) : Prop :=
  ∃ span snippet, r = .error (.refused .nestingTooDeep span snippet)

/-- An outcome is below another if it is the same, unless it is cut off. -/
def Below (r r' : Except Fault α) : Prop := IsCutOff r ∨ r = r'

/-! ## Outcomes below others -/

/-- An outcome is below itself. -/
lemma Below.refl (r : Except Fault α) : Below r r := Or.inr rfl

/-- A fault is that a level is lacking, at whatever node. -/
def LacksLevel (fault : Fault) : Prop :=
  ∃ span snippet, fault = .refused .nestingTooDeep span snippet

/-- Outcomes that are the same but for the lack of levels. -/
lemma Below.of_sameUnless {r r' : Except Fault α} (h : SameUnless LacksLevel r r') :
    Below r r' := by
  rcases h with ⟨fault, rfl, span, snippet, rfl⟩ | rfl
  · exact Or.inl ⟨span, snippet, rfl⟩
  · exact Below.refl _

namespace Tree

variable {source : List Char} {defined : Definitions} {t : Tree} {budget budget' : Nat}

/-- With the same names nothing is excused but the lack of levels. -/
lemma allowsMore_of_le (hle : budget ≤ budget') :
    AllowsMore LacksLevel defined defined budget budget' where
  mem _ hname := hname
  le := hle
  undefinedName _ _ hname hname' := absurd hname' hname
  nestingTooDeep _ span snippet := ⟨span, snippet, rfl⟩

/-- **More levels change no program** that was not cut off. -/
lemma program_below (hle : budget ≤ budget') :
    Below (t.program source defined budget).1 (t.program source defined budget').1 :=
  .of_sameUnless (program_sameUnless (allowsMore_of_le hle)).1

end Tree

namespace Program

/-- **More levels change nothing** about the outcome of a whole tree that was not cut off. -/
lemma ofTreeUpTo_below {tree : Tree} {source : String} {d d' : Nat} (hle : d ≤ d') :
    Below (ofTreeUpTo tree source d) (ofTreeUpTo tree source d') := by
  cases hbreak : tree.breakFault? source.toList with
  | some fault =>
    rw [ofTreeUpTo, ofTreeUpTo, hbreak]
    exact Below.refl _
  | none =>
    rw [ofTreeUpTo_eq hbreak, ofTreeUpTo_eq hbreak]
    exact Tree.program_below hle

/-- A tree that is lowered with some limit is lowered with another exactly if that one allows the
levels that the tree needs. -/
lemma exists_ofTreeUpTo_eq_ok_iff {tree : Tree} {source : String} {d₀ d : Nat} {p : Program}
    (h : ofTreeUpTo tree source d₀ = .ok p) :
    (∃ q, ofTreeUpTo tree source d = .ok q) ↔ tree.levelsOfProgram ≤ d := by
  cases hbreak : tree.breakFault? source.toList with
  | some fault => simp [ofTreeUpTo, hbreak] at h
  | none =>
    rw [ofTreeUpTo_eq hbreak, Tree.program_eq_ok_iff] at h
    obtain ⟨hkind, hstatements, -⟩ := h
    rw [ofTreeUpTo_eq hbreak]
    constructor
    · rintro ⟨q, hq⟩
      exact (Tree.program_eq_ok_iff.1 hq).2.2
    · intro hlevels
      exact ⟨p, Tree.program_eq_ok_iff.2 ⟨hkind, hstatements, hlevels⟩⟩

/-- **The limit only ever cuts off, at an exact threshold.** For every tree and every source: what
comes out with some number of levels, unless it is the fault of too few, comes out with every larger
number; and if a program comes out with any number of levels, then one comes out with exactly the
numbers that are at least the levels that the tree needs, and with every smaller number the fault is
that of too few. Lowering with a nesting limit is the case of a positive number of levels.

**Proof sketch.** With more levels the run is the same until the one with fewer has none left
(`Abacus.Program.ofTreeUpTo_below`), so an outcome that is not cut off stays. A tree that is lowered
at all is a program of the language, and then it is lowered exactly with the levels that it needs
(`Abacus.Program.exists_ofTreeUpTo_eq_ok_iff`); with fewer it is cut off, as it would otherwise come
to the same program. -/
theorem ofTreeUpTo_exact_threshold (tree : Tree) (source : String) :
    (∀ d d', d ≤ d' → ¬ IsCutOff (ofTreeUpTo tree source d) →
      ofTreeUpTo tree source d' = ofTreeUpTo tree source d) ∧
    ((∃ d p, ofTreeUpTo tree source d = .ok p) → ∀ d,
      ((∃ p, ofTreeUpTo tree source d = .ok p) ↔ tree.levelsOfProgram ≤ d) ∧
      (d < tree.levelsOfProgram → IsCutOff (ofTreeUpTo tree source d))) ∧
    ∀ limit : NestingLimit, ofTree tree source limit = ofTreeUpTo tree source limit.levels := by
  refine ⟨fun d d' hle hcut => ?_, ?_, ofTree_eq_ofTreeUpTo tree source⟩
  · exact ((ofTreeUpTo_below hle).resolve_left hcut).symm
  · rintro ⟨d₀, p, hp⟩ d
    refine ⟨exists_ofTreeUpTo_eq_ok_iff hp, fun hlt => ?_⟩
    have henough : tree.levelsOfProgram ≤ d₀ := (exists_ofTreeUpTo_eq_ok_iff hp).1 ⟨p, hp⟩
    have hbelow : Below (ofTreeUpTo tree source d) (ofTreeUpTo tree source d₀) :=
      ofTreeUpTo_below (by omega)
    rcases hbelow with hcut | hsame
    · exact hcut
    · -- Without the cut the program would come out below the threshold too.
      have hlevels := (exists_ofTreeUpTo_eq_ok_iff hp).1 ⟨p, hsame.trans hp⟩
      omega

/-- The tree of `1+2+3` needs four levels: the source, the statement and two operators. -/
theorem threshold_of_sum :
    let sum := Tree.node (.plain "binary_operator" ⟨0, 3⟩)
      [.leaf "integer" ⟨0, 1⟩, .leaf "+" ⟨1, 2⟩, .leaf "integer" ⟨2, 3⟩]
    let tree := Tree.node (.plain "module" ⟨0, 5⟩) [.node (.plain "expression_statement" ⟨0, 5⟩)
      [.node (.plain "binary_operator" ⟨0, 5⟩) [sum, .leaf "+" ⟨3, 4⟩, .leaf "integer" ⟨4, 5⟩]]]
    tree.levelsOfProgram = 4 ∧ IsCutOff (ofTreeUpTo tree "1+2+3" 3) ∧
      (∃ p, ofTreeUpTo tree "1+2+3" 4 = .ok p) ∧
      ofTreeUpTo tree "1+2+3" 10000 = ofTreeUpTo tree "1+2+3" 4 := by
  intro sum tree
  have hfour : ofTreeUpTo tree "1+2+3" 4 =
      .ok [.expression (.binary .plus (.binary .plus
        (.number ⟨false, 0x3ff0000000000000, by decide⟩)
        (.number ⟨false, 0x4000000000000000, by decide⟩))
        (.number ⟨false, 0x4008000000000000, by decide⟩))] := by
    decide +kernel
  have hneeds : tree.levelsOfProgram = 4 := by decide +kernel
  obtain ⟨hsame, hexact, -⟩ := ofTreeUpTo_exact_threshold tree "1+2+3"
  refine ⟨hneeds, (hexact ⟨4, _, hfour⟩ 3).2 (by omega), ⟨_, hfour⟩, hsame 4 10000 (by decide) ?_⟩
  rintro ⟨span, snippet, hcut⟩
  rw [hfour] at hcut
  simp at hcut

end Program

end Abacus
