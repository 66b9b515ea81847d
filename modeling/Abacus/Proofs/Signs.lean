import Abacus.Proofs.ReadBack
import Abacus.Proofs.Refinement
import Mathlib.Data.List.Basic

set_option autoImplicit false

/-!
# Signs in front of literals

A literal is read by itself, and a literal with a sign in front of it is read as one text together
with the sign. The two ways agree: the sign gives the number that the literal gives, with its sign
bit set by a minus, and it is refused exactly where the literal is, though not always for the same
reason. A sign that does not stand right in front of its literal is refused in any case, since no
number has a blank or a comment in its text.

## Main definitions

* `Abacus.Binary64.withSign` — a number with a sign in front of it.
* `Abacus.IsNumberChar` — the characters that occur in the texts of numbers.
* `Abacus.Tree.SignsLiteral` — the node of a sign in front of a literal.

## Main results

* `Abacus.Binary64.ofChars?_cons_sign` — a sign in front of a text that has none.
* `Abacus.Binary64.isNumberChar_of_ofChars?` — what a text that reads as a number is made of.
* `Abacus.Walk.signs_agree_with_literals` — lowering a signed literal and lowering the literal.
-/

namespace Abacus

/-- The characters that occur in the texts of numbers. -/
def IsNumberChar (c : Char) : Prop :=
  c.isDigit = true ∨ c.isAlpha = true ∨ c = '.' ∨ c = '+' ∨ c = '-'

instance (c : Char) : Decidable (IsNumberChar c) :=
  inferInstanceAs (Decidable (c.isDigit = true ∨ c.isAlpha = true ∨ c = '.' ∨ c = '+' ∨ c = '-'))

/-! ## Unsigned texts -/

namespace Decimal

variable {cs : List Char} {c : Char}

/-- A sign is all that is split off a text. -/
lemma mem_of_splitSign (h : c ∈ cs) : c = '-' ∨ c = '+' ∨ c ∈ (splitSign cs).2 := by
  unfold splitSign
  split
  · exact (List.mem_cons.1 h).imp_right Or.inr
  · exact Or.inr (List.mem_cons.1 h)
  · exact Or.inr (Or.inr h)

/-- An exponent is a letter, perhaps a sign, and digits. -/
lemma isNumberChar_of_exponent? {e : Int} (h : exponent? cs = some e) (hc : c ∈ cs) :
    IsNumberChar c := by
  cases cs with
  | nil => simp at hc
  | cons letter rest =>
    simp only [exponent?] at h
    split at h
    · next hform =>
      obtain ⟨hletter, -, hdigits⟩ := hform
      rcases List.mem_cons.1 hc with rfl | hc
      · rcases hletter with rfl | rfl
        · exact Or.inr (Or.inl (by decide))
        · exact Or.inr (Or.inl (by decide))
      · rcases mem_of_splitSign hc with rfl | rfl | hc
        · exact Or.inr (Or.inr (Or.inr (Or.inr rfl)))
        · exact Or.inr (Or.inr (Or.inr (Or.inl rfl)))
        · exact Or.inl (List.all_eq_true.1 hdigits c hc)
    · simp at h

/-- A fraction and what follows it are, with a point in front of them perhaps, the whole text. -/
lemma mem_of_splitFraction (h : c ∈ cs) :
    c = '.' ∨ c ∈ (splitFraction cs).1 ∨ c ∈ (splitFraction cs).2 := by
  unfold splitFraction
  split
  · next rest =>
    have hsplit : leadingDigits rest ++ afterDigits rest = rest := List.takeWhile_append_dropWhile
    rw [← hsplit, List.mem_cons, List.mem_append] at h
    exact h
  · exact Or.inr (Or.inr h)

/-- A fraction has digits only. -/
lemma isDigit_of_mem_fraction (h : c ∈ (splitFraction cs).1) : c.isDigit = true := by
  unfold splitFraction at h
  split at h
  · exact List.mem_takeWhile_imp h
  · simp at h

/-- An unsigned decimal is made of digits, a point, and an exponent. -/
lemma isNumberChar_of_ofChars? {d : Decimal} (h : ofChars? cs = some d) (hc : c ∈ cs) :
    IsNumberChar c := by
  have hsplit : leadingDigits cs ++ afterDigits cs = cs := List.takeWhile_append_dropWhile
  simp only [ofChars?] at h
  split at h
  · simp at h
  · obtain ⟨e, he, -⟩ := Option.map_eq_some_iff.1 h
    rw [← hsplit, List.mem_append] at hc
    rcases hc with hc | hc
    · exact Or.inl (List.mem_takeWhile_imp hc)
    · rcases mem_of_splitFraction hc with rfl | hc | hc
      · exact Or.inr (Or.inr (Or.inl rfl))
      · exact Or.inl (isDigit_of_mem_fraction hc)
      · exact isNumberChar_of_exponent? he hc

end Decimal

namespace Binary64

variable {cs : List Char} {c : Char} {x : Binary64}

/-- A letter is one in either case. -/
lemma isAlpha_of_isAlpha_toLower (h : c.toLower.isAlpha = true) : c.isAlpha = true := by
  unfold Char.toLower at h
  split at h
  · next hupper =>
    have hupper : c.isUpper = true := decide_eq_true hupper
    show (c.isUpper || c.isLower) = true
    rw [hupper, Bool.true_or]
  · exact h

/-- The words for numbers are made of letters. -/
lemma isNumberChar_of_ofWord? {negative : Bool} (h : ofWord? negative cs = some x) (hc : c ∈ cs) :
    IsNumberChar c := by
  have hlower : c.toLower ∈ cs.map Char.toLower := List.mem_map_of_mem hc
  have hletters : ∀ word ∈ ["inf".toList, "infinity".toList, "nan".toList],
      word.all Char.isAlpha = true := by decide
  have hword : cs.map Char.toLower ∈ ["inf".toList, "infinity".toList, "nan".toList] := by
    simp only [ofWord?] at h
    split at h
    · next hword => rcases hword with hword | hword <;> simp [hword]
    · split at h
      · next hword => simp [hword]
      · simp at h
  exact Or.inr (Or.inl (isAlpha_of_isAlpha_toLower
    (List.all_eq_true.1 (hletters _ hword) _ hlower)))

/-- **A text that reads as a number** has only characters of numbers in it: no blank, no end of a
line, no backslash and no comment. -/
lemma isNumberChar_of_ofChars? (h : ofChars? cs = some x) (hc : c ∈ cs) : IsNumberChar c := by
  rcases Decimal.mem_of_splitSign hc with rfl | rfl | hbody
  · exact Or.inr (Or.inr (Or.inr (Or.inr rfl)))
  · exact Or.inr (Or.inr (Or.inr (Or.inl rfl)))
  · simp only [ofChars?] at h
    split at h
    · next d hd => exact Decimal.isNumberChar_of_ofChars? hd hbody
    · exact isNumberChar_of_ofWord? h hbody

/-- A text with a blank, the end of a line, a backslash or a comment in it reads as no number. -/
lemma ofChars?_eq_none_of_mem_gap (hgap : c ∈ [' ', '\t', '\n', '\\', '#']) (hc : c ∈ cs) :
    ofChars? cs = none := by
  have hnot : ¬IsNumberChar c := by
    simp only [List.mem_cons, List.not_mem_nil, or_false] at hgap
    rcases hgap with rfl | rfl | rfl | rfl | rfl <;> decide
  rw [Option.eq_none_iff_forall_not_mem]
  intro x hx
  exact hnot (isNumberChar_of_ofChars? hx hc)

/-! ## Signed texts -/

/-- A number with a sign in front of it: a minus changes the sign bit, also that of a zero. -/
def withSign (sign : Char) (x : Binary64) : Binary64 := if sign = '-' then x.neg else x

/-- A sign does not change whether a number is finite. -/
@[simp] lemma isFinite_withSign (sign : Char) (x : Binary64) :
    (x.withSign sign).isFinite = x.isFinite := by
  unfold withSign
  split <;> rfl

/-- The same sign twice changes nothing. -/
@[simp] lemma withSign_withSign (sign : Char) (x : Binary64) :
    (x.withSign sign).withSign sign = x := by
  unfold withSign
  split
  · exact neg_neg x
  · rfl

/-- With the same sign different numbers stay different. -/
@[simp] lemma withSign_inj {sign : Char} {x y : Binary64} :
    x.withSign sign = y.withSign sign ↔ x = y :=
  ⟨fun h => by rw [← withSign_withSign sign x, h, withSign_withSign], fun h => h ▸ rfl⟩

/-- The words for numbers take a minus sign. -/
lemma ofWord?_true (cs : List Char) : ofWord? true cs = (ofWord? false cs).map neg := by
  unfold ofWord?
  dsimp only
  split_ifs <;> rfl

/-- What is behind the sign is a decimal or a word. -/
lemma ofChars?_of_splitSign {negative : Bool} {body : List Char}
    (h : Decimal.splitSign cs = (negative, body)) :
    ofChars? cs =
      ((Decimal.ofChars? body).map (ofDecimal negative)).or (ofWord? negative body) := by
  simp only [ofChars?, h]
  cases Decimal.ofChars? body <;> rfl

/-- **A sign in front of a text that has none** is put in front of the number. -/
lemma ofChars?_cons_sign {sign : Char} (hsign : sign = '+' ∨ sign = '-')
    (h : Decimal.splitSign cs = (false, cs)) :
    ofChars? (sign :: cs) = (ofChars? cs).map (withSign sign) := by
  rcases hsign with rfl | rfl
  · have hplus : Decimal.splitSign ('+' :: cs) = (false, cs) := rfl
    have hsame : withSign '+' = id := rfl
    rw [ofChars?_of_splitSign hplus, ofChars?_of_splitSign h, hsame, Option.map_id, id]
  · have hminus : Decimal.splitSign ('-' :: cs) = (true, cs) := rfl
    have hneg : withSign '-' = neg := rfl
    rw [ofChars?_of_splitSign hminus, ofChars?_of_splitSign h, hneg, Option.map_or,
      Option.map_map, ofWord?_true]
    rfl

/-- A text that starts as a numeral does is a decimal, if it reads as a number at all. -/
lemma ofChars?_of_decimal {d : Decimal} (hsplit : Decimal.splitSign cs = (false, cs))
    (h : Decimal.ofChars? cs = some d) : ofChars? cs = some (ofDecimal false d) := by
  rw [ofChars?_of_splitSign hsplit, h]
  rfl

/-- A decimal that is zero or too small for any other number is read as zero. -/
lemma ofDecimal_of_magnitude_eq_zero {d : Decimal} (h : d.magnitude = 0) :
    ofDecimal false d = zero := by
  simp [ofDecimal, zero, h]

/-- A decimal that is too large is read as a number that is not finite. -/
lemma isFinite_ofDecimal_of_magnitude_eq_infinity {d : Decimal} (h : d.magnitude = infinity) :
    (ofDecimal false d).isFinite = false := by
  simp [ofDecimal, isFinite, h]

end Binary64

namespace Tree

/-! ## Signed literals -/

variable {source source' : List Char} {defined : Definitions} {t literal : Tree} {sign : Char}

/-- A node is a sign in front of a literal: of its children that are no extras the first one reads
as the sign, and the second one is a literal whose text starts with a digit or a point. -/
structure SignsLiteral (source : List Char) (sign : Char) (t literal : Tree) : Prop where
  /-- The kind of the node. -/
  kind_eq : t.kind = .unaryOperator
  /-- The signs that there are. -/
  sign_eq : sign = '+' ∨ sign = '-'
  /-- The first two children. -/
  children : ∃ operator others, t.regular = operator :: literal :: others ∧
    (operator.text source).toList = [sign]
  /-- The kind of the literal. -/
  literal_kind : literal.kind = .integer ∨ literal.kind = .float
  /-- The start of its text. -/
  numeral : ∃ c cs, (literal.text source).toList = c :: cs ∧ (c.isDigit ∨ c = '.')

/-- What a node comes to whose text is read as one number: a finite number, or a refusal that says
whether the text reads as no number at all. -/
def numberOr (source : List Char) (unreadable : FaultKind) (t : Tree) (x? : Option Binary64) :
    Except Fault Expression :=
  x?.elim (.error (t.fault source unreadable)) fun x =>
    if x.isFinite then .ok (.number x) else .error (t.fault source .invalidNumber)

/-- A finite number is what the node comes to. -/
lemma numberOr_of_isFinite {x : Binary64} (h : x.isFinite = true) (unreadable : FaultKind) :
    t.numberOr source unreadable (some x) = .ok (.number x) := if_pos h

/-- A number that is not finite is refused. -/
lemma numberOr_of_not_isFinite {x : Binary64} (h : x.isFinite = false) (unreadable : FaultKind) :
    t.numberOr source unreadable (some x) = .error (t.fault source .invalidNumber) :=
  if_neg (ne_true_of_eq_false h)

/-- With a sign in front of a number, a node comes to that number with the sign exactly if another
comes to it without. -/
lemma numberOr_map_withSign_eq_ok_iff {t' : Tree} {unreadable unreadable' : FaultKind}
    {x? : Option Binary64} {x : Binary64} :
    t.numberOr source unreadable (x?.map (Binary64.withSign sign)) =
        .ok (.number (x.withSign sign)) ↔
      t'.numberOr source' unreadable' x? = .ok (.number x) := by
  cases x? with
  | none => simp [numberOr]
  | some y => cases hy : y.isFinite <;> simp [numberOr, hy]

/-- A literal comes to the number of its text. -/
lemma literal_eq_numberOr :
    t.literal source = t.numberOr source .invalidNumber (Binary64.ofString? (t.text source)) := by
  rw [Tree.literal, Binary64.finiteOfString?]
  cases Binary64.ofString? (t.text source) with
  | none => rfl
  | some x => cases hx : x.isFinite <;> simp [numberOr, Option.filter, hx]

/-- A signed literal is read from the text of the whole, once its node is entered. -/
lemma SignsLiteral.expression_eq (h : t.SignsLiteral source sign literal) (budget : Nat) :
    t.expression source defined (budget + 1) =
      t.numberOr source .signedOperand (Binary64.ofString? (t.text source)) := by
  obtain ⟨operator, others, hchildren, hoperator⟩ := h.children
  have htext : operator.text source = "+" ∨ operator.text source = "-" := by
    rcases h.sign_eq with rfl | rfl
    · exact Or.inl (String.toList_injective hoperator)
    · exact Or.inr (String.toList_injective hoperator)
  have hsign : ¬((operator.text source ≠ "+" ∧ operator.text source ≠ "-") ∨
      literal.kind = .unaryOperator) := by
    rcases h.literal_kind with hkind | hkind <;> rw [hkind] <;> tauto
  have hliteral : ¬(literal.kind ≠ .integer ∧ literal.kind ≠ .float) := by
    have := h.literal_kind
    tauto
  rw [expression_signed h.kind_eq, hchildren, entered_cons]
  dsimp only
  rw [signedNumber, if_neg hsign, if_neg hliteral]
  cases Binary64.ofString? (t.text source) <;> rfl

/-- The sign is read together with the literal that stands right behind it. -/
lemma SignsLiteral.ofString?_eq (h : t.SignsLiteral source sign literal)
    (htext : (t.text source).toList = sign :: (literal.text source).toList) :
    Binary64.ofString? (t.text source) =
      (Binary64.ofString? (literal.text source)).map (Binary64.withSign sign) := by
  obtain ⟨c, cs, hnumeral, hc⟩ := h.numeral
  rw [Binary64.ofString?, Binary64.ofString?, htext, hnumeral]
  exact Binary64.ofChars?_cons_sign h.sign_eq (Binary64.splitSign_of_numeral hc)

/-- The decimal that the text of the literal is, read as a number. -/
lemma SignsLiteral.ofString?_literal (h : t.SignsLiteral source sign literal) {d : Decimal}
    (hd : Decimal.ofChars? (literal.text source).toList = some d) :
    Binary64.ofString? (literal.text source) = some (Binary64.ofDecimal false d) := by
  obtain ⟨c, cs, hnumeral, hc⟩ := h.numeral
  rw [hnumeral] at hd
  rw [Binary64.ofString?, hnumeral]
  exact Binary64.ofChars?_of_decimal (Binary64.splitSign_of_numeral hc) hd

end Tree

namespace Walk

open Abacus.Tree

variable {w : Walker} {sign : Char} {literal : Tree}

/-- What the walk of a signed literal comes to, with a level left to enter it. -/
lemma expression_of_signsLiteral
    (h : w.cursor.focus.SignsLiteral w.cursor.source sign literal)
    (hlevel : w.cursor.depth < w.cursor.limit) :
    (expression w).1 = w.cursor.focus.numberOr w.cursor.source .signedOperand
      (Binary64.ofString? w.cursor.text) := by
  obtain ⟨budget, hbudget⟩ : ∃ budget, w.cursor.limit - w.cursor.depth = budget + 1 :=
    ⟨w.cursor.limit - w.cursor.depth - 1, by omega⟩
  rw [expression_apply, hbudget, h.expression_eq]
  rfl

/-- What the walk of a literal comes to, with any number of levels left. -/
lemma expression_of_literal (h : w.cursor.kind = .integer ∨ w.cursor.kind = .float) :
    (expression w).1 = w.cursor.focus.numberOr w.cursor.source .invalidNumber
      (Binary64.ofString? w.cursor.text) := by
  rw [expression_apply, expression_literal h, literal_eq_numberOr]
  rfl

/-- **Signs agree with literals.** For the node of a sign in front of a literal, wherever a level is
left to enter it, and for the literal itself, at any place: where the text of the node is the sign
and right behind it that of the literal, the node comes to a number exactly if the literal does, and
the number is that of the literal with the sign in front of it. So a literal that is zero or too
small for any other number comes to a zero with that sign. Both are refused as no numbers where the
literal is a decimal that is too large, and if its text reads as no number at all, the literal is
refused so and the node as a sign in front of something else. And where a blank, the end of a line,
a backslash or a comment stands between the sign and the literal, the node is refused in that way
whatever the literal is.

**Proof sketch.** Once the node is entered, its outcome and that of the literal are decided in one
way by the number that their texts read as. With nothing in between, the text of the node reads as
the number of the literal with the sign in front of it (`Abacus.Binary64.ofChars?_cons_sign`), which
is finite exactly if that number is. With a gap in between there is a character that no number has,
so the text reads as no number. -/
theorem signs_agree_with_literals (w v : Walker) (sign : Char)
    (hnode : w.cursor.focus.SignsLiteral w.cursor.source sign v.cursor.focus)
    (hsource : v.cursor.source = w.cursor.source) (hlevel : w.cursor.depth < w.cursor.limit) :
    (w.cursor.text.toList = sign :: v.cursor.text.toList →
      (∀ x, (expression w).1 = .ok (.number (Binary64.withSign sign x)) ↔
        (expression v).1 = .ok (.number x)) ∧
      (∀ d, Decimal.ofChars? v.cursor.text.toList = some d → d.magnitude = 0 →
        (expression w).1 = .ok (.number (Binary64.withSign sign .zero))) ∧
      (∀ d, Decimal.ofChars? v.cursor.text.toList = some d → d.magnitude = Binary64.infinity →
        (expression w).1 = .error (w.cursor.fault .invalidNumber) ∧
        (expression v).1 = .error (v.cursor.fault .invalidNumber)) ∧
      (Binary64.ofString? v.cursor.text = none →
        (expression w).1 = .error (w.cursor.fault .signedOperand) ∧
        (expression v).1 = .error (v.cursor.fault .invalidNumber))) ∧
    ∀ gap : List Char, (∃ c ∈ gap, c ∈ [' ', '\t', '\n', '\\', '#']) →
      w.cursor.text.toList = sign :: (gap ++ v.cursor.text.toList) →
      (expression w).1 = .error (w.cursor.fault .signedOperand) := by
  have hw := expression_of_signsLiteral hnode hlevel
  have hv := expression_of_literal (w := v) hnode.literal_kind
  have htext : v.cursor.text = v.cursor.focus.text w.cursor.source := by
    rw [← hsource]
    rfl
  refine ⟨fun hadjacent => ?_, fun gap hgap hapart => ?_⟩
  · have hread : Binary64.ofString? w.cursor.text =
        (Binary64.ofString? v.cursor.text).map (Binary64.withSign sign) := by
      rw [htext] at hadjacent ⊢
      exact hnode.ofString?_eq hadjacent
    have hdecimal : ∀ d, Decimal.ofChars? v.cursor.text.toList = some d →
        Binary64.ofString? v.cursor.text = some (Binary64.ofDecimal false d) := by
      rw [htext]
      exact fun d => hnode.ofString?_literal
    rw [hw, hv, hread]
    refine ⟨fun x => numberOr_map_withSign_eq_ok_iff, fun d hd hzero => ?_, fun d hd hlarge => ?_,
      fun hnone => ?_⟩
    · have hfinite : (Binary64.zero.withSign sign).isFinite = true := by
        rw [Binary64.isFinite_withSign]
        decide
      rw [hdecimal d hd, Binary64.ofDecimal_of_magnitude_eq_zero hzero, Option.map_some,
        numberOr_of_isFinite hfinite]
    · have hinfinite := Binary64.isFinite_ofDecimal_of_magnitude_eq_infinity hlarge
      have hinfinite' : ((Binary64.ofDecimal false d).withSign sign).isFinite = false := by
        rw [Binary64.isFinite_withSign, hinfinite]
      rw [hdecimal d hd, Option.map_some, numberOr_of_not_isFinite hinfinite',
        numberOr_of_not_isFinite hinfinite]
      exact ⟨rfl, rfl⟩
    · rw [hnone]
      exact ⟨rfl, rfl⟩
  · obtain ⟨c, hc, hblank⟩ := hgap
    have hmem : c ∈ w.cursor.text.toList := by
      rw [hapart]
      exact List.mem_cons_of_mem _ (List.mem_append_left _ hc)
    have hnone : Binary64.ofString? w.cursor.text = none :=
      Binary64.ofChars?_eq_none_of_mem_gap hblank hmem
    rw [hw, hnone]
    rfl

/-- In `-1e-400` the number is too small and becomes a zero with its sign bit set, in `+1_0` the
underscore makes the literal no number, and in `-  1` there are blanks behind the minus. The node is
the whole text each time, and its literal is the part behind the sign and the blanks. -/
theorem signs_agree_with_three_literals :
    let literal (start stop : Nat) : Tree := .leaf "float" ⟨start, stop⟩
    let node (sign : String) (start stop : Nat) : Tree :=
      .node (.plain "unary_operator" ⟨0, stop⟩) [.leaf sign ⟨0, 1⟩, literal start stop]
    let w (tree : Tree) (source : String) : Walker := ⟨Cursor.start tree source 1, .empty⟩
    (expression (w (node "-" 1 7) "-1e-400")).1 = .ok (.number Binary64.zero.neg) ∧
      (expression (w (literal 1 7) "-1e-400")).1 = .ok (.number Binary64.zero) ∧
      (expression (w (node "+" 1 4) "+1_0")).1 =
        .error (.refused .signedOperand ⟨0, 4⟩ "+1_0") ∧
      (expression (w (literal 1 4) "+1_0")).1 = .error (.refused .invalidNumber ⟨1, 4⟩ "1_0") ∧
      (expression (w (node "-" 3 4) "-  1")).1 =
        .error (.refused .signedOperand ⟨0, 4⟩ "-  1") := by
  intro literal node w
  have hsmall : (node "-" 1 7).SignsLiteral "-1e-400".toList '-' (literal 1 7) :=
    ⟨rfl, Or.inr rfl, ⟨_, _, rfl, by decide +kernel⟩, Or.inr rfl,
      '1', "e-400".toList, by decide +kernel, Or.inl (by decide)⟩
  have hnone : (node "+" 1 4).SignsLiteral "+1_0".toList '+' (literal 1 4) :=
    ⟨rfl, Or.inl rfl, ⟨_, _, rfl, by decide +kernel⟩, Or.inr rfl,
      '1', "_0".toList, by decide +kernel, Or.inl (by decide)⟩
  have happart : (node "-" 3 4).SignsLiteral "-  1".toList '-' (literal 3 4) :=
    ⟨rfl, Or.inr rfl, ⟨_, _, rfl, by decide +kernel⟩, Or.inr rfl,
      '1', [], by decide +kernel, Or.inl (by decide)⟩
  obtain ⟨hvalue, -⟩ := (signs_agree_with_literals (w (node "-" 1 7) "-1e-400")
    (w (literal 1 7) "-1e-400") '-' hsmall rfl (by decide)).1 (by decide +kernel)
  obtain ⟨-, -, -, hrefused⟩ := (signs_agree_with_literals (w (node "+" 1 4) "+1_0")
    (w (literal 1 4) "+1_0") '+' hnone rfl (by decide)).1 (by decide +kernel)
  have hgap := (signs_agree_with_literals (w (node "-" 3 4) "-  1")
    (w (literal 3 4) "-  1") '-' happart rfl (by decide)).2 [' ', ' '] ⟨' ', by decide, by decide⟩
    (by decide +kernel)
  have hzero : (expression (w (literal 1 7) "-1e-400")).1 = .ok (.number Binary64.zero) := by
    decide +kernel
  obtain ⟨hnode, hliteral⟩ := hrefused (by decide +kernel)
  exact ⟨(hvalue .zero).2 hzero, hzero, hnode, hliteral, hgap⟩

end Walk

end Abacus
