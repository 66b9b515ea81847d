import Abacus.Proofs.Canonical
import Abacus.Proofs.ReadBack
import Mathlib.Data.Bool.AllAny

set_option autoImplicit false

/-!
# Lexemes at the front of a text

What the tokenizer finds at the front of a text that the printer writes. A name, a numeral, an
operator or a mark is found as a whole, as soon as what follows it cannot belong to it; the printer
lets nothing but a blank, a bracket, a comma, a newline or the end of the text follow.

## Main definitions

* `Abacus.Source.Separated` — what follows a name or a numeral in a printed text.

## Main results

* `Abacus.Source.isAlpha_of_isIdentifierStart` — which plain characters start a name.
* `Abacus.Source.tokensFrom_token`, `Abacus.Source.tokensFrom_blank` and
  `Abacus.Source.tokensFrom_newline` — a lexeme at the front is cut off.
* `Abacus.Source.lexeme?_name`, `Abacus.Source.lexeme?_numeral` and so on — the lexemes that the
  printer writes.
-/

namespace Abacus.Source

/-! ## Plain characters -/

/-- The code points of the plain letters are those of letters. -/
lemma isAlpha_of_letter {c : Char}
    (h : (0x41 ≤ c.toNat ∧ c.toNat ≤ 0x5a) ∨ (0x61 ≤ c.toNat ∧ c.toNat ≤ 0x7a)) : c.isAlpha := by
  have hletters : ∀ n < 0x80, (0x41 ≤ n ∧ n ≤ 0x5a) ∨ (0x61 ≤ n ∧ n ≤ 0x7a) →
      (Char.ofNat n).isAlpha := by decide
  rw [← Char.ofNat_toNat c]
  exact hletters c.toNat (by omega) h

/-- Of the plain characters, only the letters and the low line start a name.

**Proof sketch.** Beside the letters and the low line, names start with characters of a table of
ranges. Of its ranges only two start below 0x80, which is checked range by range, and these are the
letters. -/
lemma isAlpha_of_isIdentifierStart {c : Char} (h : isIdentifierStart c) :
    0x80 ≤ c.toNat ∨ c.isAlpha ∨ c = '_' := by
  have hranges : ∀ r ∈ startRanges, 0x80 ≤ r.1 ∨ r = (0x41, 0x5a) ∨ r = (0x61, 0x7a) := by
    decide +kernel
  rw [isIdentifierStart, Bool.or_eq_true, Bool.or_eq_true, beq_iff_eq] at h
  rcases h with (halpha | hline) | hrange
  · exact Or.inr (Or.inl halpha)
  · exact Or.inr (Or.inr hline)
  · obtain ⟨r, hr, hmem⟩ := List.any_eq_true.1 hrange
    obtain ⟨hlow, hhigh⟩ := of_decide_eq_true hmem
    rcases hranges r hr with hplain | rfl | rfl
    · exact Or.inl (by omega)
    · exact Or.inr (Or.inl (isAlpha_of_letter (Or.inl ⟨hlow, hhigh⟩)))
    · exact Or.inr (Or.inl (isAlpha_of_letter (Or.inr ⟨hlow, hhigh⟩)))

/-- Of the plain characters, only these and the digits go on with a name. -/
lemma isDigit_or_isAlpha_of_isIdentifierPart {c : Char} (h : isIdentifierPart c) :
    c.isDigit ∨ 0x80 ≤ c.toNat ∨ c.isAlpha ∨ c = '_' := by
  have hranges : ∀ r ∈ continueRanges, 0x80 ≤ r.1 ∨ r = (0x30, 0x39) := by decide +kernel
  rw [isIdentifierPart, Bool.or_eq_true, Bool.or_eq_true] at h
  rcases h with (hdigit | hstart) | hrange
  · exact Or.inl hdigit
  · exact Or.inr (isAlpha_of_isIdentifierStart hstart)
  · obtain ⟨r, hr, hmem⟩ := List.any_eq_true.1 hrange
    obtain ⟨hlow, hhigh⟩ := of_decide_eq_true hmem
    rcases hranges r hr with hplain | rfl
    · exact Or.inr (Or.inl (by omega))
    · exact Or.inl (Char.isDigit_iff_toNat.2 ⟨hlow, hhigh⟩)

/-! ## Marks and digits -/

/-- The marks and the digits that the printer writes, the blank and the newline apart. -/
def marksAndDigits : List Char :=
  ['(', ')', ',', '=', '+', '-', '*', '0', '1', '2', '3', '4', '5', '6', '7', '8', '9']

/-- Every digit is among them. -/
lemma mem_marksAndDigits_of_isDigit {d : Char} (h : d.isDigit) : d ∈ marksAndDigits := by
  have hdigits : ∀ n ≤ 57, 48 ≤ n → Char.ofNat n ∈ marksAndDigits := by decide
  obtain ⟨hlow, hhigh⟩ := Char.isDigit_iff_toNat.1 h
  rw [← Char.ofNat_toNat d]
  exact hdigits d.toNat hhigh hlow

/-- A mark or a digit starts no name, no blank, no quotation: a numeral or an operator is looked
for. -/
lemma lexeme?_of_mem {c : Char} {t : List Char} (h : c ∈ marksAndDigits) :
    lexeme? (c :: t) =
      match numberLexeme? (c :: t) with
      | some (kind, n) => some (.token kind, n)
      | none => (symbolLexeme? (c :: t)).map fun n => (.token .symbol, n) := by
  have hnone : ∀ c ∈ marksAndDigits, ¬(0x80 ≤ c.toNat ∨ c.isAlpha ∨ c = '_') ∧
      ¬(c = ' ' ∨ c = '\t') ∧ c ≠ '\n' ∧ c ≠ '\r' ∧ c ≠ '\\' ∧ c ≠ '#' ∧
      ¬(c = '\x22' ∨ c = '\x27') :=
    List.all_iff_forall_prop.1 (by decide)
  obtain ⟨hplain, hblank, hnewline, hreturn, hbackslash, hcomment, hquote⟩ := hnone c h
  have hstart : ¬isIdentifierStart c := fun hstart => hplain (isAlpha_of_isIdentifierStart hstart)
  rw [lexeme?, if_neg hstart, if_neg hblank, if_neg hnewline, if_neg hreturn, if_neg hbackslash,
    if_neg hcomment]
  refine (if_neg hquote).trans ?_
  cases numberLexeme? (c :: t) <;> rfl

/-! ## Cutting a lexeme off -/

section Cutting

variable {opened pos : Nat} {t : List Char}

/-- The characters of a lexeme that is done with are passed over. -/
lemma tokensFrom_skip (s t : List Char) (opened pos : Nat) :
    tokensFrom s.length opened pos (s ++ t) = tokensFrom 0 opened (pos + Text.byteSize s) t := by
  induction s generalizing pos with
  | nil => rfl
  | cons c s ih =>
    rw [List.length_cons, List.cons_append, tokensFrom, ih, Text.byteSize_cons, Nat.add_assoc]

/-- How many brackets are open after a token of some form. -/
def openAfterToken (opened : Nat) (kind : TokenKind) (text : String) : Nat :=
  if kind = .symbol then openAfter opened text else opened

/-- The token of some form over a piece that stands at a position. -/
def Token.over (kind : TokenKind) (piece : List Char) (pos : Nat) : Token :=
  ⟨kind, String.ofList piece, ⟨pos, pos + Text.byteSize piece⟩⟩

/-- **A token at the front** is cut off, and the tokens of the rest follow. -/
lemma tokensFrom_token {kind : TokenKind} {piece : List Char} (hne : piece ≠ [])
    (h : lexeme? (piece ++ t) = some (.token kind, piece.length)) :
    tokensFrom 0 opened pos (piece ++ t) =
      (tokensFrom 0 (openAfterToken opened kind (String.ofList piece))
        (pos + Text.byteSize piece) t).map (Token.over kind piece pos :: ·) := by
  obtain ⟨c, s, rfl⟩ := List.exists_cons_of_ne_nil hne
  have htake : (c :: (s ++ t)).take (c :: s).length = c :: s := by
    rw [← List.cons_append, List.take_left]
  rw [List.cons_append] at h ⊢
  rw [tokensFrom, h]
  simp only [bind, pure, Option.bind_some, htake]
  rw [List.length_cons, Nat.add_sub_cancel, tokensFrom_skip, Text.byteSize_cons, Nat.add_assoc]
  exact (Option.map_eq_bind ..).symm

/-- A blank at the front is passed over. -/
lemma tokensFrom_blank (t : List Char) :
    tokensFrom 0 opened pos (' ' :: t) = tokensFrom 0 opened (pos + 1) t := by
  have h : lexeme? (' ' :: t) = some (.blank, 1) := by
    rw [lexeme?, if_neg (by decide +kernel)]
    rfl
  rw [tokensFrom, h]
  rfl

/-- The end of a line is a token where no bracket is open. -/
lemma tokensFrom_newline (t : List Char) :
    tokensFrom 0 0 pos ('\n' :: t) =
      (tokensFrom 0 0 (pos + 1) t).map (Token.over .newline ['\n'] pos :: ·) := by
  have h : lexeme? ('\n' :: t) = some (.newline, 1) := by
    rw [lexeme?, if_neg (by decide +kernel)]
    rfl
  rw [tokensFrom, h]
  exact (Option.map_eq_bind ..).symm

end Cutting

/-! ## What follows a lexeme -/

/-- The characters that may follow a name or a numeral in a printed text. -/
def separators : List Char := [' ', '(', ')', ',', '\n']

/-- A text that ends a name or a numeral in front of it. -/
def Separated (t : List Char) : Prop := ∀ c ∈ t.head?, c ∈ separators

/-- Nothing ends what stands in front of it. -/
lemma separated_nil : Separated [] := by
  intro c hc
  simp at hc

/-- A separator ends what stands in front of it. -/
lemma separated_cons {c : Char} {t : List Char} (h : c ∈ separators) : Separated (c :: t) := by
  intro d hd
  obtain rfl := Option.some.inj hd
  exact h

/-! ## Names -/

/-- **A name** is found as a whole.

**Proof sketch.** The first character starts a name, so the lexeme is a word. It goes on as far as
characters that belong to names do: all of the name, and then a separator, which belongs to none.
The word is no keyword. -/
lemma lexeme?_name {name : String} {t : List Char} (hname : IsName name) (ht : Separated t) :
    lexeme? (name.toList ++ t) = some (.token .identifier, name.toList.length) := by
  obtain ⟨c, cs, hcs, hstart, hparts, hkeyword⟩ := hname
  have hword : (cs ++ t).takeWhile isIdentifierPart = cs := by
    rw [List.takeWhile_append_of_pos hparts]
    cases t with
    | nil => simp
    | cons d t =>
      have hseparators : ∀ d ∈ separators, ¬(d.isDigit ∨ 0x80 ≤ d.toNat ∨ d.isAlpha ∨ d = '_') :=
        List.all_iff_forall_prop.1 (by decide)
      have hd : ¬isIdentifierPart d := fun hpart =>
        hseparators d (ht d rfl) (isDigit_or_isAlpha_of_isIdentifierPart hpart)
      rw [List.takeWhile_cons_of_neg hd, List.append_nil]
  have hkind : wordKind (c :: cs) = .identifier := by
    rw [wordKind, ← hcs, String.ofList_toList, if_neg hkeyword]
  rw [hcs, List.cons_append, lexeme?, if_pos hstart, hword]
  dsimp only
  rw [hkind]

/-! ## Numerals -/

section Numerals

variable {t : List Char}

/-- A digit in front of what is no low line counts one. -/
lemma digitsLength_cons {d : Char} (h : t.head? ≠ some '_') :
    digitsLength (d :: t) = if d.isDigit then 1 + digitsLength t else 0 := by
  rw [digitsLength.eq_def]
  split
  · next heq => simp at heq
  · next heq =>
    obtain ⟨rfl, rfl⟩ := List.cons.inj heq
    simp at h
  · next heq =>
    obtain ⟨rfl, rfl⟩ := List.cons.inj heq
    rfl

/-- Where no digit starts, there are none. -/
lemma digitsLength_of_not_isDigit (h : ∀ c ∈ t.head?, ¬c.isDigit) : digitsLength t = 0 := by
  rw [digitsLength.eq_def]
  split
  · rfl
  · next c _ => rw [if_neg (h c rfl)]
  · next c _ _ => rw [if_neg (h c rfl)]

/-- Digits in front of anything but a digit or a low line are counted. -/
lemma digitsLength_append {digits : List Char} (hdigits : ∀ d ∈ digits, d.isDigit)
    (ht : ∀ c ∈ t.head?, ¬c.isDigit ∧ c ≠ '_') :
    digitsLength (digits ++ t) = digits.length := by
  have hlow : t.head? ≠ some '_' := by
    intro h
    exact (ht '_' h).2 rfl
  induction digits with
  | nil => exact digitsLength_of_not_isDigit fun c hc => (ht c hc).1
  | cons d digits ih =>
    obtain ⟨hd, hdigits⟩ := List.forall_mem_cons.1 hdigits
    have hnext : (digits ++ t).head? ≠ some '_' := by
      cases digits with
      | nil => exact hlow
      | cons e digits =>
        intro h
        have he : e.isDigit := hdigits e List.mem_cons_self
        obtain rfl := Option.some.inj h
        exact absurd he (by decide)
    rw [List.cons_append, digitsLength_cons hnext, if_pos hd, ih hdigits, List.length_cons,
      Nat.add_comm]

/-- What a separator is not: a digit, a low line, a point, the letter of a base, of an exponent or
of a suffix. -/
lemma not_numeral_of_mem_separators {c : Char} (h : c ∈ separators) :
    ¬c.isDigit ∧ c ≠ '_' ∧ c ≠ '.' ∧ baseDigit? c = none ∧ c ≠ 'e' ∧ c ≠ 'E' ∧
      c ∉ ['l', 'L', 'j', 'J'] := by
  simp only [separators, List.mem_cons, List.not_mem_nil, or_false] at h
  rcases h with rfl | rfl | rfl | rfl | rfl <;> decide

/-- A digit is no letter of a base. -/
lemma baseDigit?_of_isDigit {c : Char} (h : c.isDigit) : baseDigit? c = none := by
  rw [baseDigit?, if_neg, if_neg, if_neg]
  all_goals
    rintro (rfl | rfl) <;> exact absurd h (by decide)

/-- A numeral has no base, if no letter follows its first digit. -/
lemma basedLength?_eq_none {d : Char} (h : ∀ c ∈ t.head?, baseDigit? c = none) :
    basedLength? (d :: t) = none := by
  unfold basedLength?
  split
  · next letter cs heq =>
    obtain ⟨_, rfl⟩ := List.cons.inj heq
    rw [h letter rfl]
    rfl
  · rfl

/-- A separator starts no exponent. -/
lemma exponentLength_of_separated (h : Separated t) : exponentLength t = 0 := by
  cases t with
  | nil => rfl
  | cons c t =>
    obtain ⟨-, -, -, -, he, hE, -⟩ := not_numeral_of_mem_separators (h c rfl)
    rw [exponentLength, if_neg (not_or.2 ⟨he, hE⟩)]

/-- A separator starts no suffix. -/
lemma suffixLength_of_separated (h : Separated t) : suffixLength ['l', 'L', 'j', 'J'] t = 0 := by
  cases t with
  | nil => rfl
  | cons c t =>
    obtain ⟨-, -, -, -, -, -, hletter⟩ := not_numeral_of_mem_separators (h c rfl)
    rw [suffixLength, if_neg hletter]

/-- The same, for a first character that is known. -/
lemma digitsLength_cons_of_not_isDigit {c : Char} (h : ¬c.isDigit) : digitsLength (c :: t) = 0 :=
  digitsLength_of_not_isDigit fun d hd => by
    obtain rfl := Option.some.inj hd
    exact h

/-- Without a point there is no fraction. -/
lemma fractionLength_cons_of_ne {c : Char} (h : c ≠ '.') (afterDigit : Bool) :
    fractionLength afterDigit (c :: t) = 0 := by
  rw [fractionLength]
  intro cs heq
  exact h (List.cons.inj heq).1

/-- A separator starts no fraction. -/
lemma fractionLength_of_separated (h : Separated t) (afterDigit : Bool) :
    fractionLength afterDigit t = 0 := by
  cases t with
  | nil => rfl
  | cons c t => exact fractionLength_cons_of_ne (not_numeral_of_mem_separators (h c rfl)).2.2.1 _

/-- The form of a written numeral. -/
def numeralKind (p : Positional) : TokenKind := if p.places = 0 then .integer else .float

/-- A written numeral has digits and a point, and nothing else. -/
lemma isDigit_or_eq_point_of_mem_chars {p : Positional} {c : Char} (h : c ∈ p.chars) :
    c.isDigit ∨ c = '.' := by
  rw [p.chars_eq] at h
  split_ifs at h
  · exact Or.inl (p.isDigit_of_mem_whole (by simpa using h))
  · rcases List.mem_append.1 h with h | h
    · exact Or.inl (p.isDigit_of_mem_whole h)
    · exact (List.mem_cons.1 h).elim Or.inr fun h => Or.inl (p.isDigit_of_mem_fraction h)

/-- A written numeral starts with its digits, and no letter of a base follows the first of them. -/
lemma basedLength?_chars (p : Positional) (ht : Separated t) :
    basedLength? (p.chars ++ t) = none := by
  obtain ⟨d, cs, hchars, _⟩ := p.chars_eq_cons
  rw [hchars, List.cons_append]
  refine basedLength?_eq_none fun c hc => ?_
  cases cs with
  | nil => exact (not_numeral_of_mem_separators (ht c hc)).2.2.2.1
  | cons e cs =>
    obtain rfl := Option.some.inj hc
    rcases isDigit_or_eq_point_of_mem_chars (p := p) (c := e) (by simp [hchars]) with h | rfl
    · exact baseDigit?_of_isDigit h
    · rfl

/-- **A written numeral** is found as a whole: without a point it is a whole number.

**Proof sketch.** A numeral that the printer writes has digits, and where it has places, a point and
digits again. The parts of a numeral are looked for from the left to the right: digits are found as
far as they go, and there is no base, no exponent and no suffix, since a separator starts none. -/
lemma numberLexeme?_chars (p : Positional) (ht : Separated t) :
    numberLexeme? (p.chars ++ t) = some (numeralKind p, p.chars.length) := by
  have hseparator : ∀ c ∈ t.head?, ¬c.isDigit ∧ c ≠ '_' := fun c hc =>
    ⟨(not_numeral_of_mem_separators (ht c hc)).1, (not_numeral_of_mem_separators (ht c hc)).2.1⟩
  have hwhole : p.whole.length ≠ 0 := fun h => p.whole_ne_nil (List.length_eq_zero_iff.1 h)
  have hdigits : ∀ d ∈ p.whole, d.isDigit := fun d => p.isDigit_of_mem_whole
  rw [numberLexeme?, basedLength?_chars p ht]
  dsimp only
  by_cases hplaces : p.places = 0
  · have hchars : p.chars = p.whole := by rw [p.chars_eq, if_pos hplaces, List.append_nil]
    rw [hchars, digitsLength_append hdigits hseparator, List.drop_left,
      fractionLength_of_separated ht, Nat.add_zero, if_neg hwhole, List.drop_left,
      exponentLength_of_separated ht, Nat.add_zero, if_pos rfl, List.drop_left,
      suffixLength_of_separated ht, numeralKind, if_pos hplaces]
    rfl
  · have hchars : p.chars = p.whole ++ '.' :: p.fraction := by rw [p.chars_eq, if_neg hplaces]
    have hpoint : digitsLength (p.whole ++ ('.' :: (p.fraction ++ t))) = p.whole.length :=
      digitsLength_append hdigits fun c hc => by
        obtain rfl := Option.some.inj hc
        decide
    have hfraction : digitsLength (p.fraction ++ t) = p.fraction.length :=
      digitsLength_append (fun d => p.isDigit_of_mem_fraction) hseparator
    have hlength : p.whole.length + (1 + p.fraction.length) = p.chars.length := by
      rw [hchars, List.length_append, List.length_cons, Nat.add_comm 1]
    have hdrop : (p.whole ++ ('.' :: (p.fraction ++ t))).drop p.chars.length = t := by
      rw [← List.cons_append, ← List.append_assoc, ← hchars, List.drop_left]
    have hassoc : p.chars ++ t = p.whole ++ ('.' :: (p.fraction ++ t)) := by
      rw [hchars, List.append_assoc, List.cons_append]
    have hne : p.chars.length ≠ 0 := by omega
    have hnotWhole : p.chars.length ≠ p.whole.length := by omega
    rw [hassoc, hpoint, List.drop_left]
    simp only [fractionLength, hfraction, hwhole, ne_eq, not_false_eq_true, decide_true,
      Bool.not_true, Bool.and_false, Bool.false_eq_true, if_false, hlength, hne, hdrop,
      exponentLength_of_separated ht, Nat.add_zero, suffixLength_of_separated ht, hnotWhole,
      numeralKind, if_neg hplaces]

/-- **A written numeral** is a lexeme of its own. -/
lemma lexeme?_numeral (p : Positional) (ht : Separated t) :
    lexeme? (p.chars ++ t) = some (.token (numeralKind p), p.chars.length) := by
  obtain ⟨d, cs, hchars, hdigit⟩ := p.chars_eq_cons
  have hnumber := numberLexeme?_chars p ht
  rw [hchars, List.cons_append] at hnumber ⊢
  rw [lexeme?_of_mem (mem_marksAndDigits_of_isDigit hdigit), hnumber]

end Numerals

/-! ## Operators and marks -/

section Marks

variable {t : List Char}

/-- What starts with neither a digit nor a point is no numeral. -/
lemma numberLexeme?_eq_none {c : Char} (hdigit : ¬c.isDigit) (hpoint : c ≠ '.') :
    numberLexeme? (c :: t) = none := by
  have hbased : basedLength? (c :: t) = none := by
    rw [basedLength?]
    rintro letter cs heq
    obtain ⟨rfl, _⟩ := List.cons.inj heq
    exact hdigit (by decide)
  rw [numberLexeme?, hbased]
  simp [digitsLength_cons_of_not_isDigit hdigit, fractionLength_cons_of_ne hpoint]

/-- An operator or a mark is a lexeme of its own. -/
lemma lexeme?_symbol {c : Char} {n : Nat} (hmark : c ∈ marksAndDigits) (hdigit : ¬c.isDigit)
    (h : symbolLexeme? (c :: t) = some n) : lexeme? (c :: t) = some (.token .symbol, n) := by
  have hpoint : c ≠ '.' := by
    rintro rfl
    exact absurd hmark (by decide)
  rw [lexeme?_of_mem hmark, numberLexeme?_eq_none hdigit hpoint, h]
  rfl

/-- A minus sign in front of a digit. -/
lemma lexeme?_minus {d : Char} (h : d.isDigit) :
    lexeme? ('-' :: d :: t) = some (.token .symbol, 1) := by
  have hne : ('=' == d) = false := by
    refine beq_eq_false_iff_ne.2 ?_
    rintro rfl
    exact absurd h (by decide)
  refine lexeme?_symbol (by decide) (by decide) ?_
  simp [symbolLexeme?, symbols, List.find?, List.isPrefixOf, hne]
  rfl

/-- An operator in front of a blank. -/
lemma lexeme?_operator (op : BinaryOperator) :
    lexeme? (op.symbol.toList ++ ' ' :: t) = some (.token .symbol, 1) := by
  cases op with
  | plus => exact lexeme?_symbol (by decide) (by decide) rfl
  | minus => exact lexeme?_symbol (by decide) (by decide) rfl
  | times => exact lexeme?_symbol (by decide) (by decide) rfl

/-- The equals sign in front of a blank. -/
lemma lexeme?_equals : lexeme? ('=' :: ' ' :: t) = some (.token .symbol, 1) :=
  lexeme?_symbol (by decide) (by decide) rfl

/-- The opening bracket. -/
lemma lexeme?_open : lexeme? ('(' :: t) = some (.token .symbol, 1) :=
  lexeme?_symbol (by decide) (by decide) rfl

/-- The closing bracket. -/
lemma lexeme?_close : lexeme? (')' :: t) = some (.token .symbol, 1) :=
  lexeme?_symbol (by decide) (by decide) rfl

/-- The comma. -/
lemma lexeme?_comma : lexeme? (',' :: t) = some (.token .symbol, 1) :=
  lexeme?_symbol (by decide) (by decide) rfl

end Marks

end Abacus.Source
