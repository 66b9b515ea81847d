import Abacus.Proofs.Layout
import Abacus.Proofs.Lexing

set_option autoImplicit false

/-!
# The tokens of a printed program

Each piece of the text of a program is a token, with its place. The tokenizer finds these tokens and
no others in the text, whatever the brackets that are open where it starts.

## Main definitions

* `Abacus.Expression.tokens`, `Abacus.Statement.tokens`, `Abacus.Program.tokens` — the tokens of a
  text.

## Main results

* `Abacus.Expression.tokensFrom_chars` — the tokenizer finds the tokens of an expression.
* `Abacus.Program.tokens?_chars` — the tokenizer finds the tokens of a program.
-/

namespace Abacus

open Source

/-! ## Tokens -/

/-- The token of an operator or a mark. -/
def Source.Token.mark (c : Char) (pos : Nat) : Token := .over .symbol [c] pos

/-- The token of a name. -/
def Source.Token.name (name : String) (pos : Nat) : Token := .over .identifier name.toList pos

/-- The tokens of a number whose text starts at a position. -/
def Binary64.tokens (pos : Nat) (x : Binary64) : List Token :=
  let literal := fun pos => Token.over (numeralKind x.shortest) x.shortest.chars pos
  if x.negative then [.mark '-' pos, literal (pos + 1)] else [literal pos]

/-- The tokens of an expression whose text starts at a position. -/
def Expression.tokens (pos : Nat) : Expression → List Token
  | number x => x.tokens pos
  | identifier name => [.name name pos]
  | unaryCall f a =>
    let first := pos + nameSize f.name + 1
    .name f.name pos :: .mark '(' (pos + nameSize f.name) ::
      (a.tokens first ++ [.mark ')' (first + a.size)])
  | binaryCall f a b =>
    let first := pos + nameSize f.name + 1
    let comma := first + a.size
    .name f.name pos :: .mark '(' (pos + nameSize f.name) ::
      (a.tokens first ++ .mark ',' comma ::
        (b.tokens (comma + 2) ++ [.mark ')' (comma + 2 + b.size)]))
  | binary op l r =>
    let sign := pos + l.size + 1
    l.tokens pos ++ .over .symbol op.symbol.toList sign :: r.tokens (sign + 2)

/-- The tokens of a statement whose text starts at a position. -/
def Statement.tokens (pos : Nat) : Statement → List Token
  | define name value =>
    let sign := pos + nameSize name + 1
    .name name pos :: .mark '=' sign :: value.tokens (sign + 2)
  | expression expr => expr.tokens pos

/-- The tokens of a program whose text starts at a position: a newline is one. -/
def Program.tokens (pos : Nat) : Program → List Token
  | [] => []
  | [s] => s.tokens pos
  | s :: t :: p =>
    s.tokens pos ++ .over .newline ['\n'] (pos + s.size) :: tokens (pos + s.size + 1) (t :: p)

/-! ## Tokenizing -/

section Tokenizing

variable {opened pos : Nat} {t : List Char}

/-- A name at the front is cut off. -/
lemma tokensFrom_name {name : String} (hname : IsName name) (ht : Separated t) :
    tokensFrom 0 opened pos (name.toList ++ t) =
      (tokensFrom 0 opened (pos + nameSize name) t).map (Token.name name pos :: ·) := by
  have hne : name.toList ≠ [] := by
    obtain ⟨c, cs, hcs, -⟩ := hname
    simp [hcs]
  exact tokensFrom_token hne (lexeme?_name hname ht)

/-- An operator at the front is cut off, with the blank behind it. -/
lemma tokensFrom_operator (op : BinaryOperator) :
    tokensFrom 0 opened pos (op.symbol.toList ++ ' ' :: t) =
      (tokensFrom 0 opened (pos + 2) t).map (Token.over .symbol op.symbol.toList pos :: ·) := by
  have hopened : openAfterToken opened .symbol (String.ofList op.symbol.toList) = opened := by
    cases op <;> rfl
  rw [tokensFrom_token (by cases op <;> decide) (by rw [lexeme?_operator]; cases op <;> rfl),
    hopened, op.byteSize_symbol, tokensFrom_blank]

/-- A mark of one character is cut off. -/
lemma tokensFrom_mark {c : Char} (h : lexeme? (c :: t) = some (.token .symbol, 1)) :
    tokensFrom 0 opened pos (c :: t) =
      (tokensFrom 0 (openAfter opened (String.ofList [c])) (pos + Text.byteSize [c]) t).map
        (Token.mark c pos :: ·) :=
  tokensFrom_token (List.cons_ne_nil c []) h

/-- An opening bracket opens one more. -/
lemma tokensFrom_open :
    tokensFrom 0 opened pos ('(' :: t) =
      (tokensFrom 0 (opened + 1) (pos + 1) t).map (Token.mark '(' pos :: ·) :=
  tokensFrom_mark lexeme?_open

/-- A closing bracket closes the last one. -/
lemma tokensFrom_close :
    tokensFrom 0 (opened + 1) pos (')' :: t) =
      (tokensFrom 0 opened (pos + 1) t).map (Token.mark ')' pos :: ·) :=
  tokensFrom_mark lexeme?_close

/-- A comma is cut off, with the blank behind it. -/
lemma tokensFrom_comma :
    tokensFrom 0 opened pos (',' :: ' ' :: t) =
      (tokensFrom 0 opened (pos + 2) t).map (Token.mark ',' pos :: ·) := by
  have h : tokensFrom 0 opened pos (',' :: ' ' :: t) = _ := tokensFrom_mark lexeme?_comma
  rw [h, tokensFrom_blank]
  rfl

/-- An equals sign is cut off, with the blank behind it. -/
lemma tokensFrom_equals :
    tokensFrom 0 opened pos ('=' :: ' ' :: t) =
      (tokensFrom 0 opened (pos + 2) t).map (Token.mark '=' pos :: ·) := by
  have h : tokensFrom 0 opened pos ('=' :: ' ' :: t) = _ := tokensFrom_mark lexeme?_equals
  rw [h, tokensFrom_blank]
  rfl

/-- A numeral is cut off. -/
lemma tokensFrom_numeral (p : Positional) (ht : Separated t) :
    tokensFrom 0 opened pos (p.chars ++ t) =
      (tokensFrom 0 opened (pos + Text.byteSize p.chars) t).map
        (Token.over (numeralKind p) p.chars pos :: ·) := by
  have hne : p.chars ≠ [] := by
    obtain ⟨d, cs, hchars, _⟩ := p.chars_eq_cons
    simp [hchars]
  have hkind : numeralKind p ≠ .symbol := by
    rw [numeralKind]
    split_ifs <;> simp
  rw [tokensFrom_token hne (lexeme?_numeral p ht), openAfterToken, if_neg hkind]

/-- A minus sign and a numeral, or a numeral alone. -/
lemma tokensFrom_number {x : Binary64} (hfinite : x.isFinite) (ht : Separated t) :
    tokensFrom 0 opened pos (x.chars ++ t) =
      (tokensFrom 0 opened (pos + Text.byteSize x.chars) t).map (x.tokens pos ++ ·) := by
  rw [Binary64.chars_of_isFinite hfinite, Binary64.tokens]
  cases x.negative with
  | false => exact tokensFrom_numeral x.shortest ht
  | true =>
    obtain ⟨d, cs, hchars, hdigit⟩ := x.shortest.chars_eq_cons
    have hminus : tokensFrom 0 opened pos ('-' :: (x.shortest.chars ++ t)) =
        (tokensFrom 0 opened (pos + 1) (x.shortest.chars ++ t)).map (Token.mark '-' pos :: ·) := by
      rw [hchars]
      exact tokensFrom_mark (lexeme?_minus hdigit)
    have hsize : Text.byteSize ('-' :: x.shortest.chars) = 1 + Text.byteSize x.shortest.chars := rfl
    simp only [if_true, List.cons_append, List.nil_append]
    rw [hminus, tokensFrom_numeral x.shortest ht, Option.map_map, hsize, ← Nat.add_assoc]
    rfl

end Tokenizing

/-- The name of a function of one argument is a name. -/
lemma isName_unaryBuiltin (f : UnaryBuiltin) : IsName f.name := by
  cases f
  · exact ⟨'p', "rint".toList, rfl, by decide, List.all_eq_true.1 (by decide), by decide⟩
  · exact ⟨'a', "bs".toList, rfl, by decide, List.all_eq_true.1 (by decide), by decide⟩

/-- So is that of a function of two arguments. -/
lemma isName_binaryBuiltin (f : BinaryBuiltin) : IsName f.name := by
  cases f
  · exact ⟨'m', "ax".toList, rfl, by decide, List.all_eq_true.1 (by decide), by decide⟩
  · exact ⟨'m', "in".toList, rfl, by decide, List.all_eq_true.1 (by decide), by decide⟩
  · exact ⟨'p', "ow".toList, rfl, by decide, List.all_eq_true.1 (by decide), by decide⟩

/-- **The tokenizer finds the tokens of an expression**, and then those of what follows it. -/
lemma Expression.tokensFrom_chars {e : Expression} (h : e.IsCanonical IsName) {t : List Char}
    (ht : Separated t) (opened pos : Nat) :
    tokensFrom 0 opened pos (e.chars ++ t) =
      (tokensFrom 0 opened (pos + e.size) t).map (e.tokens pos ++ ·) := by
  induction e generalizing t opened pos with
  | number x => exact tokensFrom_number h ht
  | identifier name => exact tokensFrom_name h ht
  | unaryCall f a ih =>
    have htext : (unaryCall f a).chars ++ t = f.name.toList ++ '(' :: (a.chars ++ ')' :: t) := by
      simp [chars]
    rw [htext, tokensFrom_name (isName_unaryBuiltin f) (separated_cons (by decide)),
      tokensFrom_open, ih h (separated_cons (by decide)), tokensFrom_close, size_unaryCall]
    simp only [Option.map_map, Function.comp_def, tokens, List.append_assoc, List.cons_append,
      List.nil_append, Nat.add_assoc]
  | binaryCall f a b iha ihb =>
    have htext : (binaryCall f a b).chars ++ t =
        f.name.toList ++ '(' :: (a.chars ++ ',' :: ' ' :: (b.chars ++ ')' :: t)) := by
      simp [chars]
    rw [htext, tokensFrom_name (isName_binaryBuiltin f) (separated_cons (by decide)),
      tokensFrom_open, iha h.1 (separated_cons (by decide)), tokensFrom_comma,
      ihb h.2 (separated_cons (by decide)), tokensFrom_close, size_binaryCall]
    simp only [Option.map_map, Function.comp_def, tokens, List.append_assoc, List.cons_append,
      List.nil_append, Nat.add_assoc]
  | binary op l r ihl ihr =>
    obtain ⟨-, -, hl, hr⟩ := h
    have htext : (binary op l r).chars ++ t =
        l.chars ++ ' ' :: (op.symbol.toList ++ ' ' :: (r.chars ++ t)) := by
      simp [chars]
    rw [htext, ihl hl (separated_cons (by decide)), tokensFrom_blank, tokensFrom_operator,
      ihr hr ht, size_binary]
    simp only [Option.map_map, Function.comp_def, tokens, List.append_assoc, List.cons_append,
      Nat.add_assoc]

/-- The tokens of a statement are cut off where a separator follows it. -/
lemma Statement.tokensFrom_chars {s : Statement} (h : s.IsCanonical IsName) {t : List Char}
    (ht : Separated t) (pos : Nat) :
    tokensFrom 0 0 pos (s.chars ++ t) =
      (tokensFrom 0 0 (pos + s.size) t).map (s.tokens pos ++ ·) := by
  cases s with
  | define name value =>
    obtain ⟨hname, hvalue⟩ := h
    have htext : (define name value).chars ++ t =
        name.toList ++ ' ' :: ('=' :: ' ' :: (value.chars ++ t)) := by
      simp [chars]
    rw [htext, tokensFrom_name hname (separated_cons (by decide)), tokensFrom_blank,
      tokensFrom_equals, value.tokensFrom_chars hvalue ht, size_define]
    simp only [Option.map_map, Function.comp_def, tokens, List.cons_append, Nat.add_assoc]
  | expression expr => exact expr.tokensFrom_chars h ht 0 pos

/-- **The tokenizer finds the tokens of a program** in the text of the program. -/
theorem Program.tokens?_chars {p : Program} (h : ∀ s ∈ p, s.IsCanonical IsName) :
    tokens? p.chars = some (p.tokens 0) := by
  have hfrom : ∀ pos, tokensFrom 0 0 pos p.chars = some (p.tokens pos) := by
    fun_induction Program.chars p with
    | case1 => exact fun _ => rfl
    | case2 s =>
      intro pos
      have hs := s.tokensFrom_chars (h s (by simp)) separated_nil pos
      rw [List.append_nil] at hs
      rw [hs, tokens, tokensFrom, Option.map_some, List.append_nil]
    | case3 s t p ih =>
      intro pos
      obtain ⟨hs, hothers⟩ := List.forall_mem_cons.1 h
      rw [s.tokensFrom_chars hs (separated_cons (by decide)), tokensFrom_newline, ih hothers,
        tokens]
      rfl
  exact hfrom 0

end Abacus
