import Abacus.Proofs.Layout
import Abacus.Proofs.Lexing

set_option autoImplicit false

/-!
# The tokens of any text

What every token of a text keeps to: its text is the slice of the source at its place, and it has
the form that its kind says. A name is a name, a keyword and a symbol are listed ones, and a literal
starts with a digit or a point, so that no literal has a sign of its own.

## Main definitions

* `Abacus.Source.HasForm` — the texts of the tokens of one kind.
* `Abacus.Source.Token.IsOf` — a token of a source.

## Main results

* `Abacus.Source.isOf_of_mem_tokens?` — every token of a text is a token of it.
-/

namespace Abacus.Source

/-- The texts of the tokens of one kind. -/
def HasForm (text : String) : TokenKind → Prop
  | .identifier => IsName text
  | .keyword => text ∈ keywords
  | .integer | .float => ∃ c cs, text.toList = c :: cs ∧ (c.isDigit ∨ c = '.')
  | .symbol => text ∈ symbols
  | .string | .newline => True

/-- A token of a source: its text stands at its place and has the form of its kind. -/
structure Token.IsOf (source : List Char) (t : Token) : Prop where
  /-- The text stands in the source. -/
  text_eq : Text.slice t.span.start t.span.stop source = t.text.toList
  /-- The text has the form of the kind. -/
  form : HasForm t.text t.kind

/-! ## Lexemes -/

section Lexemes

variable {c : Char} {cs : List Char} {kind : TokenKind} {n : Nat}

/-- A literal starts with a digit or a point. -/
lemma isDigit_or_eq_point_of_numberLexeme? (h : numberLexeme? (c :: cs) = some (kind, n)) :
    c.isDigit ∨ c = '.' := by
  by_contra hnone
  obtain ⟨hdigit, hpoint⟩ := not_or.1 hnone
  rw [numberLexeme?_eq_none hdigit hpoint] at h
  simp at h

/-- A literal has at least one character. -/
lemma numberLexeme?_eq_some (h : numberLexeme? (c :: cs) = some (kind, n)) :
    0 < n ∧ (kind = .integer ∨ kind = .float) := by
  rw [numberLexeme?] at h
  split at h
  · next m hbased =>
    unfold basedLength? at hbased
    split at hbased
    · obtain ⟨isDigit, hletter, hm⟩ := Option.bind_eq_some_iff.1 hbased
      dsimp only at hm
      split_ifs at hm
      obtain rfl := Option.some.inj hm
      obtain ⟨rfl, rfl⟩ := Prod.mk.inj (Option.some.inj h)
      exact ⟨by omega, Or.inl rfl⟩
    · simp at hbased
  · dsimp only at h
    split_ifs at h
    · obtain ⟨rfl, rfl⟩ := Prod.mk.inj (Option.some.inj h)
      exact ⟨by omega, Or.inl rfl⟩
    · obtain ⟨rfl, rfl⟩ := Prod.mk.inj (Option.some.inj h)
      exact ⟨by omega, Or.inr rfl⟩

/-- An operator or a mark is the one that is listed. -/
lemma symbolLexeme?_eq_some {text : List Char} (h : symbolLexeme? text = some n) :
    String.ofList (text.take n) ∈ symbols := by
  rw [symbolLexeme?, Option.map_eq_some_iff] at h
  obtain ⟨s, hs, rfl⟩ := h
  have hprefix : s.toList <+: text :=
    List.isPrefixOf_iff_prefix.1 (by simpa using List.find?_some hs)
  have htake : text.take s.length = s.toList := by
    obtain ⟨rest, rfl⟩ := hprefix
    exact List.take_left' s.length_toList
  rw [htake, String.ofList_toList]
  exact List.mem_of_find?_eq_some hs

/-- A word is a keyword or a name. -/
lemma hasForm_wordKind (hstart : isIdentifierStart c) (hparts : ∀ d ∈ cs, isIdentifierPart d) :
    HasForm (String.ofList (c :: cs)) (wordKind (c :: cs)) := by
  rw [wordKind]
  split_ifs with hkeyword
  · exact hkeyword
  · exact ⟨c, cs, String.toList_ofList, hstart, hparts, hkeyword⟩

/-- **A lexeme that is a token** has the form of its kind. -/
lemma lexeme?_eq_token (h : lexeme? (c :: cs) = some (.token kind, n)) :
    HasForm (String.ofList ((c :: cs).take n)) kind := by
  rw [lexeme?] at h
  split_ifs at h with hstart hblank hnewline hreturn hnext hbackslash hcomment hquote
  · obtain ⟨hkind, rfl⟩ := Prod.mk.inj (Option.some.inj h)
    obtain rfl := Lexeme.token.inj hkind
    have hprefix := List.prefix_iff_eq_take.1 (List.takeWhile_prefix isIdentifierPart (l := cs))
    rw [List.length_cons, List.take_succ_cons, ← hprefix]
    exact hasForm_wordKind hstart (List.all_eq_true.1 List.all_takeWhile)
  · simp at h
  · simp at h
  · simp at h
  · simp at h
  · simp at h
  · obtain ⟨m, _, hm⟩ := Option.map_eq_some_iff.1 h
    obtain rfl := Lexeme.token.inj (Prod.mk.inj hm).1
    trivial
  · split at h
    · next kind' m hnumber =>
      obtain ⟨hkind, rfl⟩ := Prod.mk.inj (Option.some.inj h)
      obtain rfl := Lexeme.token.inj hkind
      obtain ⟨hpos, hliteral⟩ := numberLexeme?_eq_some hnumber
      have hfirst := isDigit_or_eq_point_of_numberLexeme? hnumber
      obtain ⟨m, rfl⟩ := Nat.exists_eq_add_of_lt hpos
      rcases hliteral with rfl | rfl
      · exact ⟨c, cs.take (0 + m), by rw [String.toList_ofList]; rfl, hfirst⟩
      · exact ⟨c, cs.take (0 + m), by rw [String.toList_ofList]; rfl, hfirst⟩
    · obtain ⟨m, hsymbol, hm⟩ := Option.map_eq_some_iff.1 h
      obtain ⟨hkind, rfl⟩ := Prod.mk.inj hm
      obtain rfl := Lexeme.token.inj hkind
      exact symbolLexeme?_eq_some hsymbol

end Lexemes

/-! ## Tokens -/

/-- A piece of the text at a place, with a form that fits it, is a token of the source. -/
lemma isOf_take {source before text : List Char} {pos n : Nat} {kind : TokenKind}
    (hsource : source = before ++ text) (hpos : Text.byteSize before = pos)
    (hform : HasForm (String.ofList (text.take n)) kind) :
    Token.IsOf source ⟨kind, String.ofList (text.take n),
      ⟨pos, pos + Text.byteSize (text.take n)⟩⟩ := by
  have hplace : Text.StandsAt source pos (text.take n) :=
    ⟨before, text.drop n, by rw [hsource, List.append_assoc, List.take_append_drop], hpos⟩
  exact ⟨by rw [hplace.slice_eq, String.toList_ofList], hform⟩

/-- Every token found from a place on is a token of the source. The induction is on the text that is
left; what is in front of it decides the places.

**Proof sketch.** The text that is left loses its first character at each step. A character that is
passed over moves to what is in front, and the place grows by its size; where a lexeme starts, its
token is the piece that stands at this place, with the form that its kind has
(`Abacus.Source.lexeme?_eq_token`). -/
lemma isOf_of_tokensFrom {source before text : List Char} {skip opened pos : Nat}
    {ts : List Token} (h : tokensFrom skip opened pos text = some ts)
    (hsource : source = before ++ text) (hpos : Text.byteSize before = pos) :
    ∀ t ∈ ts, t.IsOf source := by
  induction text generalizing before skip opened pos ts with
  | nil =>
    obtain rfl := Option.some.inj h
    simp
  | cons c cs ih =>
    have hnext : source = before ++ [c] ++ cs := by simp [hsource]
    have hplace : Text.byteSize (before ++ [c]) = pos + c.utf8Size := by simp [hpos]
    cases skip with
    | succ skip => exact ih h hnext hplace
    | zero =>
      rw [tokensFrom] at h
      obtain ⟨⟨lexeme, n⟩, hlexeme, h⟩ := Option.bind_eq_some_iff.1 h
      cases lexeme with
      | blank => exact ih h hnext hplace
      | newline =>
        obtain ⟨rest, hrest, h⟩ := Option.bind_eq_some_iff.1 h
        have hothers := ih hrest hnext hplace
        by_cases hopened : opened = 0
        · rw [if_pos hopened] at h
          obtain rfl := Option.some.inj h
          exact List.forall_mem_cons.2 ⟨isOf_take hsource hpos trivial, hothers⟩
        · rw [if_neg hopened] at h
          obtain rfl := Option.some.inj h
          exact hothers
      | token kind =>
        obtain ⟨rest, hrest, h⟩ := Option.bind_eq_some_iff.1 h
        obtain rfl := Option.some.inj h
        exact List.forall_mem_cons.2 ⟨isOf_take hsource hpos (lexeme?_eq_token hlexeme),
          ih hrest hnext hplace⟩

/-- **Every token of a text** is a token of it. -/
theorem isOf_of_mem_tokens? {source : List Char} {ts : List Token}
    (h : tokens? source = some ts) : ∀ t ∈ ts, t.IsOf source :=
  isOf_of_tokensFrom h (List.nil_append source).symm rfl

end Abacus.Source
