import Abacus.Source.Identifier
import Abacus.Tree

set_option autoImplicit false

/-!
# Tokens

A source text is cut into tokens from left to right, each as long as its form allows. Blanks, tabs,
comments and a backslash at the end of a line (or of the text) stand between tokens and mean
nothing. A newline is a token, except inside parentheses and brackets, where it is blank.

## Main definitions

* `Abacus.Source.Token` — a token with its text and its place.
* `Abacus.Source.numberLexeme?` — the literal at the front of a text.
* `Abacus.Source.lexeme?` — the token or blank at the front of a text.
* `Abacus.Source.tokens?` — all tokens of a text.

## Design

A lexeme is given by its number of characters. The pass over the text is a recursion on the text
that, after each lexeme found, skips the other characters of it.
-/

namespace Abacus.Source

/-- The forms of tokens. -/
inductive TokenKind where
  /-- A name. -/
  | identifier
  /-- A word that the grammar uses itself. -/
  | keyword
  /-- A literal without point and exponent. -/
  | integer
  /-- A literal with a point or an exponent. -/
  | float
  /-- A quoted text. -/
  | string
  /-- An operator or a mark. -/
  | symbol
  /-- The end of a line. -/
  | newline
deriving DecidableEq, Repr

/-- A token. -/
structure Token where
  /-- Its form. -/
  kind : TokenKind
  /-- Its text. -/
  text : String
  /-- Its place. -/
  span : Span
deriving DecidableEq, Repr

/-- What stands at the front of a text. -/
inductive Lexeme where
  /-- Nothing that matters. -/
  | blank
  /-- The end of a line. -/
  | newline
  /-- A token of some form. -/
  | token (kind : TokenKind)
deriving DecidableEq, Repr

/-- The words that the grammar uses itself, and so has for no names. A reader may take some of them
for names where the grammar has no use for them. -/
def keywords : List String :=
  ["False", "None", "True", "and", "as", "assert", "break", "class", "continue", "def", "del",
    "elif", "else", "except", "finally", "for", "from", "global", "if", "import", "in", "is",
    "lambda", "nonlocal", "not", "or", "pass", "raise", "return", "try", "while", "with", "yield",
    "await"]

/-- The operators and marks, the longer ones first. -/
def symbols : List String :=
  ["**=", "//=", "<<=", ">>=", "**", "//", "<<", ">>", "<=", ">=", "==", "!=", "+=", "-=", "*=",
    "/=", "%=", "@=", "&=", "|=", "^=", "(", ")", "[", "]", ",", ":", ";", ".", "+", "-", "*", "/",
    "%", "@", "&", "|", "^", "~", "<", ">", "="]

/-! ## Literals -/

/-- The length of the digits at the front of a text, where one low line may follow each digit. -/
def digitsLength : List Char → Nat
  | [] => 0
  | d :: '_' :: cs => if d.isDigit then 2 + digitsLength cs else 0
  | d :: cs => if d.isDigit then 1 + digitsLength cs else 0

/-- The length of the digits of some base at the front of a text, where one low line may stand
before each digit. -/
def basedDigitsLength (isDigit : Char → Bool) : List Char → Nat
  | [] => 0
  | '_' :: d :: cs => if isDigit d then 2 + basedDigitsLength isDigit cs else 0
  | d :: cs => if isDigit d then 1 + basedDigitsLength isDigit cs else 0

/-- The digits of the base that a letter after a zero announces. -/
def baseDigit? (c : Char) : Option (Char → Bool) :=
  if c = 'x' ∨ c = 'X' then
    some fun d => d.isDigit || ('a' ≤ d && d ≤ 'f') || ('A' ≤ d && d ≤ 'F')
  else if c = 'o' ∨ c = 'O' then some fun d => '0' ≤ d && d ≤ '7'
  else if c = 'b' ∨ c = 'B' then some fun d => d == '0' || d == '1'
  else none

/-- The length of a literal in another base than ten at the front of a text, its suffix apart. -/
def basedLength? : List Char → Option Nat
  | '0' :: letter :: cs => do
    let isDigit ← baseDigit? letter
    let n := basedDigitsLength isDigit cs
    if n = 0 then none else some (2 + n)
  | _ => none

/-- The length of an exponent at the front of a text; none without a digit. -/
def exponentLength : List Char → Nat
  | e :: cs =>
    if e = 'e' ∨ e = 'E' then
      let sign := if cs.head? = some '+' ∨ cs.head? = some '-' then 1 else 0
      let n := digitsLength (cs.drop sign)
      if n = 0 then 0 else 1 + sign + n
    else 0
  | [] => 0

/-- The length of a suffix letter at the front of a text. -/
def suffixLength (letters : List Char) (cs : List Char) : Nat :=
  match cs with
  | c :: _ => if c ∈ letters then 1 else 0
  | [] => 0

/-- The length of a point and the digits after it at the front of a text. A point alone counts only
after a digit. -/
def fractionLength (afterDigit : Bool) : List Char → Nat
  | '.' :: cs =>
    let n := digitsLength cs
    if n = 0 && !afterDigit then 0 else 1 + n
  | _ => 0

/-- The literal at the front of a text: its form and its length. -/
def numberLexeme? (cs : List Char) : Option (TokenKind × Nat) :=
  match basedLength? cs with
  | some n => some (.integer, n + suffixLength ['l', 'L'] (cs.drop n))
  | none =>
    let whole := digitsLength cs
    let fraction := fractionLength (whole ≠ 0) (cs.drop whole)
    let mantissa := whole + fraction
    if mantissa = 0 then none
    else
      let length := mantissa + exponentLength (cs.drop mantissa)
      let kind := if length = whole then TokenKind.integer else .float
      some (kind, length + suffixLength ['l', 'L', 'j', 'J'] (cs.drop length))

/-! ## Other lexemes -/

/-- The quoted text at the front of a text: its length with both quotes. It stands on one line and
holds no backslash. -/
def stringLexeme? : List Char → Option Nat
  | [] => none
  | quote :: cs =>
    let n := (cs.takeWhile fun c => c ≠ quote ∧ c ≠ '\n' ∧ c ≠ '\\').length
    if (cs.drop n).head? = some quote then some (n + 2) else none

/-- The operator or mark at the front of a text: its length. -/
def symbolLexeme? (cs : List Char) : Option Nat :=
  (symbols.find? fun s => s.toList.isPrefixOf cs).map String.length

/-- The length of a backslash with the end of line that it hides. -/
def continuationLength? : List Char → Option Nat
  | ['\\'] => some 1
  | '\\' :: '\n' :: _ => some 2
  | '\\' :: '\r' :: '\n' :: _ => some 3
  | _ => none

/-- The form of a word: some words are no names. -/
def wordKind (word : List Char) : TokenKind :=
  if String.ofList word ∈ keywords then .keyword else .identifier

/-- The lexeme at the front of a text and its length; `none` where no lexeme starts. -/
def lexeme? (cs : List Char) : Option (Lexeme × Nat) :=
  match cs with
  | [] => none
  | c :: rest =>
    if isIdentifierStart c then
      let word := c :: rest.takeWhile isIdentifierPart
      some (.token (wordKind word), word.length)
    else if c = ' ' ∨ c = '\t' then some (.blank, 1)
    else if c = '\n' then some (.newline, 1)
    else if c = '\r' then if rest.head? = some '\n' then some (.newline, 2) else none
    else if c = '\\' then (continuationLength? cs).map fun n => (.blank, n)
    else if c = '#' then some (.blank, 1 + (rest.takeWhile fun c => c ≠ '\n').length)
    else if c = '\x22' ∨ c = '\x27' then (stringLexeme? cs).map fun n => (.token .string, n)
    else match numberLexeme? cs with
      | some (kind, n) => some (.token kind, n)
      | none => (symbolLexeme? cs).map fun n => (.token .symbol, n)

/-! ## The tokens of a text -/

/-- How many brackets are open after a token. -/
def openAfter (opened : Nat) (text : String) : Nat :=
  if text = "(" ∨ text = "[" then opened + 1
  else if text = ")" ∨ text = "]" then opened - 1
  else opened

/-- The tokens of a text that starts at a byte position. The first `skip` characters belong to a
lexeme that is done with, and `opened` brackets are open. -/
def tokensFrom (skip opened position : Nat) : List Char → Option (List Token)
  | [] => some []
  | c :: cs =>
    match skip with
    | skip + 1 => tokensFrom skip opened (position + c.utf8Size) cs
    | 0 => do
      let (lexeme, n) ← lexeme? (c :: cs)
      let chars := (c :: cs).take n
      let text := String.ofList chars
      let span : Span := ⟨position, position + Text.byteSize chars⟩
      match lexeme with
      | .blank => tokensFrom (n - 1) opened (position + c.utf8Size) cs
      | .newline =>
        let rest ← tokensFrom (n - 1) opened (position + c.utf8Size) cs
        return if opened = 0 then ⟨.newline, text, span⟩ :: rest else rest
      | .token kind =>
        let opened := if kind = .symbol then openAfter opened text else opened
        let rest ← tokensFrom (n - 1) opened (position + c.utf8Size) cs
        return ⟨kind, text, span⟩ :: rest

/-- The tokens of a text; `none` where some part of it is no lexeme. -/
def tokens? (text : List Char) : Option (List Token) := tokensFrom 0 0 0 text

end Abacus.Source
