import Abacus.Span

set_option autoImplicit false

/-!
# Faults

Why a source text or its tree is not a program. A fault is either a name that is used before it is
defined, or a piece of the source that is refused for one of fifteen reasons. Each has a message of
one line, and some have a hint at what to write instead.

## Main definitions

* `Abacus.FaultKind` — the reasons for refusing a piece of source, with their names and texts.
* `Abacus.Fault` — a fault at a place of the source.
* `Abacus.Fault.message`, `Abacus.Fault.hint?` — what is said about it.
* `Abacus.Diagnostic` — a message, a place and perhaps a hint.
-/

namespace Abacus

/-- The reasons for refusing a piece of source. -/
inductive FaultKind where
  /-- The source does not fit the grammar. -/
  | brokenSource
  /-- There is no grammar to read the source with. -/
  | grammarUnavailable
  /-- The tree is not that of a whole source. -/
  | unsupportedProgram
  /-- A statement of another form than the two that programs have. -/
  | unsupportedStatement
  /-- A definition of something other than a plain name. -/
  | unsupportedTarget
  /-- An expression of a form that programs do not have. -/
  | unsupportedExpression
  /-- A literal that stands for no finite number. -/
  | invalidNumber
  /-- An operator in front of an operand that is no sign, or one of several signs. -/
  | unsupportedUnary
  /-- A sign in front of something that is not a bare literal. -/
  | signedOperand
  /-- A call with one argument of a function that is not one of one argument. -/
  | unknownUnaryBuiltin
  /-- A call with two arguments of a function that is not one of two arguments. -/
  | unknownBinaryBuiltin
  /-- A call with more than two arguments. -/
  | tooManyArguments
  /-- A call without arguments. -/
  | missingArguments
  /-- An operator that programs do not have. -/
  | unknownOperator
  /-- More levels of nesting than the limit allows. -/
  | nestingTooDeep
deriving DecidableEq, Repr

namespace FaultKind

/-- Every reason. -/
def all : List FaultKind :=
  [.brokenSource, .grammarUnavailable, .unsupportedProgram, .unsupportedStatement,
    .unsupportedTarget, .unsupportedExpression, .invalidNumber, .unsupportedUnary, .signedOperand,
    .unknownUnaryBuiltin, .unknownBinaryBuiltin, .tooManyArguments, .missingArguments,
    .unknownOperator, .nestingTooDeep]

/-- The name of a reason in stored faults. -/
def name : FaultKind → String
  | brokenSource => "Syntax"
  | grammarUnavailable => "GrammarUnavailable"
  | unsupportedProgram => "UnsupportedProgram"
  | unsupportedStatement => "UnsupportedStatement"
  | unsupportedTarget => "UnsupportedTarget"
  | unsupportedExpression => "UnsupportedExpression"
  | invalidNumber => "InvalidNumber"
  | unsupportedUnary => "UnsupportedUnary"
  | signedOperand => "UnaryOperation"
  | unknownUnaryBuiltin => "UnknownBuiltin1"
  | unknownBinaryBuiltin => "UnknownBuiltin2"
  | tooManyArguments => "TooManyArguments"
  | missingArguments => "MissingArguments"
  | unknownOperator => "UnknownBinaryOperator"
  | nestingTooDeep => "NestingTooDeep"

/-- The reason with a given name. -/
def ofName? (name : String) : Option FaultKind := all.find? fun kind => kind.name = name

/-- The words for a reason. -/
def message : FaultKind → String
  | brokenSource => "invalid syntax"
  | grammarUnavailable => "parser unavailable"
  | unsupportedProgram => "could not parse program"
  | unsupportedStatement => "could not parse stmt"
  | unsupportedTarget => "unsupported assignment target"
  | unsupportedExpression => "could not parse expr"
  | invalidNumber => "invalid number literal"
  | unsupportedUnary => "unsupported unary expression"
  | signedOperand => "unary operation failed"
  | unknownUnaryBuiltin => "unknown builtin of arity 1"
  | unknownBinaryBuiltin => "unknown builtin of arity 2"
  | tooManyArguments => "too many arguments"
  | missingArguments => "missing arguments"
  | unknownOperator => "unknown binary operator"
  | nestingTooDeep => "nesting too deep"

/-- What to write instead, for the reasons that have such advice. -/
def hint? : FaultKind → Option String
  | brokenSource => some "check for unbalanced parentheses or a dangling operator"
  | unsupportedUnary | signedOperand =>
    some "only `+` or `-` directly before a number is supported"
  | unknownUnaryBuiltin => some "one-argument builtins are `print` and `abs`"
  | unknownBinaryBuiltin => some "two-argument builtins are `max`, `min` and `pow`"
  | tooManyArguments | missingArguments => some "builtins take one or two arguments"
  | unknownOperator => some "supported operators are `+`, `-` and `*`"
  | _ => none

/-- The list of the reasons leaves none out. -/
theorem mem_all (kind : FaultKind) : kind ∈ all := by
  cases kind <;> decide

end FaultKind

/-- A fault at a place of the source. -/
inductive Fault where
  /-- A name is used that no earlier statement defines. -/
  | undefinedName (name : String) (span : Span)
  /-- A piece of source is refused; the snippet quotes it. -/
  | refused (kind : FaultKind) (span : Span) (snippet : String)
deriving DecidableEq, Repr

namespace Fault

/-- The place of a fault. -/
def span : Fault → Span
  | undefinedName _ span => span
  | refused _ span _ => span

/-- The reason for refusing a piece of source, if that is the fault. -/
def kind? : Fault → Option FaultKind
  | undefinedName _ _ => none
  | refused kind _ _ => some kind

/-- The message of a fault. -/
def message : Fault → String
  | undefinedName name _ => "ReferenceError: name " ++ name ++ " is not defined"
  | refused kind span snippet =>
    "ParseError: " ++ kind.message ++ " at " ++ span.render ++ ": " ++ snippet

/-- What to write instead. -/
def hint? : Fault → Option String
  | undefinedName name _ => some ("assign `" ++ name ++ "` before using it")
  | refused kind _ _ => kind.hint?

end Fault

/-- A message about a place of the source, perhaps with a hint. -/
structure Diagnostic where
  /-- What is wrong. -/
  message : String
  /-- Where it is wrong. -/
  span : Span
  /-- What to write instead. -/
  hint? : Option String
deriving DecidableEq, Repr

namespace Diagnostic

/-- A message without a hint. -/
def plain (message : String) (span : Span) : Diagnostic := ⟨message, span, none⟩

/-- The same message with a hint, in place of any that it had. -/
def withHint (d : Diagnostic) (hint : String) : Diagnostic := { d with hint? := some hint }

/-- What is said about a fault. -/
def ofFault (fault : Fault) : Diagnostic := ⟨fault.message, fault.span, fault.hint?⟩

end Diagnostic

end Abacus
