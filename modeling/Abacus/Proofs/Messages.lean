import Abacus.Fault
import Mathlib.Data.List.TakeWhile
import Mathlib.Tactic.Lemma

set_option autoImplicit false

/-!
# Messages tell faults apart

A message puts the words for a reason, two positions and a piece of the source one after another,
without quotation marks. The source may have digits, blanks and colons of its own there, or words
that look like another message. Nothing is lost all the same: a message can be taken apart from the
left. The words for one reason never start those for another, and a position ends at the first
character that is no digit, so each part tells where it ends before anything of the source is read.

## Main definitions

* `Abacus.IsSelfDelimiting` — written forms that can be told from what stands behind them.

## Main results

* `Abacus.FaultKind.isSelfDelimiting_message`, `Abacus.Span.isSelfDelimiting_render` — the words for
  a reason, and a span with a mark behind it, tell where they end.
* `Abacus.Fault.refused_message_inj`, `Abacus.Fault.undefinedName_message_inj` — the two forms of a
  message.
* `Abacus.Fault.message_tells_faults_apart` — what two faults with one message have in common.
-/

namespace Abacus

/-! ## Written forms that tell where they end -/

section SelfDelimiting

variable {α β : Type} {written : α → String} {written' : β → String}

/-- Written forms that tell where they end: whatever stands behind such a form, the form and what
stands behind it can be told from the whole. -/
def IsSelfDelimiting (written : α → String) : Prop :=
  ∀ a b rest rest', written a ++ rest = written b ++ rest' → a = b ∧ rest = rest'

/-- Forms tell where they end if none of them starts another one: of two forms at the front of one
text, one starts the other. -/
lemma isSelfDelimiting_of_prefix_free
    (h : ∀ a b, (written a).toList <+: (written b).toList → a = b) : IsSelfDelimiting written := by
  intro a b rest rest' heq
  have hchars := congrArg String.toList heq
  rw [String.toList_append, String.toList_append] at hchars
  have hsame : a = b := by
    rcases List.append_eq_append_iff.1 hchars with ⟨more, hb, -⟩ | ⟨more, ha, -⟩
    · exact h a b ⟨more, hb.symm⟩
    · exact (h b a ⟨more, ha.symm⟩).symm
  subst hsame
  exact ⟨rfl, (String.append_right_inj _).1 heq⟩

/-- A fixed text behind a form that tells where it ends is passed over. -/
lemma IsSelfDelimiting.append (h : IsSelfDelimiting written) (mark : String) :
    IsSelfDelimiting fun a => written a ++ mark := by
  intro a b rest rest' heq
  simp only [String.append_assoc] at heq
  obtain ⟨hsame, hrest⟩ := h _ _ _ _ heq
  exact ⟨hsame, (String.append_right_inj mark).1 hrest⟩

/-- Two forms that tell where they end do so one behind the other. -/
lemma IsSelfDelimiting.pair (h : IsSelfDelimiting written) (h' : IsSelfDelimiting written') :
    IsSelfDelimiting fun p : α × β => written p.1 ++ written' p.2 := by
  rintro ⟨a, a'⟩ ⟨b, b'⟩ rest rest' heq
  simp only [String.append_assoc] at heq
  obtain ⟨hfirst, hrest⟩ := h _ _ _ _ heq
  obtain ⟨hsecond, hrest⟩ := h' _ _ _ _ hrest
  exact ⟨Prod.ext hfirst hsecond, hrest⟩

/-- The digits of a number are all that stands before the first character that is no digit. -/
lemma takeWhile_isDigit_toDigits_append (n : Nat) {c : Char} (hc : ¬c.isDigit) (rest : List Char) :
    (Nat.toDigits 10 n ++ c :: rest).takeWhile Char.isDigit = Nat.toDigits 10 n := by
  have hdigits : ∀ d ∈ Nat.toDigits 10 n, d.isDigit := fun d hd =>
    Nat.isDigit_of_mem_toDigits (by decide) (by decide) hd
  rw [List.takeWhile_append_of_pos hdigits, List.takeWhile_cons_of_neg hc, List.append_nil]

/-- A number tells where it ends if the mark behind it does not start with a digit.

**Proof sketch.** The digits of a number are read off the front of the text up to the first
character that is none, which is the first one of the mark. So the two numbers have the same digits,
and are the same. -/
lemma isSelfDelimiting_repr {mark : String} {c : Char} {cs : List Char}
    (hmark : mark.toList = c :: cs) (hc : ¬c.isDigit) :
    IsSelfDelimiting fun n : Nat => n.repr ++ mark := by
  intro m n rest rest' heq
  have hchars := congrArg String.toList heq
  simp only [String.toList_append, Nat.toList_repr, hmark, List.append_assoc, List.cons_append]
    at hchars
  have hdigits : Nat.toDigits 10 m = Nat.toDigits 10 n := by
    rw [← takeWhile_isDigit_toDigits_append m hc (cs ++ rest.toList), hchars,
      takeWhile_isDigit_toDigits_append n hc]
  have hsame : m = n := by
    rw [← Nat.ofDigitChars_ten_toDigits (n := m), hdigits, Nat.ofDigitChars_ten_toDigits]
  subst hsame
  exact ⟨rfl, (String.append_right_inj _).1 heq⟩

end SelfDelimiting

/-! ## The parts of a message -/

/-- **The words for a reason tell where they end**: those for one reason never start those for
another. -/
lemma FaultKind.isSelfDelimiting_message : IsSelfDelimiting FaultKind.message := by
  have hfree : ∀ kind ∈ all, ∀ kind' ∈ all,
      kind.message.toList <+: kind'.message.toList → kind = kind' := by
    decide
  apply isSelfDelimiting_of_prefix_free
  intro kind kind'
  exact hfree kind (mem_all kind) kind' (mem_all kind')

/-- **A span tells where it ends** if the mark behind it does not start with a digit. -/
lemma Span.isSelfDelimiting_render {mark : String} {c : Char} {cs : List Char}
    (hmark : mark.toList = c :: cs) (hc : ¬c.isDigit) :
    IsSelfDelimiting fun s : Span => s.render ++ mark := by
  have hblank : " ".toList = [' '] := by decide
  have hboth := (isSelfDelimiting_repr hblank (by decide)).pair (isSelfDelimiting_repr hmark hc)
  rintro ⟨start, stop⟩ ⟨start', stop'⟩ rest rest' heq
  obtain ⟨hsame, hrest⟩ := hboth (start, stop) (start', stop') rest rest'
    (by simpa only [render, String.append_assoc] using heq)
  obtain ⟨rfl, rfl⟩ := Prod.mk.inj hsame
  exact ⟨rfl, hrest⟩

/-! ## The two forms of a message -/

namespace Fault

variable {kind kind' : FaultKind} {span span' : Span} {snippet snippet' name name' : String}

/-- The message of a fault with a kind. -/
lemma message_refused : (refused kind span snippet).message =
    "ParseError: " ++ kind.message ++ " at " ++ span.render ++ ": " ++ snippet := rfl

/-- The message of a fault over a name. -/
lemma message_undefinedName : (undefinedName name span).message =
    "ReferenceError: name " ++ name ++ " is not defined" := rfl

/-- **A refusal can be read off its message**, whatever it quotes. -/
lemma refused_message_inj
    (h : (refused kind span snippet).message = (refused kind' span' snippet').message) :
    kind = kind' ∧ span = span' ∧ snippet = snippet' := by
  have hcolon : ": ".toList = [':', ' '] := by decide
  have hhead := (FaultKind.isSelfDelimiting_message.append " at ").pair
    (Span.isSelfDelimiting_render hcolon (by decide))
  simp only [message_refused, String.append_assoc, String.append_right_inj] at h
  obtain ⟨hsame, hsnippet⟩ := hhead (kind, span) (kind', span') snippet snippet'
    (by simpa only [String.append_assoc] using h)
  obtain ⟨hkind, hspan⟩ := Prod.mk.inj hsame
  exact ⟨hkind, hspan, hsnippet⟩

/-- **The name can be read off the message** that it is not defined: what stands around it is
fixed. -/
lemma undefinedName_message_inj
    (h : (undefinedName name span).message = (undefinedName name' span').message) :
    name = name' := by
  rwa [message_undefinedName, message_undefinedName, String.append_left_inj,
    String.append_right_inj] at h

/-- The two forms of a message differ in their first character. -/
lemma message_undefinedName_ne_message_refused :
    (undefinedName name span).message ≠ (refused kind span' snippet).message := by
  intro h
  rw [message_undefinedName, message_refused] at h
  have hhead := congrArg (fun s : String => s.toList.head?) h
  simp at hhead

/-- Two faults have the same message only if they are the same up to the place of a name. -/
lemma eq_of_message_eq {fault fault' : Fault} (h : fault.message = fault'.message) :
    (∃ kind span snippet, fault = refused kind span snippet ∧ fault' = refused kind span snippet) ∨
      ∃ name span span', fault = undefinedName name span ∧ fault' = undefinedName name span' := by
  cases fault with
  | undefinedName name span =>
    cases fault' with
    | undefinedName name' span' =>
      obtain rfl := undefinedName_message_inj h
      exact Or.inr ⟨name, span, span', rfl, rfl⟩
    | refused kind' span' snippet' => exact absurd h message_undefinedName_ne_message_refused
  | refused kind span snippet =>
    cases fault' with
    | undefinedName name' span' => exact absurd h.symm message_undefinedName_ne_message_refused
    | refused kind' span' snippet' =>
      obtain ⟨rfl, rfl, rfl⟩ := refused_message_inj h
      exact Or.inl ⟨kind, span, snippet, rfl, rfl⟩

/-- **Messages tell faults apart.** Two faults have the same message exactly if both are refusals
with the same reason, the same place and the same quotation, or both are about the same undefined
name, perhaps at two places. A diagnostic has the place beside the message, so it is that of one
fault only.

**Proof sketch.** The two forms of a message differ in their first character. A message about a name
has fixed texts around the name. In a refusal the reason and the place, each with the mark behind
it, tell where they end, so they are read off from the left, and what is left is the quotation
(`Abacus.Fault.refused_message_inj`). -/
theorem message_tells_faults_apart (fault fault' : Fault) :
    (fault.message = fault'.message ↔
      (∃ kind span snippet,
        fault = refused kind span snippet ∧ fault' = refused kind span snippet) ∨
      ∃ name span span', fault = undefinedName name span ∧ fault' = undefinedName name span') ∧
    (Diagnostic.ofFault fault = Diagnostic.ofFault fault' ↔ fault = fault') := by
  refine ⟨⟨eq_of_message_eq, ?_⟩, fun h => ?_, fun h => by rw [h]⟩
  · rintro (⟨kind, span, snippet, rfl, rfl⟩ | ⟨name, span, span', rfl, rfl⟩)
    · rfl
    · rw [message_undefinedName, message_undefinedName]
  · obtain ⟨hmessage, hspan, -⟩ := Diagnostic.mk.inj h
    obtain ⟨kind, span, snippet, rfl, rfl⟩ | ⟨name, span, span', rfl, rfl⟩ :=
      eq_of_message_eq hmessage
    · rfl
    · obtain rfl : span = span' := hspan
      rfl

end Fault

end Abacus
