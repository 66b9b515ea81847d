import Abacus.Json.Fault
import Abacus.Proofs.JsonPrograms

set_option autoImplicit false

/-!
# Reading values exactly undoes writing them

What is written for a program with finite numbers, a fault, a diagnostic or a span reads back, and a
value without repeated keys is read as one of these exactly if it restates what is written for it. A
fault has no other key beside that of its form, and the hint of a diagnostic may be missing.

The tags of statements are texts, and so are those that stand for the form of a fault. The tag of an
expression inside a statement or another expression may be the position of its form instead: without
positions, the restatements would be too few.

## Main definitions

* `Abacus.Json.IsExactInverse` — a reader gives back what is written and reads nothing else.
* `Abacus.Diagnostic.fillHint` — a missing hint as an empty one.

## Main results

* `Abacus.Json.reading_inverts_writing` — programs, faults, diagnostics and spans.
-/

namespace Abacus

/-- A reader of values is the exact inverse of a writer: what is written for a `valid` value reads
back, and an `admitted` value `j` is read as `v` exactly if `v` is valid and `j` restates what is
written for `v`. -/
structure Json.IsExactInverse {α : Type} (valid : α → Prop) (admitted : Json → Prop)
    (restates : Json → Json → Prop) (write : α → Json) (read? : Json → Option α) : Prop where
  /-- What is written reads back. -/
  read?_write : ∀ v, valid v → read? (write v) = some v
  /-- What is read restates what is written, and the other way round. -/
  read?_eq_some_iff : ∀ j, admitted j → ∀ v, read? j = some v ↔ valid v ∧ restates j (write v)

/-! ## Spans -/

namespace Span

/-- Both positions are unsigned integers of 64 bits. -/
def FitsWords (s : Span) : Prop := s.start < Nat.pow 2 64 ∧ s.stop < Nat.pow 2 64

variable {s : Span} {j : Json}

/-- A span is read from its two members. -/
lemma ofJson?_eq_some_iff_members : ofJson? j = some s ↔
    (∃ w, j.member? "start" = some w ∧ w.word? = some s.start) ∧
      ∃ w, j.member? "end" = some w ∧ w.word? = some s.stop := by
  obtain ⟨start, stop⟩ := s
  simp [ofJson?, Option.bind_eq_some_iff]

/-- What is written for a span reads back. -/
lemma ofJson?_toJson (h : s.FitsWords) : ofJson? s.toJson = some s :=
  ofJson?_eq_some_iff_members.2 ⟨⟨_, rfl, Json.word?_eq_some_iff.2 ⟨rfl, h.1⟩⟩, _, rfl,
    Json.word?_eq_some_iff.2 ⟨rfl, h.2⟩⟩

/-- **A span is read from what restates it**, and from nothing else. -/
theorem ofJson?_eq_some_iff {positions : List String} {standing : Standing}
    (hj : j.hasDistinctKeys) :
    ofJson? j = some s ↔ s.FitsWords ∧ j.Restates positions standing s.toJson := by
  rw [ofJson?_eq_some_iff_members, toJson,
    Json.restates_untagged_iff hj (by simp) (List.cons_ne_nil _ _) (by simp)]
  simp only [Json.word?_eq_some_iff, FitsWords, List.forall_mem_cons, List.not_mem_nil,
    false_imp_iff, implies_true, and_true, Json.restates_ofNat_iff]
  constructor
  · rintro ⟨⟨v, hv, hstart, hv'⟩, w, hw, hstop, hw'⟩
    exact ⟨⟨hv', hw'⟩, ⟨v, hv, hstart⟩, w, hw, hstop⟩
  · rintro ⟨⟨hv', hw'⟩, ⟨v, hv, hstart⟩, w, hw, hstop⟩
    exact ⟨⟨v, hv, hstart, hv'⟩, w, hw, hstop, hw'⟩

/-- The span of a member is read from what restates it. -/
lemma exists_member_iff (positions : List String) {key : String} (hj : j.hasDistinctKeys) :
    (∃ w, j.member? key = some w ∧ ofJson? w = some s) ↔
      s.FitsWords ∧ ∃ w, j.member? key = some w ∧ w.Restates positions .part s.toJson :=
  Json.exists_member_iff_and fun _ hw => ofJson?_eq_some_iff (Json.hasDistinctKeys_member? hj hw)

end Span

/-! ## Faults -/

/-- The reason of a fault is read from its name. -/
lemma FaultKind.ofJson?_eq_some_iff {j : Json} {kind : FaultKind} (hj : j.isObject = false) :
    ofJson? j = some kind ↔ j = kind.toJson :=
  Json.choice?_bind_find?_eq_some_iff hj (by cases kind <;> rfl)

namespace Fault

/-- `w` is in the place of the name of a reason in `j`, read as a fault. -/
def NameIn (j w : Json) : Prop :=
  ∃ body, j = .object [("Parse", body)] ∧ body.member? "kind" = some w

/-- `j` has one key and restates `k`. -/
def Restates (j k : Json) : Prop := (∃ member, j = .object [member]) ∧ j.Restates [] .alone k

variable {j : Json}

/-- Restating an object with one member, by one with no other. -/
lemma restates_iff {key : String} {k : Json} (hj : j.hasDistinctKeys) (hkey : "tag" ≠ key) :
    Restates j (.object [(key, k)]) ↔
      ∃ body, j = .object [(key, body)] ∧ body.Restates [] .part k := by
  rw [Restates, Json.restates_untagged_iff hj (by simp) (List.cons_ne_nil _ _)
    (by simpa using hkey), List.forall_mem_singleton]
  constructor
  · rintro ⟨⟨⟨key', body⟩, rfl⟩, w, hw, hrestates⟩
    have hmem : (key, w) ∈ [(key', body)] := (Json.lookup_eq_some_iff_mem (by simp)).1 hw
    obtain ⟨rfl, rfl⟩ := Prod.mk.inj (List.mem_singleton.1 hmem)
    exact ⟨w, rfl, hrestates⟩
  · rintro ⟨body, rfl, hrestates⟩
    exact ⟨⟨_, rfl⟩, body, List.lookup_cons_self, hrestates⟩

/-- What is read from an object with the key of an undefined name. -/
lemma ofJson?_reference {body : Json} : ofJson? (.object [("Reference", body)]) =
    (body.text? "name").bind fun name =>
      ((body.member? "span").bind Span.ofJson?).map (undefinedName name) := by
  simp only [ofJson?, Option.map_eq_bind]
  rfl

/-- What is read from an object with the key of a refusal. -/
lemma ofJson?_parse {body : Json} : ofJson? (.object [("Parse", body)]) =
    ((body.member? "kind").bind FaultKind.ofJson?).bind fun kind =>
      ((body.member? "span").bind Span.ofJson?).bind fun span =>
        (body.text? "snippet").map (refused kind span) := by
  simp only [ofJson?, Option.map_eq_bind]
  rfl

/-- Only objects with one of the two keys are read. -/
lemma exists_body_of_ofJson? {fault : Fault} (h : ofJson? j = some fault) :
    ∃ body, j = .object [("Reference", body)] ∨ j = .object [("Parse", body)] := by
  unfold ofJson? at h
  split at h
  · next key body =>
    split at h
    · next hkey => exact ⟨body, .inl (by rw [hkey])⟩
    · split at h
      · next hkey => exact ⟨body, .inr (by rw [hkey])⟩
      · cases h
  · cases h

/-- An undefined name is read from the members of the object under its key. -/
lemma ofJson?_eq_undefinedName_iff {name : String} {span : Span} :
    ofJson? j = some (undefinedName name span) ↔
      ∃ body, j = .object [("Reference", body)] ∧
        (∃ w, body.member? "name" = some w ∧ w = .string name) ∧
        ∃ w, body.member? "span" = some w ∧ Span.ofJson? w = some span := by
  constructor
  · intro h
    obtain ⟨body, rfl | rfl⟩ := exists_body_of_ofJson? h
    · rw [ofJson?_reference] at h
      simpa [Json.text?, Option.bind_eq_some_iff, Json.string?_eq_some_iff] using h
    · rw [ofJson?_parse] at h
      simp [Option.bind_eq_some_iff] at h
  · rintro ⟨body, rfl, h⟩
    rw [ofJson?_reference]
    simpa [Json.text?, Option.bind_eq_some_iff, Json.string?_eq_some_iff] using h

/-- A refusal is read from the members of the object under its key. -/
lemma ofJson?_eq_refused_iff {kind : FaultKind} {span : Span} {snippet : String} :
    ofJson? j = some (refused kind span snippet) ↔
      ∃ body, j = .object [("Parse", body)] ∧
        (∃ w, body.member? "kind" = some w ∧ FaultKind.ofJson? w = some kind) ∧
        (∃ w, body.member? "span" = some w ∧ Span.ofJson? w = some span) ∧
        ∃ w, body.member? "snippet" = some w ∧ w = .string snippet := by
  constructor
  · intro h
    obtain ⟨body, rfl | rfl⟩ := exists_body_of_ofJson? h
    · rw [ofJson?_reference] at h
      simp [Option.bind_eq_some_iff] at h
    · rw [ofJson?_parse] at h
      simpa [Json.text?, Option.bind_eq_some_iff, Json.string?_eq_some_iff] using h
  · rintro ⟨body, rfl, h⟩
    rw [ofJson?_parse]
    simpa [Json.text?, Option.bind_eq_some_iff, Json.string?_eq_some_iff] using h

/-- Both positions of the place of a fault are unsigned integers of 64 bits. -/
def FitsWords (fault : Fault) : Prop := fault.span.FitsWords

/-- What is written for a fault reads back. -/
lemma ofJson?_toJson {fault : Fault} (h : fault.FitsWords) : ofJson? fault.toJson = some fault := by
  cases fault with
  | undefinedName name span =>
    exact ofJson?_eq_undefinedName_iff.2 ⟨_, rfl, ⟨_, rfl, rfl⟩, _, rfl, Span.ofJson?_toJson h⟩
  | refused kind span snippet =>
    exact ofJson?_eq_refused_iff.2 ⟨_, rfl, ⟨_, rfl, (FaultKind.ofJson?_eq_some_iff rfl).2 rfl⟩,
      ⟨_, rfl, Span.ofJson?_toJson h⟩, _, rfl, rfl⟩

/-- **A fault is read from what restates it** with one key, and from nothing else. -/
theorem ofJson?_eq_some_iff {fault : Fault} (hj : j.hasDistinctKeys)
    (hnames : ∀ w, NameIn j w → w.isObject = false) :
    ofJson? j = some fault ↔ fault.FitsWords ∧ Restates j fault.toJson := by
  cases fault with
  | undefinedName name span =>
    rw [ofJson?_eq_undefinedName_iff, toJson, restates_iff hj (by decide), ← exists_and_left]
    refine exists_congr fun body => Iff.trans (and_congr_right fun hbody => ?_) and_left_comm
    subst hbody
    have hdistinct : body.hasDistinctKeys := Json.hasDistinctKeys_member? hj List.lookup_cons_self
    rw [Span.exists_member_iff [] hdistinct, Json.restates_untagged_iff hdistinct (by simp)
      (List.cons_ne_nil _ _) (by simp)]
    simp only [Json.restates_string_iff, List.forall_mem_cons, List.not_mem_nil, false_imp_iff,
      implies_true, and_true]
    exact and_left_comm
  | refused kind span snippet =>
    rw [ofJson?_eq_refused_iff, toJson, restates_iff hj (by decide), ← exists_and_left]
    refine exists_congr fun body => Iff.trans (and_congr_right fun hbody => ?_) and_left_comm
    subst hbody
    have hdistinct : body.hasDistinctKeys := Json.hasDistinctKeys_member? hj List.lookup_cons_self
    have hkind : (∃ w, body.member? "kind" = some w ∧ FaultKind.ofJson? w = some kind) ↔
        ∃ w, body.member? "kind" = some w ∧ w = kind.toJson := exists_congr fun w =>
      and_congr_right fun hw => FaultKind.ofJson?_eq_some_iff (hnames w ⟨body, rfl, hw⟩)
    rw [hkind, Span.exists_member_iff [] hdistinct, Json.restates_untagged_iff hdistinct (by simp)
      (List.cons_ne_nil _ _) (by simp)]
    simp only [FaultKind.toJson, Json.restates_string_iff, List.forall_mem_cons, List.not_mem_nil,
      false_imp_iff, implies_true, and_true]
    rw [and_assoc]
    exact and_left_comm

end Fault

/-! ## Diagnostics -/

namespace Diagnostic

/-- The value with an empty hint, if it is an object without any. -/
def fillHint : Json → Json
  | .object members =>
    if (members.lookup "hint").isNone then .object (members ++ [("hint", .null)])
    else .object members
  | j => j

variable {j : Json} {d : Diagnostic}

/-- A missing hint changes no other member. -/
lemma member?_fillHint_of_ne {key : String} (h : key ≠ "hint") :
    (fillHint j).member? key = j.member? key := by
  cases j with
  | object members =>
    rw [fillHint]
    split
    · simp [Json.member?, List.lookup_append, List.lookup_cons, beq_false_of_ne h]
    · rfl
  | _ => rfl

/-- With a missing hint filled in, an object has a hint. -/
lemma member?_hint_fillHint {members : List (String × Json)} :
    (fillHint (.object members)).member? "hint" =
      some (((Json.object members).member? "hint").getD .null) := by
  have hmember : (Json.object members).member? "hint" = members.lookup "hint" := rfl
  rw [fillHint, hmember]
  cases h : members.lookup "hint" with
  | none => simp [Json.member?, List.lookup_append, h]
  | some w => simpa [Json.member?] using h

/-- A hint is filled in only where there is none, so no key is repeated. -/
lemma hasDistinctKeys_fillHint (hj : j.hasDistinctKeys) : (fillHint j).hasDistinctKeys := by
  cases j with
  | object members =>
    rw [fillHint]
    split
    · next h =>
      have hhint : "hint" ∉ members.map Prod.fst := by
        intro hmem
        obtain ⟨m, hm, hkey⟩ := List.mem_map.1 hmem
        rw [Option.isNone_iff_eq_none, List.lookup_eq_none_iff] at h
        simpa [hkey] using h m hm
      rw [Json.hasDistinctKeys_object_iff] at hj ⊢
      rw [List.map_append, List.forall_mem_append]
      exact ⟨List.Nodup.append hj.1 (List.nodup_singleton _) (by simpa using hhint), hj.2,
        List.forall_mem_singleton.2 rfl⟩
    · exact hj
  | _ => exact hj

/-- A hint is read from a member that may be missing, if it restates the written hint. -/
lemma readHint?_eq_some_iff {positions : List String} {standing : Standing} {member : Option Json}
    {hint : Option String} : readHint? member = some hint ↔
      (member.getD .null).Restates positions standing (hintJson hint) := by
  cases hint with
  | none =>
    rw [hintJson, Json.restates_null_iff]
    cases member with
    | none => exact iff_of_true rfl rfl
    | some w => cases w <;> simp [readHint?]
  | some s =>
    rw [hintJson, Json.restates_string_iff]
    cases member with
    | none => simp [readHint?]
    | some w => cases w <;> simp [readHint?]

/-- A diagnostic is read from its three members. -/
lemma ofJson?_eq_some_iff_members : ofJson? j = some d ↔
    (∃ w, j.member? "message" = some w ∧ w = .string d.message) ∧
      (∃ w, j.member? "span" = some w ∧ Span.ofJson? w = some d.span) ∧
      readHint? (j.member? "hint") = some d.hint? := by
  obtain ⟨message, span, hint⟩ := d
  simp [ofJson?, Option.bind_eq_some_iff, Json.text?, Json.string?_eq_some_iff]

/-- What is written for a diagnostic reads back. -/
lemma ofJson?_toJson (h : d.span.FitsWords) : ofJson? d.toJson = some d := by
  have hhint : readHint? (some (hintJson d.hint?)) = some d.hint? := by
    cases d.hint? with
    | none => rfl
    | some hint => rfl
  exact ofJson?_eq_some_iff_members.2 ⟨⟨_, rfl, rfl⟩, ⟨_, rfl, Span.ofJson?_toJson h⟩, hhint⟩

/-- **A diagnostic is read from what restates it**, a missing hint taken for an empty one, and from
nothing else. -/
theorem ofJson?_eq_some_iff {positions : List String} {standing : Standing}
    (hj : j.hasDistinctKeys) :
    ofJson? j = some d ↔ d.span.FitsWords ∧ (fillHint j).Restates positions standing d.toJson := by
  rw [ofJson?_eq_some_iff_members, Span.exists_member_iff positions hj, toJson,
    Json.restates_untagged_iff (hasDistinctKeys_fillHint hj) (by simp) (List.cons_ne_nil _ _)
      (by simp)]
  simp only [List.forall_mem_cons, List.not_mem_nil, false_imp_iff, implies_true, and_true,
    Json.restates_string_iff]
  cases j with
  | object members =>
    have hmessage : (fillHint (.object members)).member? "message" =
        (Json.object members).member? "message" := member?_fillHint_of_ne (by decide)
    have hspan : (fillHint (.object members)).member? "span" =
        (Json.object members).member? "span" := member?_fillHint_of_ne (by decide)
    have hhint : readHint? ((Json.object members).member? "hint") = some d.hint? ↔
        ∃ w, (fillHint (.object members)).member? "hint" = some w ∧
          w.Restates positions .part (hintJson d.hint?) := by
      rw [member?_hint_fillHint, readHint?_eq_some_iff]
      constructor
      · intro h
        exact ⟨_, rfl, h⟩
      · rintro ⟨w, hw, h⟩
        obtain rfl := Option.some.inj hw
        exact h
    rw [hhint, hmessage, hspan, and_assoc]
    exact and_left_comm
  | _ => simp [Json.member?, fillHint]

end Diagnostic

/-! ## The inverse -/

/-- **Reading exactly undoes writing.** A program with finite numbers, and a fault, a diagnostic or
a span with positions of 64 bits, reads back from what is written for it. A value without repeated
keys and, where names are looked for, without objects in their place is read exactly as the program,
fault, diagnostic or span whose written value it restates: up to the order of members, members with
other keys and the spelling of numbers, and for an expression that is a part the position of its
form in place of its tag.

**Proof sketch.** What is written is an object with fixed keys, so it reads back member by member.
The other way round, a reader looks up these keys and nothing else, and in an object without
repeated keys to look them up is to restate the object (`Abacus.Json.restates_untagged_iff`,
`Abacus.Json.restates_tagged_iff`). A name is told from its text, a decimal number is read as the
binary number that is nearest to it, and a program is read item by item. -/
theorem Json.reading_inverts_writing :
    Json.IsExactInverse Program.IsFinite
      (fun j => j.hasDistinctKeys ∧ ∀ w, Program.NameIn j w → w.isObject = false)
      (Json.Restates Expression.tags .alone) (Program.toJson .decimal) (Program.ofJson? .decimal) ∧
    Json.IsExactInverse Fault.FitsWords
      (fun j => j.hasDistinctKeys ∧ ∀ w, Fault.NameIn j w → w.isObject = false)
      Fault.Restates Fault.toJson Fault.ofJson? ∧
    Json.IsExactInverse (fun d : Diagnostic => d.span.FitsWords) (fun j => j.hasDistinctKeys)
      (fun j k => (Diagnostic.fillHint j).Restates [] .alone k)
      Diagnostic.toJson Diagnostic.ofJson? ∧
    Json.IsExactInverse Span.FitsWords (fun j => j.hasDistinctKeys) (Json.Restates [] .alone)
      Span.toJson Span.ofJson? := by
  refine ⟨⟨fun p hp => Program.ofJson?_toJson fun s hs x hx => ?_, fun j hj p => ?_⟩,
    ⟨fun fault hfault => Fault.ofJson?_toJson hfault, fun j hj fault => ?_⟩,
    ⟨fun d hd => Diagnostic.ofJson?_toJson hd, fun j hj d => ?_⟩,
    ⟨fun s hs => Span.ofJson?_toJson hs, fun j hj s => ?_⟩⟩
  · exact NumberFormat.readDecimal?_writeDecimal (hp s hs x hx)
  · exact Program.ofJson?_decimal_eq_some_iff hj.1 hj.2
  · exact Fault.ofJson?_eq_some_iff hj.1 hj.2
  · exact Diagnostic.ofJson?_eq_some_iff hj
  · exact Span.ofJson?_eq_some_iff hj

/-- A call of `abs` with its members in another order, a member more, an integer for a number and a
position for the tag of the number. -/
def Json.absOfOne : Json :=
  .array [.object [("line", .null), ("expr", .object [("arg", .object
    [("value", .ofNat 1), ("tag", .ofNat 0)]), ("name", .string "abs"),
      ("tag", .string "builtin1")]), ("tag", .string "expr")]]

/-- The call that it is read as. -/
def Program.absOfOne : Program :=
  [.expression (.unaryCall .abs (.number (.ofDecimal false ⟨1, 0⟩)))]

/-- The tag of the call and that of its argument are a text and a position, its members stand in
another order than they are written in, and its number is spelt as an integer. It is read as the
call, so it restates what is written for the call. -/
theorem Json.absOfOne_restates :
    Json.absOfOne.hasDistinctKeys ∧ (∀ w, Program.NameIn Json.absOfOne w → w.isObject = false) ∧
      Program.ofJson? .decimal Json.absOfOne = some Program.absOfOne ∧ Program.absOfOne.IsFinite ∧
      Json.absOfOne.Restates Expression.tags .alone (Program.absOfOne.toJson .decimal) := by
  have hkeys : Json.absOfOne.hasDistinctKeys := by decide +kernel
  have hnames : ∀ w, Program.NameIn Json.absOfOne w → w.isObject = false := by
    intro w hw
    obtain ⟨tag, key, part, htag, hkey, hpart, hname⟩ := Program.nameIn_singleton_iff.1 hw
    obtain rfl := Option.some.inj htag
    obtain rfl := Option.some.inj hkey
    obtain rfl := Option.some.inj hpart
    cases hname with
    | own htag hkey hw =>
      obtain rfl := Option.some.inj htag
      obtain rfl := Option.some.inj hkey
      obtain rfl := Option.some.inj hw
      rfl
    | part htag hkey hpart hw =>
      obtain rfl := Option.some.inj htag
      obtain rfl := List.mem_singleton.1 hkey
      obtain rfl := Option.some.inj hpart
      exact absurd hw (Expression.not_nameIn_of_tag rfl rfl rfl)
  have hnumber : Expression.ofJson? .decimal .part
      (.object [("value", .ofNat 1), ("tag", .ofNat 0)]) =
        some (.number (.ofDecimal false ⟨1, 0⟩)) :=
    Expression.ofJson?_eq_number_iff.2 ⟨rfl, _, rfl, by decide +kernel⟩
  have hread : Program.ofJson? .decimal Json.absOfOne = some Program.absOfOne :=
    Program.ofJson?_singleton (Statement.ofJson?_eq_expression_iff.2 ⟨rfl, _, rfl,
      Expression.ofJson?_eq_unaryCall_iff.2 ⟨rfl, ⟨_, rfl, rfl⟩, _, rfl, hnumber⟩⟩)
  exact ⟨hkeys, hnames, hread,
    (Json.reading_inverts_writing.1.read?_eq_some_iff _ ⟨hkeys, hnames⟩ _).1 hread⟩

/-- A number whose tag is the position of the form of numbers. -/
def Json.numberByPosition : Json :=
  .array [.object [("tag", .string "expr"), ("expr", .object
    [("tag", .ofNat 0), ("value", .number ⟨false, ⟨15, -1⟩, false⟩)])]]

/-- The number that it is read as. -/
def Program.oneAndAHalf : Program := [.expression (.number (.ofDecimal false ⟨15, -1⟩))]

/-- Positions are needed: a value is read that restates nothing once all tags are texts. -/
theorem Json.numberByPosition_read_without_restating :
    Json.numberByPosition.hasDistinctKeys ∧
      (∀ w, Program.NameIn Json.numberByPosition w → w.isObject = false) ∧
      Program.oneAndAHalf.IsFinite ∧
      Program.ofJson? .decimal Json.numberByPosition = some Program.oneAndAHalf ∧
      ¬Json.numberByPosition.Restates [] .alone (Program.oneAndAHalf.toJson .decimal) := by
  refine ⟨by decide +kernel, ?_, ?_, ?_, ?_⟩
  · intro w hw
    obtain ⟨tag, key, part, htag, hkey, hpart, hname⟩ := Program.nameIn_singleton_iff.1 hw
    obtain rfl := Option.some.inj htag
    obtain rfl := Option.some.inj hkey
    obtain rfl := Option.some.inj hpart
    exact absurd hname (Expression.not_nameIn_of_tag rfl rfl rfl)
  · rintro s hs x hx
    obtain rfl := List.mem_singleton.1 hs
    obtain rfl := List.mem_singleton.1 hx
    decide +kernel
  · exact Program.ofJson?_singleton (Statement.ofJson?_eq_expression_iff.2 ⟨rfl, _, rfl,
      Expression.ofJson?_eq_number_iff.2 ⟨rfl, _, rfl, by decide +kernel⟩⟩)
  · intro h
    obtain ⟨js, hjs, hitems⟩ := Json.restates_array_iff.1 h
    cases hjs
    have hstatement := (Json.restates_tagged_iff (by decide +kernel) (by simp) (by simp)
      (Nat.zero_le _)).1 (List.forall₂_cons.1 hitems).1
    obtain ⟨w, hw, hnumber⟩ := List.forall_mem_singleton.1 hstatement.2
    obtain rfl := Option.some.inj hw
    -- Without positions there is no tag to read from an integer.
    have htag := ((Json.restates_tagged_iff (by decide +kernel) (by simp) (by simp)
      (Nat.zero_le _)).1 hnumber).1
    cases htag

end Abacus
