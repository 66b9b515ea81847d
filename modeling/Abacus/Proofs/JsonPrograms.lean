import Abacus.Proofs.Closed
import Abacus.Proofs.ReadBack
import Abacus.Proofs.Restating

set_option autoImplicit false

/-!
# Which values are read as programs

A value is read as a program exactly if it restates what is written for it. Repeated keys are
excluded, and so are objects in the place of the names of operators and functions, from which names
are read too. The tag of an expression that is a part may be the position of its form.

## Main definitions

* `Abacus.Expression.NameIn`, `Abacus.Program.NameIn` — the values in the place of names.

## Main results

* `Abacus.Expression.ofJson?_toJson` — what is written for an expression reads back.
* `Abacus.Expression.ofJson?_decimal_eq_some_iff` — what is read as an expression.
* `Abacus.Program.ofJson?_decimal_eq_some_iff` — what is read as a program.
-/

namespace Abacus

/-! ## Names -/

/-- An operator is read from its name. -/
lemma BinaryOperator.ofJson?_eq_some_iff {standing : Standing} {j : Json} {op : BinaryOperator}
    (hj : j.isObject = false) : ofJson? standing j = some op ↔ j = op.toJson :=
  Json.choice?_bind_find?_eq_some_iff hj (by cases op <;> rfl)

/-- A function of one argument is read from its name. -/
lemma UnaryBuiltin.ofJson?_eq_some_iff {standing : Standing} {j : Json} {f : UnaryBuiltin}
    (hj : j.isObject = false) : ofJson? standing j = some f ↔ j = f.toJson :=
  Json.choice?_bind_find?_eq_some_iff hj (by cases f <;> rfl)

/-- A function of two arguments is read from its name. -/
lemma BinaryBuiltin.ofJson?_eq_some_iff {standing : Standing} {j : Json} {f : BinaryBuiltin}
    (hj : j.isObject = false) : ofJson? standing j = some f ↔ j = f.toJson :=
  Json.choice?_bind_find?_eq_some_iff hj (by cases f <;> rfl)

/-! ## Numbers -/

/-- A number is read from what restates its shortest decimal. -/
lemma NumberFormat.readDecimal?_eq_some_iff (positions : List String) (standing : Standing)
    {j : Json} {x : Binary64} : readDecimal? j = some x ↔
      x.isFinite ∧ j.Restates positions standing (writeDecimal x) := by
  constructor
  · intro h
    cases j with
    | number n =>
      rw [readDecimal?, Option.filter_eq_some_iff] at h
      obtain ⟨hn, hx⟩ := h
      obtain rfl := Option.some.inj hn
      refine ⟨hx, ?_⟩
      rw [writeDecimal, if_pos hx]
      exact .decimal rfl (Binary64.ofDecimal_shortest hx).symm
    | _ => cases h
  · rintro ⟨hx, h⟩
    rw [writeDecimal, if_pos hx] at h
    cases h with
    | integer hn => cases hn
    | decimal _ h =>
      rw [Binary64.ofDecimal_shortest hx] at h
      exact Option.filter_eq_some_iff.2 ⟨congrArg some h, hx⟩

/-- What is written for a finite number reads back. -/
lemma NumberFormat.readDecimal?_writeDecimal {x : Binary64} (hx : x.isFinite) :
    readDecimal? (writeDecimal x) = some x := by
  refine (readDecimal?_eq_some_iff [] .alone).2 ⟨hx, ?_⟩
  rw [writeDecimal, if_pos hx]
  exact .decimal rfl rfl

/-! ## Expressions -/

namespace Expression

/-- The tag of the form of an expression. -/
def tag : Expression → String
  | number _ => "num"
  | identifier _ => "id"
  | unaryCall _ _ => "builtin1"
  | binaryCall _ _ _ => "builtin2"
  | binary _ _ _ => "binop"

/-- The key of the name of an operator or of a function, for the tags that have one. -/
def nameKey? : String → Option String
  | "builtin1" | "builtin2" => some "name"
  | "binop" => some "op"
  | _ => none

/-- The keys of the parts of an expression with a tag. -/
def partKeys : String → List String
  | "builtin1" => ["arg"]
  | "builtin2" => ["arg1", "arg2"]
  | "binop" => ["left", "right"]
  | _ => []

/-- `NameIn standing j w` says that `w` is in the place of the name of an operator or of a function
somewhere in `j`, read as an expression. -/
inductive NameIn : Standing → Json → Json → Prop
  /-- The name of the expression itself. -/
  | own {standing : Standing} {j w : Json} {tag key : String}
    (htag : j.tag? standing tags = some tag) (hkey : nameKey? tag = some key)
    (hw : j.member? key = some w) : NameIn standing j w
  /-- A name in a part. -/
  | part {standing : Standing} {j part w : Json} {tag key : String}
    (htag : j.tag? standing tags = some tag) (hkey : key ∈ partKeys tag)
    (hpart : j.member? key = some part) (hw : NameIn .part part w) : NameIn standing j w

/-- There are no names in an expression whose form has neither a name nor parts. -/
lemma not_nameIn_of_tag {standing : Standing} {j w : Json} {tag : String}
    (htag : j.tag? standing tags = some tag) (hname : nameKey? tag = none)
    (hparts : partKeys tag = []) : ¬NameIn standing j w := by
  intro h
  cases h with
  | own htag' hkey =>
    obtain rfl := Option.some.inj (htag.symm.trans htag')
    rw [hname] at hkey
    cases hkey
  | part htag' hkey =>
    obtain rfl := Option.some.inj (htag.symm.trans htag')
    rw [hparts] at hkey
    cases hkey

section Reading

variable {format : NumberFormat} {standing : Standing} {j : Json}

/-- What is read from an object with the tag of a number. -/
lemma ofJson?_of_num (h : j.tag? standing tags = some "num") :
    ofJson? format standing j = ((j.member? "value").bind format.read?).map number := by
  rw [ofJson?]
  simp only [h]

/-- What is read from an object with the tag of a name. -/
lemma ofJson?_of_id (h : j.tag? standing tags = some "id") :
    ofJson? format standing j = (j.text? "name").map identifier := by
  rw [ofJson?]
  simp only [h]

/-- What is read from an object with the tag of a call of one argument. -/
lemma ofJson?_of_builtin1 (h : j.tag? standing tags = some "builtin1") :
    ofJson? format standing j = ((j.member? "name").bind (UnaryBuiltin.ofJson? .part)).bind fun f =>
      ((j.member? "arg").bind (ofJson? format .part)).map (unaryCall f) := by
  rw [ofJson?, h]
  cases (j.member? "name").bind (UnaryBuiltin.ofJson? .part) <;> cases j.member? "arg" <;> rfl

/-- What is read from an object with the tag of a call of two arguments. -/
lemma ofJson?_of_builtin2 (h : j.tag? standing tags = some "builtin2") :
    ofJson? format standing j =
      ((j.member? "name").bind (BinaryBuiltin.ofJson? .part)).bind fun f =>
      ((j.member? "arg1").bind (ofJson? format .part)).bind fun a =>
        ((j.member? "arg2").bind (ofJson? format .part)).map (binaryCall f a) := by
  rw [ofJson?, h]
  rcases (j.member? "name").bind (BinaryBuiltin.ofJson? .part) with _ | f
  · rfl
  rcases j.member? "arg1" with _ | first
  · rfl
  rcases j.member? "arg2" with _ | second
  · exact (Option.bind_fun_none _).symm
  · simp only [Option.map_eq_bind]
    rfl

/-- What is read from an object with the tag of an operator. -/
lemma ofJson?_of_binop (h : j.tag? standing tags = some "binop") :
    ofJson? format standing j =
      ((j.member? "op").bind (BinaryOperator.ofJson? .part)).bind fun op =>
      ((j.member? "left").bind (ofJson? format .part)).bind fun a =>
        ((j.member? "right").bind (ofJson? format .part)).map (binary op a) := by
  rw [ofJson?, h]
  rcases (j.member? "op").bind (BinaryOperator.ofJson? .part) with _ | op
  · rfl
  rcases j.member? "left" with _ | left
  · rfl
  rcases j.member? "right" with _ | right
  · exact (Option.bind_fun_none _).symm
  · simp only [Option.map_eq_bind]
    rfl

/-- Only objects with one of the five tags are read. -/
lemma tag?_mem_of_ofJson? {e : Expression} (h : ofJson? format standing j = some e) :
    ∃ tag ∈ tags, j.tag? standing tags = some tag := by
  rw [ofJson?] at h
  split at h
  case h_6 => cases h
  all_goals
    refine ⟨_, ?_, by assumption⟩
    decide

/-- The tag tells the form that is read. -/
lemma tag?_of_ofJson? {e : Expression} (h : ofJson? format standing j = some e) :
    j.tag? standing tags = some e.tag := by
  obtain ⟨tag, hmem, htag⟩ := tag?_mem_of_ofJson? h
  simp only [tags, List.mem_cons, List.not_mem_nil, or_false] at hmem
  rcases hmem with rfl | rfl | rfl | rfl | rfl
  · rw [ofJson?_of_num htag] at h
    obtain ⟨x, -, rfl⟩ := Option.map_eq_some_iff.1 h
    exact htag
  · rw [ofJson?_of_id htag] at h
    obtain ⟨name, -, rfl⟩ := Option.map_eq_some_iff.1 h
    exact htag
  · rw [ofJson?_of_builtin1 htag] at h
    simp only [Option.bind_eq_some_iff, Option.map_eq_some_iff] at h
    obtain ⟨f, -, a, -, rfl⟩ := h
    exact htag
  · rw [ofJson?_of_builtin2 htag] at h
    simp only [Option.bind_eq_some_iff, Option.map_eq_some_iff] at h
    obtain ⟨f, -, a, -, b, -, rfl⟩ := h
    exact htag
  · rw [ofJson?_of_binop htag] at h
    simp only [Option.bind_eq_some_iff, Option.map_eq_some_iff] at h
    obtain ⟨op, -, a, -, b, -, rfl⟩ := h
    exact htag

/-- A reader that tells by the tag what to read may be opened after its tag is known. -/
lemma ofJson?_eq_some_iff_of_tag {e : Expression} {P : Prop}
    (h : j.tag? standing tags = some e.tag → (ofJson? format standing j = some e ↔ P)) :
    ofJson? format standing j = some e ↔ j.tag? standing tags = some e.tag ∧ P :=
  (and_iff_right_of_imp tag?_of_ofJson?).symm.trans (and_congr_right h)

/-- A number is read from an object with its tag and its value. -/
lemma ofJson?_eq_number_iff {x : Binary64} :
    ofJson? format standing j = some (number x) ↔ j.tag? standing tags = some "num" ∧
      ∃ w, j.member? "value" = some w ∧ format.read? w = some x :=
  ofJson?_eq_some_iff_of_tag fun htag => by
    rw [ofJson?_of_num htag]
    simp [Option.bind_eq_some_iff]

/-- An identifier is read from an object with its tag and its name. -/
lemma ofJson?_eq_identifier_iff {name : String} :
    ofJson? format standing j = some (identifier name) ↔ j.tag? standing tags = some "id" ∧
      ∃ w, j.member? "name" = some w ∧ w = .string name :=
  ofJson?_eq_some_iff_of_tag fun htag => by
    rw [ofJson?_of_id htag]
    simp [Json.text?, Option.bind_eq_some_iff, Json.string?_eq_some_iff]

/-- A call of one argument is read from an object with its tag, its name and its argument. -/
lemma ofJson?_eq_unaryCall_iff {f : UnaryBuiltin} {a : Expression} :
    ofJson? format standing j = some (unaryCall f a) ↔ j.tag? standing tags = some "builtin1" ∧
      (∃ w, j.member? "name" = some w ∧ UnaryBuiltin.ofJson? .part w = some f) ∧
      ∃ w, j.member? "arg" = some w ∧ ofJson? format .part w = some a :=
  ofJson?_eq_some_iff_of_tag fun htag => by
    rw [ofJson?_of_builtin1 htag]
    simp [Option.bind_eq_some_iff]

/-- A call of two arguments is read from an object with its tag, its name and its arguments. -/
lemma ofJson?_eq_binaryCall_iff {f : BinaryBuiltin} {a b : Expression} :
    ofJson? format standing j = some (binaryCall f a b) ↔ j.tag? standing tags = some "builtin2" ∧
      (∃ w, j.member? "name" = some w ∧ BinaryBuiltin.ofJson? .part w = some f) ∧
      (∃ w, j.member? "arg1" = some w ∧ ofJson? format .part w = some a) ∧
      ∃ w, j.member? "arg2" = some w ∧ ofJson? format .part w = some b :=
  ofJson?_eq_some_iff_of_tag fun htag => by
    rw [ofJson?_of_builtin2 htag]
    simp [Option.bind_eq_some_iff]

/-- An operation is read from an object with its tag, its operator and its operands. -/
lemma ofJson?_eq_binary_iff {op : BinaryOperator} {a b : Expression} :
    ofJson? format standing j = some (binary op a b) ↔ j.tag? standing tags = some "binop" ∧
      (∃ w, j.member? "op" = some w ∧ BinaryOperator.ofJson? .part w = some op) ∧
      (∃ w, j.member? "left" = some w ∧ ofJson? format .part w = some a) ∧
      ∃ w, j.member? "right" = some w ∧ ofJson? format .part w = some b :=
  ofJson?_eq_some_iff_of_tag fun htag => by
    rw [ofJson?_of_binop htag]
    simp [Option.bind_eq_some_iff]

/-- **What is written for an expression reads back**, if the format reads its numbers back. -/
lemma ofJson?_toJson {e : Expression}
    (h : ∀ x ∈ e.numbers, format.read? (format.write x) = some x) :
    ofJson? format standing (e.toJson format) = some e := by
  induction e generalizing standing with
  | number x => exact ofJson?_eq_number_iff.2 ⟨rfl, _, rfl, h x (List.mem_singleton_self x)⟩
  | identifier name => exact ofJson?_eq_identifier_iff.2 ⟨rfl, _, rfl, rfl⟩
  | unaryCall f a ih =>
    exact ofJson?_eq_unaryCall_iff.2
      ⟨rfl, ⟨_, rfl, (UnaryBuiltin.ofJson?_eq_some_iff rfl).2 rfl⟩, _, rfl, ih h⟩
  | binaryCall f a b iha ihb =>
    obtain ⟨ha, hb⟩ := List.forall_mem_append.1 h
    exact ofJson?_eq_binaryCall_iff.2 ⟨rfl, ⟨_, rfl, (BinaryBuiltin.ofJson?_eq_some_iff rfl).2 rfl⟩,
      ⟨_, rfl, iha ha⟩, _, rfl, ihb hb⟩
  | binary op a b iha ihb =>
    obtain ⟨ha, hb⟩ := List.forall_mem_append.1 h
    exact ofJson?_eq_binary_iff.2 ⟨rfl, ⟨_, rfl, (BinaryOperator.ofJson?_eq_some_iff rfl).2 rfl⟩,
      ⟨_, rfl, iha ha⟩, _, rfl, ihb hb⟩

/-- A member that is read as a name is the text that restates it. -/
lemma exists_name_iff {α : Type} {read? : Standing → Json → Option α} {s : String} {x : α}
    {tag key : String} (hread : ∀ {w : Json}, w.isObject = false →
      (read? .part w = some x ↔ w = .string s))
    (hnames : ∀ w, NameIn standing j w → w.isObject = false)
    (htag : j.tag? standing tags = some tag) (hkey : nameKey? tag = some key) :
    (∃ w, j.member? key = some w ∧ read? .part w = some x) ↔
      ∃ w, j.member? key = some w ∧ w.Restates tags .part (.string s) := by
  refine exists_congr fun w => and_congr_right fun hw => ?_
  rw [hread (hnames w (.own htag hkey hw)), Json.restates_string_iff]

/-- `e` is read, as a part, from what restates it. -/
def IsReadAsPart (e : Expression) : Prop :=
  ∀ j : Json, j.hasDistinctKeys → (∀ w, NameIn .part j w → w.isObject = false) →
    (ofJson? .decimal .part j = some e ↔
      (∀ x ∈ e.numbers, x.isFinite) ∧ j.Restates tags .part (e.toJson .decimal))

/-- A member that is read as a part is one that restates the part. -/
lemma exists_part_iff {e : Expression} {tag key : String} (he : e.IsReadAsPart)
    (hj : j.hasDistinctKeys) (hnames : ∀ w, NameIn standing j w → w.isObject = false)
    (htag : j.tag? standing tags = some tag) (hkey : key ∈ partKeys tag) :
    (∃ w, j.member? key = some w ∧ ofJson? .decimal .part w = some e) ↔
      (∀ x ∈ e.numbers, x.isFinite) ∧
        ∃ w, j.member? key = some w ∧ w.Restates tags .part (e.toJson .decimal) :=
  Json.exists_member_iff_and fun w hw =>
    he w (Json.hasDistinctKeys_member? hj hw) fun v hv => hnames v (.part htag hkey hw hv)

/-- **An expression is read from what restates it**, and from nothing else.

**Proof sketch.** By induction on the expression: the tag of a value decides which members are
looked up, and these are the members that restating compares. -/
theorem ofJson?_decimal_eq_some_iff {e : Expression} (hj : j.hasDistinctKeys)
    (hnames : ∀ w, NameIn standing j w → w.isObject = false) :
    ofJson? .decimal standing j = some e ↔
      (∀ x ∈ e.numbers, x.isFinite) ∧ j.Restates tags standing (e.toJson .decimal) := by
  have hlength : tags.length ≤ Nat.pow 2 64 := by decide
  induction e generalizing standing j with
  | number x =>
    rw [ofJson?_eq_number_iff, toJson, Json.restates_tagged_iff hj (by simp) (by simp) hlength]
    -- The tag is the same on both sides; that the numbers are finite comes from the parts.
    refine Iff.trans (and_congr_right fun _ => ?_) and_left_comm
    simp only [numbers, List.forall_mem_singleton]
    exact Json.exists_member_iff_and fun _ _ => NumberFormat.readDecimal?_eq_some_iff tags .part
  | identifier name =>
    rw [ofJson?_eq_identifier_iff, toJson, Json.restates_tagged_iff hj (by simp) (by simp) hlength]
    simp [numbers]
  | unaryCall f a ih =>
    rw [ofJson?_eq_unaryCall_iff, toJson, Json.restates_tagged_iff hj (by simp) (by simp) hlength]
    refine Iff.trans (and_congr_right fun htag => ?_) and_left_comm
    rw [exists_name_iff UnaryBuiltin.ofJson?_eq_some_iff hnames htag rfl,
      exists_part_iff (fun _ hj hnames => ih hj hnames) hj hnames htag (by decide)]
    simp only [numbers, UnaryBuiltin.toJson, List.forall_mem_cons, List.not_mem_nil, false_imp_iff,
      implies_true, and_true]
    exact and_left_comm
  | binaryCall f a b iha ihb =>
    rw [ofJson?_eq_binaryCall_iff, toJson, Json.restates_tagged_iff hj (by simp) (by simp) hlength]
    refine Iff.trans (and_congr_right fun htag => ?_) and_left_comm
    rw [exists_name_iff BinaryBuiltin.ofJson?_eq_some_iff hnames htag rfl,
      exists_part_iff (fun _ hj hnames => iha hj hnames) hj hnames htag (by decide),
      exists_part_iff (fun _ hj hnames => ihb hj hnames) hj hnames htag (by decide)]
    simp only [numbers, BinaryBuiltin.toJson, List.forall_mem_append, List.forall_mem_cons,
      List.not_mem_nil, false_imp_iff, implies_true, and_true]
    rw [and_and_and_comm, and_left_comm]
  | binary op a b iha ihb =>
    rw [ofJson?_eq_binary_iff, toJson, Json.restates_tagged_iff hj (by simp) (by simp) hlength]
    refine Iff.trans (and_congr_right fun htag => ?_) and_left_comm
    rw [exists_name_iff BinaryOperator.ofJson?_eq_some_iff hnames htag rfl,
      exists_part_iff (fun _ hj hnames => iha hj hnames) hj hnames htag (by decide),
      exists_part_iff (fun _ hj hnames => ihb hj hnames) hj hnames htag (by decide)]
    simp only [numbers, BinaryOperator.toJson, List.forall_mem_append, List.forall_mem_cons,
      List.not_mem_nil, false_imp_iff, implies_true, and_true]
    rw [and_and_and_comm, and_left_comm]

end Reading

end Expression

/-! ## Programs -/

namespace Statement

/-- The key of the expression of a statement with a tag. -/
def partKey? : String → Option String
  | "define" => some "value"
  | "expr" => some "expr"
  | _ => none

/-- `w` is in the place of a name somewhere in `j`, read as a statement. -/
def NameIn (j w : Json) : Prop :=
  ∃ tag key part, j.text? "tag" = some tag ∧ partKey? tag = some key ∧
    j.member? key = some part ∧ Expression.NameIn .part part w

variable {format : NumberFormat} {j : Json}

/-- A definition is read from an object with its tag, its name and its value. -/
lemma ofJson?_eq_define_iff {name : String} {value : Expression} :
    ofJson? format j = some (define name value) ↔ j.text? "tag" = some "define" ∧
      (∃ w, j.member? "name" = some w ∧ w = .string name) ∧
      ∃ w, j.member? "value" = some w ∧ Expression.ofJson? format .part w = some value := by
  rw [ofJson?]
  split
  all_goals simp_all [Json.text?, Json.string?_eq_some_iff, Option.bind_eq_some_iff]

/-- An expression that stands alone is read from an object with its tag and the expression. -/
lemma ofJson?_eq_expression_iff {e : Expression} :
    ofJson? format j = some (expression e) ↔ j.text? "tag" = some "expr" ∧
      ∃ w, j.member? "expr" = some w ∧ Expression.ofJson? format .part w = some e := by
  rw [ofJson?]
  split
  all_goals simp_all [Json.text?, Json.string?_eq_some_iff, Option.bind_eq_some_iff]

/-- What is written for a statement reads back. -/
lemma ofJson?_toJson {s : Statement}
    (h : ∀ x ∈ s.body.numbers, format.read? (format.write x) = some x) :
    ofJson? format (s.toJson format) = some s := by
  cases s with
  | define name value =>
    exact ofJson?_eq_define_iff.2 ⟨rfl, ⟨_, rfl, rfl⟩, _, rfl, Expression.ofJson?_toJson h⟩
  | expression e => exact ofJson?_eq_expression_iff.2 ⟨rfl, _, rfl, Expression.ofJson?_toJson h⟩

/-- The expression of a statement is read from what restates it. -/
lemma exists_part_iff {e : Expression} {tag key : String} (hj : j.hasDistinctKeys)
    (hnames : ∀ w, NameIn j w → w.isObject = false) (htag : j.text? "tag" = some tag)
    (hkey : partKey? tag = some key) :
    (∃ w, j.member? key = some w ∧ Expression.ofJson? .decimal .part w = some e) ↔
      (∀ x ∈ e.numbers, x.isFinite) ∧
        ∃ w, j.member? key = some w ∧ w.Restates Expression.tags .part (e.toJson .decimal) :=
  Json.exists_member_iff_and fun w hw =>
    Expression.ofJson?_decimal_eq_some_iff (Json.hasDistinctKeys_member? hj hw) fun v hv =>
      hnames v ⟨tag, key, w, htag, hkey, hw, hv⟩

/-- **A statement is read from what restates it**, and from nothing else. -/
theorem ofJson?_decimal_eq_some_iff {s : Statement} (hj : j.hasDistinctKeys)
    (hnames : ∀ w, NameIn j w → w.isObject = false) :
    ofJson? .decimal j = some s ↔
      (∀ x ∈ s.body.numbers, x.isFinite) ∧
        j.Restates Expression.tags .alone (s.toJson .decimal) := by
  have hlength : Expression.tags.length ≤ Nat.pow 2 64 := by decide
  cases s with
  | define name value =>
    rw [ofJson?_eq_define_iff, toJson, Json.restates_tagged_iff hj (by simp) (by simp) hlength,
      Json.tag?_alone]
    refine Iff.trans (and_congr_right fun htag => ?_) and_left_comm
    rw [exists_part_iff hj hnames htag rfl]
    simp only [body, Json.restates_string_iff, List.forall_mem_cons, List.not_mem_nil,
      false_imp_iff, implies_true, and_true]
    exact and_left_comm
  | expression e =>
    rw [ofJson?_eq_expression_iff, toJson, Json.restates_tagged_iff hj (by simp) (by simp) hlength,
      Json.tag?_alone]
    refine Iff.trans (and_congr_right fun htag => ?_) and_left_comm
    rw [exists_part_iff hj hnames htag rfl]
    simp only [body, List.forall_mem_cons, List.not_mem_nil, false_imp_iff, implies_true, and_true]

end Statement

namespace Program

/-- `w` is in the place of a name somewhere in `j`, read as a program. -/
def NameIn (j w : Json) : Prop :=
  ∃ items, j = .array items ∧ ∃ item ∈ items, Statement.NameIn item w

/-- The names in a program of one statement are those in the statement. -/
lemma nameIn_singleton_iff {j w : Json} : NameIn (.array [j]) w ↔ Statement.NameIn j w := by
  constructor
  · rintro ⟨items, hitems, item, hitem, hname⟩
    cases hitems
    obtain rfl := List.mem_singleton.1 hitem
    exact hname
  · intro h
    exact ⟨[j], rfl, j, List.mem_singleton_self j, h⟩

/-- What is written for a program reads back. -/
lemma ofJson?_toJson {format : NumberFormat} {p : Program}
    (h : ∀ s ∈ p, ∀ x ∈ s.body.numbers, format.read? (format.write x) = some x) :
    ofJson? format (p.toJson format) = some p := by
  change (p.map (Statement.toJson format)).mapM (Statement.ofJson? format) = some p
  induction p with
  | nil => rfl
  | cons s p ih =>
    obtain ⟨hs, hp⟩ := List.forall_mem_cons.1 h
    rw [List.map_cons, List.mapM_cons, Statement.ofJson?_toJson hs, ih hp]
    rfl

/-- A program of one statement is read from a list with one item. -/
lemma ofJson?_singleton {format : NumberFormat} {j : Json} {s : Statement}
    (h : Statement.ofJson? format j = some s) : ofJson? format (.array [j]) = some [s] := by
  change [j].mapM (Statement.ofJson? format) = some [s]
  rw [List.mapM_cons, h]
  rfl

/-- A program has only finite numbers if its first statement and the others have. -/
lemma isFinite_cons {s : Statement} {p : Program} :
    IsFinite (s :: p) ↔ (∀ x ∈ s.body.numbers, x.isFinite) ∧ p.IsFinite :=
  List.forall_mem_cons

/-- The items of a list are read one by one. -/
lemma mapM_ofJson?_eq_some_iff {items : List Json} {p : Program}
    (hitems : ∀ j ∈ items, j.hasDistinctKeys)
    (hnames : ∀ j ∈ items, ∀ w, Statement.NameIn j w → w.isObject = false) :
    items.mapM (Statement.ofJson? .decimal) = some p ↔
      p.IsFinite ∧ List.Forall₂ (Json.Restates Expression.tags .alone) items
        (p.map (Statement.toJson .decimal)) := by
  induction items generalizing p with
  | nil =>
    rw [List.mapM_nil, List.forall₂_nil_left_iff]
    cases p <;> simp [IsFinite]
  | cons j items ih =>
    obtain ⟨hj, hitems⟩ := List.forall_mem_cons.1 hitems
    obtain ⟨hname, hnames⟩ := List.forall_mem_cons.1 hnames
    rw [List.mapM_cons]
    cases p with
    | nil => simp [Option.bind_eq_some_iff]
    | cons s p =>
      have hcons : (do
          let s' ← Statement.ofJson? .decimal j
          let q ← items.mapM (Statement.ofJson? .decimal)
          return s' :: q) = some (s :: p) ↔
          Statement.ofJson? .decimal j = some s ∧
            items.mapM (Statement.ofJson? .decimal) = some p := by
        simp [Option.bind_eq_some_iff]
      rw [hcons, Statement.ofJson?_decimal_eq_some_iff hj hname, ih hitems hnames, isFinite_cons,
        List.map_cons, List.forall₂_cons]
      exact and_and_and_comm

/-- **A program is read from what restates it**, and from nothing else. -/
theorem ofJson?_decimal_eq_some_iff {j : Json} {p : Program} (hj : j.hasDistinctKeys)
    (hnames : ∀ w, NameIn j w → w.isObject = false) :
    ofJson? .decimal j = some p ↔
      p.IsFinite ∧ j.Restates Expression.tags .alone (p.toJson .decimal) := by
  rw [toJson, Json.restates_array_iff]
  cases j with
  | array items =>
    rw [Json.hasDistinctKeys, Json.itemsHaveDistinctKeys_iff] at hj
    have hread := mapM_ofJson?_eq_some_iff (p := p) hj
      fun item hitem w hw => hnames w ⟨items, rfl, item, hitem, hw⟩
    refine hread.trans ?_
    simp
  | _ => simp [ofJson?, Json.array?]

end Program

end Abacus
