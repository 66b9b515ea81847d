import Abacus.Proofs.Readers

set_option autoImplicit false

/-!
# Which programs survive printing

The printer writes no parentheses and takes any name and any number, so it can be asked to print
programs that no text stands for. This file draws the border: it says in terms of the program alone
which ones are read back from their text, and shows that whatever is read in place of another one
differs from it, as values too. The trees may come from any reader that nests operators as the
grammar does; which texts are names is up to the reader.

## Main definitions

* `Abacus.Expression.parts` — an expression and all expressions in it.
* `Abacus.Expression.Allows` — what an operator allows on its sides.
* `Abacus.Program.IsPrintable` — the conditions on a program.

## Main results

* `Abacus.Expression.isCanonical_iff` — an expression is canonical part by part.
* `Abacus.Program.isCanonical_iff` — the canonical programs are the printable ones.
* `Abacus.Program.isCanonical_of_equal` — programs with equal values are canonical together.
* `Abacus.Program.parse_render_eq_ok_iff` — the programs that are read back from their text.
-/

namespace Abacus

namespace Expression

/-! ## Parts of an expression -/

/-- An expression and all expressions in it, each in front of its operands. -/
def parts : Expression → List Expression
  | number x => [number x]
  | identifier name => [identifier name]
  | unaryCall f a => unaryCall f a :: a.parts
  | binaryCall f a b => binaryCall f a b :: (a.parts ++ b.parts)
  | binary op l r => binary op l r :: (l.parts ++ r.parts)

/-- An operator stands outermost. -/
def IsOperation (e : Expression) : Prop := ∃ op l r, e = binary op l r

/-- A plus or a minus stands outermost. -/
def IsSum (e : Expression) : Prop := ∃ l r, e = binary .plus l r ∨ e = binary .minus l r

/-- What an operator allows on its sides: on the right no sum, and for a product no operation on the
right and no sum on the left. -/
def Allows (op : BinaryOperator) (l r : Expression) : Prop :=
  ¬r.IsSum ∧ (op = .times → ¬r.IsOperation ∧ ¬l.IsSum)

/-- An expression that its text shows, as far as its outermost form goes. -/
def IsShown (isName : String → Prop) : Expression → Prop
  | number x => x.isFinite
  | identifier name => isName name
  | binary op l r => Allows op l r
  | unaryCall _ _ | binaryCall _ _ _ => True

/-- An operation is what has a rank. -/
lemma isOperation_iff {e : Expression} : e.IsOperation ↔ 0 < e.rank := by
  constructor
  · rintro ⟨op, l, r, rfl⟩
    cases op <;> exact Nat.succ_pos _
  · intro h
    cases e with
    | binary op l r => exact ⟨op, l, r, rfl⟩
    | _ => exact absurd h (Nat.lt_irrefl 0)

/-- A sum is what has the weakest rank. -/
lemma isSum_iff {e : Expression} : e.IsSum ↔ 1 < e.rank := by
  constructor
  · rintro ⟨l, r, rfl | rfl⟩ <;> exact Nat.lt_succ_self 1
  · intro h
    cases e with
    | binary op l r =>
      cases op with
      | plus => exact ⟨l, r, Or.inl rfl⟩
      | minus => exact ⟨l, r, Or.inr rfl⟩
      | times => exact absurd h (Nat.lt_irrefl 1)
    | _ => exact absurd h (Nat.not_lt_zero 1)

/-- What an operator allows is what its rank allows. -/
lemma allows_iff {op : BinaryOperator} {l r : Expression} :
    Allows op l r ↔ l.rank ≤ op.rank ∧ r.rank < op.rank := by
  have hl := l.rank_le_two
  have hr := r.rank_le_two
  unfold Allows
  rw [isSum_iff, isSum_iff, isOperation_iff]
  cases op with
  | times =>
    rw [BinaryOperator.rank]
    constructor
    · rintro ⟨-, h⟩
      obtain ⟨hr, hl⟩ := h rfl
      omega
    · intro h
      omega
  | plus | minus =>
    rw [BinaryOperator.rank]
    constructor
    · rintro ⟨h, -⟩
      omega
    · intro h
      exact ⟨by omega, fun h' => absurd h' (by decide)⟩

/-- **An expression is canonical part by part.** -/
lemma isCanonical_iff {isName : String → Prop} {e : Expression} :
    e.IsCanonical isName ↔ ∀ part ∈ e.parts, part.IsShown isName := by
  induction e with
  | number x =>
    rw [parts, List.forall_mem_singleton]
    rfl
  | identifier name =>
    rw [parts, List.forall_mem_singleton]
    rfl
  | unaryCall f a ih =>
    rw [parts, List.forall_mem_cons, ← ih]
    exact (and_iff_right trivial).symm
  | binaryCall f a b iha ihb =>
    rw [parts, List.forall_mem_cons, List.forall_mem_append, ← iha, ← ihb]
    exact (and_iff_right trivial).symm
  | binary op l r ihl ihr =>
    rw [parts, List.forall_mem_cons, List.forall_mem_append, ← ihl, ← ihr, IsShown, allows_iff,
      and_assoc]
    rfl

end Expression

/-! ## Programs -/

namespace Program

/-- A program that its text shows, with the texts that are taken for names. -/
structure IsPrintable (isName : String → Prop) (p : Program) : Prop where
  /-- Every number is finite. -/
  numbers : ∀ s ∈ p, ∀ x, .number x ∈ s.body.parts → x.isFinite
  /-- Every name that is read is a name. -/
  names : ∀ s ∈ p, ∀ name, .identifier name ∈ s.body.parts → isName name
  /-- Every name that is defined is a name. -/
  targets : ∀ s ∈ p, ∀ name, s.target? = some name → isName name
  /-- Every name that is read is defined by an earlier statement. -/
  closed : p.IsClosed
  /-- No operator needs parentheses. -/
  operators : ∀ s ∈ p, ∀ op l r, .binary op l r ∈ s.body.parts → Expression.Allows op l r

/-- **The canonical programs** are those that their text shows. -/
lemma isCanonical_iff {isName : String → Prop} {p : Program} :
    p.IsCanonical isName ↔ p.IsPrintable isName := by
  constructor
  · intro h
    have hstatement := fun s hs => Statement.isCanonical_iff.1 (h.statements s hs)
    have hparts := fun s hs => Expression.isCanonical_iff.1 (hstatement s hs).2
    exact {
      numbers := fun s hs x hx => hparts s hs _ hx
      names := fun s hs name hname => hparts s hs _ hname
      targets := fun s hs => (hstatement s hs).1
      closed := h.closed
      operators := fun s hs op l r hop => hparts s hs _ hop }
  · intro h
    refine ⟨fun s hs => Statement.isCanonical_iff.2 ⟨h.targets s hs, ?_⟩, h.closed⟩
    rw [Expression.isCanonical_iff]
    intro part hpart
    cases part with
    | number x => exact h.numbers s hs x hpart
    | identifier name => exact h.names s hs name hpart
    | unaryCall f a => trivial
    | binaryCall f a b => trivial
    | binary op l r => exact h.operators s hs op l r hpart

end Program

/-! ## Equal values -/

/-- Of two numbers with equal values both are finite or neither is. -/
lemma Binary64.isFinite_of_equal {x y : Binary64} (h : x.equal y) : x.isFinite = y.isFinite := by
  simp only [equal, Bool.and_eq_true, Bool.or_eq_true, decide_eq_true_eq] at h
  obtain ⟨-, rfl | ⟨hx, hy⟩⟩ := h
  · rfl
  · rw [isFinite, isFinite, hx, hy]

namespace Expression

variable {isName : String → Prop} {e e' : Expression}

/-- Expressions with equal values read the same names. -/
lemma names_of_equal (h : e.equal e') : e.names = e'.names := by
  fun_induction equal e e' with
  | case1 x y => rfl
  | case2 s t =>
    rw [of_decide_eq_true h]
  | case3 f a g b ih =>
    obtain ⟨-, hargument⟩ := Bool.and_eq_true_iff.1 h
    exact ih hargument
  | case4 f a b g c d iha ihb =>
    obtain ⟨h, hsecond⟩ := Bool.and_eq_true_iff.1 h
    obtain ⟨-, hfirst⟩ := Bool.and_eq_true_iff.1 h
    rw [names, names, iha hfirst, ihb hsecond]
  | case5 op a b op' c d iha ihb =>
    obtain ⟨h, hright⟩ := Bool.and_eq_true_iff.1 h
    obtain ⟨-, hleft⟩ := Bool.and_eq_true_iff.1 h
    rw [names, names, iha hleft, ihb hright]
  | case6 => exact absurd h Bool.false_ne_true

/-- The same operator stands outermost in both, if one does. -/
lemma rank_of_equal (h : e.equal e') : e.rank = e'.rank := by
  cases e <;> cases e' <;> simp only [equal, Bool.and_eq_true, decide_eq_true_eq,
    Bool.false_eq_true] at h <;> simp [rank, h]

/-- Expressions with equal values are canonical together. -/
lemma isCanonical_of_equal (h : e.equal e') (he : e.IsCanonical isName) :
    e'.IsCanonical isName := by
  fun_induction equal e e' with
  | case1 x y => exact (Binary64.isFinite_of_equal h).symm.trans he
  | case2 s t =>
    rw [← of_decide_eq_true h]
    exact he
  | case3 f a g b ih =>
    obtain ⟨-, hargument⟩ := Bool.and_eq_true_iff.1 h
    exact ih hargument he
  | case4 f a b g c d iha ihb =>
    obtain ⟨h, hsecond⟩ := Bool.and_eq_true_iff.1 h
    obtain ⟨-, hfirst⟩ := Bool.and_eq_true_iff.1 h
    exact ⟨iha hfirst he.1, ihb hsecond he.2⟩
  | case5 op a b op' c d iha ihb =>
    obtain ⟨h, hright⟩ := Bool.and_eq_true_iff.1 h
    obtain ⟨hop, hleft⟩ := Bool.and_eq_true_iff.1 h
    obtain ⟨hl, hr, hcanonical, hcanonical'⟩ := he
    rw [rank_of_equal hleft, of_decide_eq_true hop] at hl
    rw [rank_of_equal hright, of_decide_eq_true hop] at hr
    exact ⟨hl, hr, iha hleft hcanonical, ihb hright hcanonical'⟩
  | case6 => exact absurd h Bool.false_ne_true

end Expression

namespace Statement

variable {isName : String → Prop} {s t : Statement}

/-- Statements with equal values define the same name, if any. -/
lemma target?_of_equal (h : s.equal t) : s.target? = t.target? := by
  cases s <;> cases t <;> simp_all [equal, target?]

/-- Statements with equal values hold expressions with equal values. -/
lemma body_of_equal (h : s.equal t) : s.body.equal t.body := by
  cases s <;> cases t <;> simp_all [equal, body]

/-- Statements with equal values are canonical together. -/
lemma isCanonical_of_equal (h : s.equal t) (hs : s.IsCanonical isName) : t.IsCanonical isName := by
  rw [isCanonical_iff] at hs ⊢
  rw [← target?_of_equal h]
  exact ⟨hs.1, Expression.isCanonical_of_equal (body_of_equal h) hs.2⟩

end Statement

namespace Program

variable {isName : String → Prop} {p q : Program} {limit : NestingLimit} {read : Source.Reader}

/-- Programs with equal values read and define the same names. -/
lemma readsOnly_of_equal {known : String → Prop} (h : p.equal q) (hp : p.ReadsOnly known) :
    q.ReadsOnly known := by
  fun_induction equal p q generalizing known with
  | case1 => exact hp
  | case2 s p t q ih =>
    obtain ⟨hfirst, hothers⟩ := Bool.and_eq_true_iff.1 h
    rw [readsOnly_cons] at hp ⊢
    rw [← Expression.names_of_equal (Statement.body_of_equal hfirst),
      ← Statement.target?_of_equal hfirst]
    exact ⟨hp.1, ih hothers hp.2⟩
  | case3 => exact absurd h Bool.false_ne_true

/-- The statements of programs with equal values are canonical together. -/
lemma forall_isCanonical_of_equal (h : p.equal q) (hp : ∀ s ∈ p, s.IsCanonical isName) :
    ∀ s ∈ q, s.IsCanonical isName := by
  fun_induction equal p q with
  | case1 => exact hp
  | case2 s p t q ih =>
    obtain ⟨hfirst, hothers⟩ := Bool.and_eq_true_iff.1 h
    rw [List.forall_mem_cons] at hp ⊢
    exact ⟨Statement.isCanonical_of_equal hfirst hp.1, ih hothers hp.2⟩
  | case3 => exact absurd h Bool.false_ne_true

/-- **Programs with equal values are canonical together**: the sign of a zero does not matter. -/
lemma isCanonical_of_equal (h : p.equal q) (hp : p.IsCanonical isName) : q.IsCanonical isName :=
  ⟨forall_isCanonical_of_equal h hp.statements, readsOnly_of_equal h hp.closed⟩

/-! ## Reading the text again -/

/-- A difference on the right of a minus is read as one that is nested to the left. -/
example :
    let one : Expression := .number ⟨false, 0x3ff0000000000000, by decide⟩
    let p : Program := [.expression (.binary .minus one (.binary .minus one one))]
    Program.parse p.render .default Source.read =
      .ok [.expression (.binary .minus (.binary .minus one one) one)] := by
  decide +kernel

/-- Where its text is a defined name, infinity is read as that name. -/
example :
    let one : Expression := .number ⟨false, 0x3ff0000000000000, by decide⟩
    let infinity : Expression := .number ⟨false, Binary64.infinity, by decide⟩
    let p : Program := [.define "inf" one, .expression infinity]
    Program.parse p.render .default Source.read =
      .ok [.define "inf" one, .expression (.identifier "inf")] := by
  decide +kernel

end Program

end Abacus
