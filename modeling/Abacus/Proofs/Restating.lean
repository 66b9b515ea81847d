import Abacus.Json.Program
import Mathlib.Data.List.Forall2
import Mathlib.Data.List.Nodup
import Mathlib.Tactic.Lemma

set_option autoImplicit false

/-!
# Values that say the same

What is written for a program, a span or a fault fixes the keys of each object, and a reader looks
at these keys only. A value restates a written one when it is the written one up to members with
other keys, the order of members and the spelling of numbers that are not integers. The tag of a
part may moreover be the position of its form; which positions there are is a parameter, and without
any the tags are texts.

In an object without repeated keys the order does not matter, and what it restates is decided by
looking its members up.

## Main definitions

* `Abacus.Json.hasDistinctKeys` — no object in a value has a key twice.
* `Abacus.Json.Restates` — a value says what a written value says.

## Main results

* `Abacus.Json.restates_object_iff` — restating an object, by its members.
* `Abacus.Json.restates_tagged_iff` — restating a tagged object, by its tag and its members.
-/

namespace Abacus

namespace Json

/-- Whether a value is an object. -/
def isObject : Json → Bool
  | object _ => true
  | _ => false

/-! ## Distinct keys -/

mutual

/-- Whether no object in a value has a key twice. -/
def hasDistinctKeys : Json → Bool
  | array items => itemsHaveDistinctKeys items
  | object members => decide (members.map Prod.fst).Nodup && membersHaveDistinctKeys members
  | _ => true

/-- Whether no object in one of several values has a key twice. -/
def itemsHaveDistinctKeys : List Json → Bool
  | [] => true
  | j :: js => hasDistinctKeys j && itemsHaveDistinctKeys js

/-- Whether no object in the value of one of several members has a key twice. -/
def membersHaveDistinctKeys : List (String × Json) → Bool
  | [] => true
  | (_, j) :: ms => hasDistinctKeys j && membersHaveDistinctKeys ms

end

/-- Several values have no repeated keys if none of them has. -/
lemma itemsHaveDistinctKeys_iff {items : List Json} :
    itemsHaveDistinctKeys items ↔ ∀ j ∈ items, j.hasDistinctKeys := by
  induction items with
  | nil => simp [itemsHaveDistinctKeys]
  | cons j js ih => rw [itemsHaveDistinctKeys, Bool.and_eq_true, ih, List.forall_mem_cons]

/-- The same for the values of members. -/
lemma membersHaveDistinctKeys_iff {members : List (String × Json)} :
    membersHaveDistinctKeys members ↔ ∀ m ∈ members, m.2.hasDistinctKeys := by
  induction members with
  | nil => simp [membersHaveDistinctKeys]
  | cons m ms ih => rw [membersHaveDistinctKeys, Bool.and_eq_true, ih, List.forall_mem_cons]

/-- An object has no repeated keys if its own are distinct and none of its values has any. -/
lemma hasDistinctKeys_object_iff {members : List (String × Json)} :
    (object members).hasDistinctKeys ↔
      (members.map Prod.fst).Nodup ∧ ∀ m ∈ members, m.2.hasDistinctKeys := by
  rw [hasDistinctKeys, Bool.and_eq_true, decide_eq_true_eq, membersHaveDistinctKeys_iff]

/-- In members without repeated keys, what is found under a key is what stands under it. -/
lemma lookup_eq_some_iff_mem {members : List (String × Json)} (h : (members.map Prod.fst).Nodup)
    {key : String} {w : Json} : members.lookup key = some w ↔ (key, w) ∈ members := by
  induction members with
  | nil => simp
  | cons m ms ih =>
    obtain ⟨k, v⟩ := m
    rw [List.map_cons, List.nodup_cons] at h
    rw [List.lookup_cons, List.mem_cons, Prod.mk.injEq]
    cases hkey : key == k with
    | true =>
      obtain rfl := eq_of_beq hkey
      have hout : (key, w) ∉ ms := fun hmem => h.1 (List.mem_map.2 ⟨_, hmem, rfl⟩)
      simp only [Option.some.injEq, true_and, hout, or_false]
      exact eq_comm
    | false =>
      have hne : key ≠ k := ne_of_beq_false hkey
      simp only [hne, false_and, false_or]
      exact ih h.2

/-- **A member of a value without repeated keys** has none either. -/
lemma hasDistinctKeys_member? {j w : Json} {key : String} (hj : j.hasDistinctKeys)
    (h : j.member? key = some w) : w.hasDistinctKeys := by
  cases j with
  | object members =>
    rw [hasDistinctKeys_object_iff] at hj
    exact hj.2 _ ((lookup_eq_some_iff_mem hj.1).1 h)
  | _ => cases h

/-- What is asked of a member, but does not depend on it, is asked beside it. -/
lemma exists_member_iff_and {j : Json} {key : String} {P : Prop} {Q R : Json → Prop}
    (h : ∀ w, j.member? key = some w → (Q w ↔ P ∧ R w)) :
    (∃ w, j.member? key = some w ∧ Q w) ↔ P ∧ ∃ w, j.member? key = some w ∧ R w := by
  rw [← exists_and_left]
  refine exists_congr fun w => ?_
  rw [and_left_comm]
  exact and_congr_right fun hw => h w hw

/-! ## Names -/

/-- A name is read from a value that is no object exactly if it is the name as a text. -/
lemma choice?_bind_find?_eq_some_iff {α : Type} {all : List α} {name : α → String}
    {standing : Standing} {j : Json} {x : α} (hj : j.isObject = false)
    (hfind : all.find? (fun y => decide (name y = name x)) = some x) :
    ((j.choice? standing).bind fun s => all.find? fun y => decide (name y = s)) = some x ↔
      j = .string (name x) := by
  constructor
  · intro h
    obtain ⟨s, hs, hx⟩ := Option.bind_eq_some_iff.1 h
    have hname : name x = s := by simpa using List.find?_some hx
    subst hname
    cases j with
    | string t => rw [Option.some.inj hs]
    | object => cases hj
    | _ => cases hs
  · rintro rfl
    exact hfind

/-! ## Restating -/

mutual

/-- `Restates positions standing j k` says that `j` is `k` once the members that `k` does not have
are deleted from the objects of `j`, up to the order of members and the spelling of decimal numbers.
Where `j` is a part of a tagged object, its tag may be the position in `positions` of the tag of
`k`. -/
inductive Restates (positions : List String) : Standing → Json → Json → Prop
  /-- The empty value. -/
  | null {standing : Standing} : Restates positions standing .null .null
  /-- A truth value. -/
  | bool {standing : Standing} {b : Bool} : Restates positions standing (.bool b) (.bool b)
  /-- A text. -/
  | string {standing : Standing} {s : String} : Restates positions standing (.string s) (.string s)
  /-- An integer, which has one spelling. -/
  | integer {standing : Standing} {n : Numeral} (hn : n.isInteger = true) :
    Restates positions standing (.number n) (.number n)
  /-- Any number in the place of a decimal, with the same nearest binary number. -/
  | decimal {standing : Standing} {n m : Numeral} (hm : m.isInteger = false)
    (h : Binary64.ofDecimal n.negative n.decimal = Binary64.ofDecimal m.negative m.decimal) :
    Restates positions standing (.number n) (.number m)
  /-- Lists item by item. -/
  | array {standing : Standing} {js ks : List Json}
    (h : List.Forall₂ (Restates positions .alone) js ks) :
    Restates positions standing (.array js) (.array ks)
  /-- Objects member by member, in some order of the members with known keys. -/
  | object {standing : Standing} {members kept known : List (String × Json)}
    (hkept : (members.filter fun m => m.1 ∈ known.map Prod.fst).Perm kept)
    (h : MembersRestate positions standing kept known) :
    Restates positions standing (.object members) (.object known)

/-- Members that restate members with the same keys, row by row. -/
inductive MembersRestate (positions : List String) :
    Standing → List (String × Json) → List (String × Json) → Prop
  /-- No member. -/
  | nil {standing : Standing} : MembersRestate positions standing [] []
  /-- The values of two members. -/
  | cons {standing : Standing} {key : String} {j k : Json} {ms known : List (String × Json)}
    (h : Restates positions .part j k) (hs : MembersRestate positions standing ms known) :
    MembersRestate positions standing ((key, j) :: ms) ((key, k) :: known)
  /-- The position of a tag. -/
  | position {i : Nat} {tag : String} {ms known : List (String × Json)}
    (h : positions[i]? = some tag) (hs : MembersRestate positions .part ms known) :
    MembersRestate positions .part (("tag", .ofNat i) :: ms) (("tag", .string tag) :: known)

end

/-- The value of one member restates that of another with the same key: as a value, or as the
position of a tag. -/
def MemberRestates (positions : List String) (standing : Standing) (key : String) (j k : Json) :
    Prop :=
  Restates positions .part j k ∨ standing = .part ∧ key = "tag" ∧
    ∃ (i : Nat) (tag : String), positions[i]? = some tag ∧ j = .ofNat i ∧ k = .string tag

section Restates

variable {positions : List String} {standing : Standing} {j k : Json}

/-- The empty value is restated by itself only. -/
@[simp] lemma restates_null_iff : Restates positions standing j .null ↔ j = .null := by
  constructor
  · rintro ⟨⟩
    rfl
  · rintro rfl
    exact .null

/-- A text is restated by itself only. -/
@[simp] lemma restates_string_iff {s : String} :
    Restates positions standing j (.string s) ↔ j = .string s := by
  constructor
  · rintro ⟨⟩
    rfl
  · rintro rfl
    exact .string

/-- A natural number is restated by itself only, since it has one spelling. -/
@[simp] lemma restates_ofNat_iff {n : Nat} :
    Restates positions standing j (.ofNat n) ↔ j = .ofNat n := by
  constructor
  · intro h
    cases h with
    | integer => rfl
    | decimal hm => cases hm
  · rintro rfl
    exact .integer rfl

/-- A list is restated by a list, item by item. -/
lemma restates_array_iff {ks : List Json} : Restates positions standing j (.array ks) ↔
    ∃ js, j = .array js ∧ List.Forall₂ (Restates positions .alone) js ks := by
  constructor
  · rintro ⟨⟩
    exact ⟨_, rfl, by assumption⟩
  · rintro ⟨js, rfl, h⟩
    exact .array h

/-- No members are restated by none. -/
lemma membersRestate_nil_iff {kept : List (String × Json)} :
    MembersRestate positions standing kept [] ↔ kept = [] := by
  constructor
  · rintro ⟨⟩
    rfl
  · rintro rfl
    exact .nil

/-- A row of members is restated by a row with the same first key. -/
lemma membersRestate_cons_iff {kept known : List (String × Json)} {key : String} :
    MembersRestate positions standing kept ((key, k) :: known) ↔
      ∃ j ms, kept = (key, j) :: ms ∧ MemberRestates positions standing key j k ∧
        MembersRestate positions standing ms known := by
  constructor
  · intro h
    cases h with
    | cons h hs => exact ⟨_, _, rfl, .inl h, hs⟩
    | position h hs => exact ⟨_, _, rfl, .inr ⟨rfl, rfl, _, _, h, rfl, rfl⟩, hs⟩
  · rintro ⟨j, ms, rfl, h | ⟨rfl, rfl, i, tag, htag, rfl, rfl⟩, hs⟩
    · exact .cons h hs
    · exact .position htag hs

/-- Members that restate others have the same keys. -/
lemma MembersRestate.map_fst {kept known : List (String × Json)}
    (h : MembersRestate positions standing kept known) :
    kept.map Prod.fst = known.map Prod.fst := by
  induction known generalizing kept with
  | nil => rw [membersRestate_nil_iff.1 h]
  | cons l known ih =>
    obtain ⟨j, ms, rfl, -, hs⟩ := membersRestate_cons_iff.1 h
    rw [List.map_cons, List.map_cons, ih hs]

/-- Every known member is restated by one with its key. -/
lemma MembersRestate.exists_mem {kept known : List (String × Json)}
    (h : MembersRestate positions standing kept known) :
    ∀ l ∈ known, ∃ j, (l.1, j) ∈ kept ∧ MemberRestates positions standing l.1 j l.2 := by
  induction known generalizing kept with
  | nil => exact List.forall_mem_nil _
  | cons l known ih =>
    obtain ⟨j, ms, rfl, hvalue, hs⟩ := membersRestate_cons_iff.1 h
    refine List.forall_mem_cons.2 ⟨⟨j, List.mem_cons_self, hvalue⟩, fun l' hl' => ?_⟩
    obtain ⟨j', hj', hvalue'⟩ := ih hs l' hl'
    exact ⟨j', List.mem_cons_of_mem _ hj', hvalue'⟩

/-- Members that restate the known ones one by one stand together in a row. -/
lemma exists_membersRestate {members known : List (String × Json)}
    (h : ∀ l ∈ known, ∃ j, (l.1, j) ∈ members ∧ MemberRestates positions standing l.1 j l.2) :
    ∃ kept, (∀ m ∈ kept, m ∈ members) ∧ MembersRestate positions standing kept known := by
  induction known with
  | nil => exact ⟨[], List.forall_mem_nil _, .nil⟩
  | cons l known ih =>
    obtain ⟨⟨j, hj, hvalue⟩, hrest⟩ := List.forall_mem_cons.1 h
    obtain ⟨kept, hsub, hkept⟩ := ih hrest
    exact ⟨(l.1, j) :: kept, List.forall_mem_cons.2 ⟨hj, hsub⟩,
      membersRestate_cons_iff.2 ⟨j, kept, rfl, hvalue, hkept⟩⟩

/-- Members picked by their keys are all the members with these keys, in some order. -/
lemma filter_perm_of_subset {members kept : List (String × Json)} {keys : List String}
    (hmembers : (members.map Prod.fst).Nodup) (hkeys : keys.Nodup)
    (hkept : kept.map Prod.fst = keys) (hsub : ∀ m ∈ kept, m ∈ members) :
    (members.filter fun m => m.1 ∈ keys).Perm kept := by
  subst hkept
  rw [List.perm_ext_iff_of_nodup (hmembers.of_map.filter _) hkeys.of_map]
  intro m
  rw [List.mem_filter, decide_eq_true_eq]
  constructor
  · rintro ⟨hm, hkey⟩
    obtain ⟨l, hl, heq⟩ := List.mem_map.1 hkey
    obtain rfl := List.inj_on_of_nodup_map hmembers (hsub l hl) hm heq
    exact hl
  · intro hm
    exact ⟨hsub m hm, List.mem_map_of_mem hm⟩

/-- **Restating an object** is restating each of its members under its key: the order of members and
the members with other keys do not count.

**Proof sketch.** Restating says that the members with known keys are, in some order, a row that
restates the known members. Where no key is repeated, to stand in such a row under a key is to be
found under it; and the members that are found under the known keys, taken in the order of these
keys, are all members with known keys. -/
theorem restates_object_iff {known : List (String × Json)} (hj : j.hasDistinctKeys)
    (hknown : (known.map Prod.fst).Nodup) (hne : known ≠ []) :
    Restates positions standing j (.object known) ↔
      ∀ l ∈ known, ∃ w, j.member? l.1 = some w ∧ MemberRestates positions standing l.1 w l.2 := by
  constructor
  · intro h
    cases h with
    | object hkept h =>
      rw [hasDistinctKeys_object_iff] at hj
      intro l hl
      obtain ⟨w, hw, hvalue⟩ := h.exists_mem l hl
      exact ⟨w, (lookup_eq_some_iff_mem hj.1).2 (List.mem_filter.1 (hkept.mem_iff.2 hw)).1, hvalue⟩
  · intro h
    obtain ⟨l, hl⟩ := List.exists_mem_of_ne_nil known hne
    cases j with
    | object members =>
      rw [hasDistinctKeys_object_iff] at hj
      have hmem : ∀ l ∈ known, ∃ w, (l.1, w) ∈ members ∧
          MemberRestates positions standing l.1 w l.2 := by
        intro l hl
        obtain ⟨w, hw, hvalue⟩ := h l hl
        exact ⟨w, (lookup_eq_some_iff_mem hj.1).1 hw, hvalue⟩
      -- Without repeated keys these members are all that the filter leaves.
      obtain ⟨kept, hsub, hkept⟩ := exists_membersRestate hmem
      exact .object (filter_perm_of_subset hj.1 hknown hkept.map_fst hsub) hkept
    | _ =>
      obtain ⟨w, hw, -⟩ := h l hl
      cases hw

/-- A member that is no tag is restated as a value. -/
lemma memberRestates_iff_of_ne {key : String} (h : key ≠ "tag") :
    MemberRestates positions standing key j k ↔ Restates positions .part j k := by
  rw [MemberRestates, or_iff_left]
  rintro ⟨-, rfl, -⟩
  exact h rfl

/-- Apart from the tag, members are restated as values. -/
lemma forall_memberRestates_iff {known : List (String × Json)} (htag : "tag" ∉ known.map Prod.fst) :
    (∀ l ∈ known, ∃ w, j.member? l.1 = some w ∧ MemberRestates positions standing l.1 w l.2) ↔
      ∀ l ∈ known, ∃ w, j.member? l.1 = some w ∧ Restates positions .part w l.2 := by
  refine forall₂_congr fun l hl => ?_
  have hkey : l.1 ≠ "tag" := fun h => htag (h ▸ List.mem_map_of_mem hl)
  simp only [memberRestates_iff_of_ne hkey]

/-- Restating an object without a tag. -/
theorem restates_untagged_iff {known : List (String × Json)} (hj : j.hasDistinctKeys)
    (hknown : (known.map Prod.fst).Nodup) (hne : known ≠ []) (htag : "tag" ∉ known.map Prod.fst) :
    Restates positions standing j (.object known) ↔
      ∀ l ∈ known, ∃ w, j.member? l.1 = some w ∧ Restates positions .part w l.2 := by
  rw [restates_object_iff hj hknown hne, forall_memberRestates_iff htag]

/-! ## Tags -/

/-- An unsigned integer of 64 bits is read from itself only. -/
lemma word?_eq_some_iff {n : Nat} : j.word? = some n ↔ j = .ofNat n ∧ n < Nat.pow 2 64 := by
  constructor
  · intro h
    unfold word? at h
    split at h
    · split at h
      · obtain rfl := Option.some.inj h
        exact ⟨rfl, by assumption⟩
      · cases h
    · cases h
  · rintro ⟨rfl, h⟩
    exact if_pos h

/-- Of an object that stands alone the tag is a text. -/
lemma tag?_alone : j.tag? .alone positions = j.text? "tag" := by
  rw [tag?, text?]
  cases j.member? "tag" with
  | none => rfl
  | some w => cases w <;> rfl

/-- A text is read from itself only. -/
lemma string?_eq_some_iff {s : String} : j.string? = some s ↔ j = .string s := by
  cases j <;> simp [string?]

/-- What restates a tag is what it is read from. -/
lemma memberRestates_tag_iff {tag : String} (hpositions : positions.length ≤ Nat.pow 2 64) :
    (∃ w, j.member? "tag" = some w ∧ MemberRestates positions standing "tag" w (.string tag)) ↔
      j.tag? standing positions = some tag := by
  rw [tag?]
  cases hw : j.member? "tag" with
  | none => simp
  | some w =>
    simp only [Option.some.injEq, exists_eq_left', Option.bind_eq_bind, Option.bind_some,
      MemberRestates, restates_string_iff, true_and]
    cases hs : w.string? with
    | some s =>
      obtain rfl := string?_eq_some_iff.1 hs
      simp [ofNat]
    | none =>
      have hne : w ≠ .string tag := by
        rintro rfl
        cases hs
      cases standing with
      | alone => simp [hne]
      | part =>
        simp only [hne, false_or, true_and, string.injEq, Option.bind_eq_some_iff,
          word?_eq_some_iff]
        constructor
        · rintro ⟨i, _, hi, rfl, rfl⟩
          have := (List.getElem?_eq_some_iff.1 hi).1
          exact ⟨i, ⟨rfl, by omega⟩, hi⟩
        · rintro ⟨i, ⟨rfl, -⟩, hi⟩
          exact ⟨i, tag, hi, rfl, rfl⟩

/-- **Restating a tagged object** is having its tag, as the reader sees it, and restating its other
members. -/
theorem restates_tagged_iff {tag : String} {known : List (String × Json)} (hj : j.hasDistinctKeys)
    (hknown : (known.map Prod.fst).Nodup) (htag : "tag" ∉ known.map Prod.fst)
    (hpositions : positions.length ≤ Nat.pow 2 64) :
    Restates positions standing j (.tagged tag known) ↔ j.tag? standing positions = some tag ∧
      ∀ l ∈ known, ∃ w, j.member? l.1 = some w ∧ Restates positions .part w l.2 := by
  have hall : ((("tag", string tag) :: known).map Prod.fst).Nodup :=
    List.nodup_cons.2 ⟨htag, hknown⟩
  rw [tagged, restates_object_iff hj hall (List.cons_ne_nil _ _), List.forall_mem_cons,
    memberRestates_tag_iff hpositions, forall_memberRestates_iff htag]

end Restates

end Json

end Abacus
