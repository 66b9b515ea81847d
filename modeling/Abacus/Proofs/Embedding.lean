import Abacus.Proofs.Correspondence
import Abacus.Proofs.FaultPlaces

set_option autoImplicit false

/-!
# Programs inside a larger text

A source may be a piece of a larger text. When everything in its tree is moved to the place of the
piece, the tree is lowered to the same program, or refused with the same fault, and only the place
of the fault is moved too. This needs that every piece of the source that a node names is the same
piece of the larger text, and that what names no piece of the source names none of the larger text.

## Main definitions

* `Abacus.Text.CutsCharacter` — a position inside a character.
* `Abacus.Tree.shift`, `Abacus.Fault.shift` — a tree and a fault moved to the right.

## Main results

* `Abacus.Text.slice_shift` — a piece of the middle of three texts.
* `Abacus.Tree.isCorrespondence_shift` — lowering cannot tell a tree from the moved one.
* `Abacus.Tree.breakFault?_shift` — the fault of a tree with a break moves along.
* `Abacus.Program.lowering_moves_along` — the outcome for the moved tree over the larger text.
-/

namespace Abacus

namespace Text

/-! ## Pieces of a larger text -/

variable {n m start stop : Nat} {s t r : List Char}

/-- What is dropped and what is left have together the size of the text. -/
lemma byteSize_of_dropBytes? (h : dropBytes? n s = some r) : n + byteSize r = byteSize s := by
  fun_induction dropBytes? n s with
  | case1 s =>
    obtain rfl := Option.some.inj h
    exact Nat.zero_add _
  | case2 n => simp at h
  | case3 n c s hle ih =>
    have := ih h
    rw [byteSize_cons]
    omega
  | case4 n c s hle => simp at h

/-- What follows a position of a text is followed by what follows the text. -/
lemma dropBytes?_append_of_le (h : n ≤ byteSize s) (t : List Char) :
    dropBytes? n (s ++ t) = (dropBytes? n s).map (· ++ t) := by
  fun_induction dropBytes? n s with
  | case1 s => simp
  | case2 n => simp at h
  | case3 n c s hle ih =>
    rw [byteSize_cons] at h
    rw [List.cons_append, dropBytes?, if_pos hle, ih (by omega)]
  | case4 n c s hle =>
    rw [List.cons_append, dropBytes?, if_neg hle]
    rfl

/-- The beginning of a text is that of all that starts with it. -/
lemma takeBytes?_append_of_le (h : n ≤ byteSize s) (t : List Char) :
    takeBytes? n (s ++ t) = takeBytes? n s := by
  fun_induction takeBytes? n s with
  | case1 s => simp
  | case2 n => simp at h
  | case3 n c s hle ih =>
    rw [byteSize_cons] at h
    rw [List.cons_append, takeBytes?, if_pos hle, ih (by omega)]
  | case4 n c s hle => rw [List.cons_append, takeBytes?, if_neg hle]

/-- **A piece of the middle of three texts** is named by the positions of the piece, moved by the
first text, whether it is a piece or none. -/
lemma slice?_shift (before after : List Char) (h : stop ≤ byteSize s) :
    slice? (start + byteSize before) (stop + byteSize before) (before ++ s ++ after) =
      slice? start stop s := by
  unfold slice?
  by_cases hle : start ≤ stop
  · rw [if_pos (Nat.add_le_add_right hle _), if_pos hle, List.append_assoc, Nat.add_comm start,
      dropBytes?_append, dropBytes?_append_of_le (by omega)]
    cases hdrop : dropBytes? start s with
    | none => rfl
    | some r =>
      have hsize := byteSize_of_dropBytes? hdrop
      have hlength : stop + byteSize before - (byteSize before + start) = stop - start := by omega
      rw [Option.map_some, Option.bind_some, Option.bind_some, hlength,
        takeBytes?_append_of_le (by omega)]
  · rw [if_neg (by omega), if_neg hle]

/-- **A piece of a text** is the piece of the larger text that lies as much further on. -/
lemma slice_shift (before after : List Char) (h : stop ≤ byteSize s) :
    slice (start + byteSize before) (stop + byteSize before) (before ++ s ++ after) =
      slice start stop s := by
  rw [slice, slice, slice?_shift before after h]

/-- A position of a text is inside one of its characters. -/
def CutsCharacter (n : Nat) (s : List Char) : Prop :=
  ∃ before c after, s = before ++ c :: after ∧ byteSize before < n ∧
    n < byteSize before + c.utf8Size

/-- Nothing follows a position inside a character. -/
lemma CutsCharacter.dropBytes?_eq_none (h : CutsCharacter n s) : dropBytes? n s = none := by
  obtain ⟨before, c, after, rfl, hlow, hhigh⟩ := h
  obtain ⟨k, rfl⟩ : ∃ k, n = byteSize before + (k + 1) := ⟨n - byteSize before - 1, by omega⟩
  rw [dropBytes?_append, dropBytes?, if_neg (by omega)]

/-- To drop bytes twice is to drop as many at once. -/
lemma dropBytes?_add (h : dropBytes? n s = some r) : dropBytes? (n + m) s = dropBytes? m r := by
  fun_induction dropBytes? n s with
  | case1 s =>
    obtain rfl := Option.some.inj h
    rw [Nat.zero_add]
  | case2 n => simp at h
  | case3 n c s hle ih =>
    obtain ⟨k, hk⟩ : ∃ k, n + 1 = c.utf8Size + k := ⟨n + 1 - c.utf8Size, by omega⟩
    have hrest : n + 1 - c.utf8Size = k := by omega
    rw [hrest] at h ih
    rw [Nat.succ_eq_add_one, hk, Nat.add_assoc, dropBytes?_cons, ih h]
  | case4 n c s hle => simp at h

/-- A position that ends a beginning of a text also starts a rest of it. -/
lemma dropBytes?_of_takeBytes? (h : takeBytes? n s = some r) : ∃ t, dropBytes? n s = some t := by
  fun_induction takeBytes? n s generalizing r with
  | case1 s => exact ⟨s, dropBytes?_zero s⟩
  | case2 n => simp at h
  | case3 n c s hle ih =>
    obtain ⟨r', hr', -⟩ := Option.map_eq_some_iff.1 h
    obtain ⟨t, ht⟩ := ih hr'
    exact ⟨t, by rw [dropBytes?, if_pos hle, ht]⟩
  | case4 n c s hle => simp at h

/-- Both ends of a piece are positions between characters. -/
lemma dropBytes?_of_slice? (h : slice? start stop s = some r) :
    (∃ t, dropBytes? start s = some t) ∧ ∃ t, dropBytes? stop s = some t := by
  unfold slice? at h
  split at h
  · next hle =>
    obtain ⟨rest, hdrop, htake⟩ := Option.bind_eq_some_iff.1 h
    obtain ⟨t, ht⟩ := dropBytes?_of_takeBytes? htake
    rw [← dropBytes?_add hdrop, Nat.add_sub_cancel' hle] at ht
    exact ⟨⟨rest, hdrop⟩, t, ht⟩
  · simp at h

/-- **Positions inside a character name nothing**: a piece with such an end is empty. -/
lemma slice_of_cutsCharacter (h : CutsCharacter start s ∨ CutsCharacter stop s) :
    slice start stop s = [] := by
  have hnone : slice? start stop s = none := by
    rw [Option.eq_none_iff_forall_not_mem]
    intro r hr
    obtain ⟨⟨t, ht⟩, t', ht'⟩ := dropBytes?_of_slice? hr
    rcases h with h | h
    · simp [h.dropBytes?_eq_none] at ht
    · simp [h.dropBytes?_eq_none] at ht'
  rw [slice, hnone, Option.getD_none]

end Text

/-! ## Moved trees and faults -/

/-- The fault moved `n` bytes to the right. -/
def Fault.shift (n : Nat) : Fault → Fault
  | undefinedName name span => undefinedName name (span.shift n)
  | refused kind span snippet => refused kind (span.shift n) snippet

/-- The label of a node that is moved `n` bytes to the right. -/
def Label.shift (n : Nat) (l : Label) : Label := { l with span := l.span.shift n }

/-- Outcomes whose faults are moved along. -/
lemma Corresponds.eq_mapError {α : Type} {n : Nat} {r r' : Except Fault α}
    (h : Corresponds (fun fault fault' => fault' = fault.shift n) r r') :
    r' = r.mapError (Fault.shift n) := by
  cases h with
  | ok a => rfl
  | error h => rw [h]; rfl

namespace Tree

mutual

/-- A tree with every node in it moved `n` bytes to the right. -/
def shift (n : Nat) : Tree → Tree
  | node l cs => node (l.shift n) (shiftAll n cs)

/-- A row of trees moved `n` bytes to the right. -/
def shiftAll (n : Nat) : List Tree → List Tree
  | [] => []
  | t :: ts => shift n t :: shiftAll n ts

end

variable {n : Nat} {source before after : List Char} {t c : Tree}

/-- A row is moved by moving its trees. -/
lemma shiftAll_eq (n : Nat) (ts : List Tree) : shiftAll n ts = ts.map (shift n) := by
  induction ts with
  | nil => rfl
  | cons t ts ih => rw [shiftAll, ih, List.map_cons]

/-- The label of a moved tree is the moved label. -/
@[simp] lemma label_shift (n : Nat) (t : Tree) : (t.shift n).label = t.label.shift n := by
  cases t
  rfl

/-- The children of a moved tree are the moved children. -/
lemma children_shift (n : Nat) (t : Tree) : (t.shift n).children = t.children.map (shift n) := by
  obtain ⟨l, cs⟩ := t
  exact shiftAll_eq n cs

/-- The span of a moved tree is the moved span. -/
@[simp] lemma span_shift (n : Nat) (t : Tree) : (t.shift n).span = t.span.shift n :=
  congrArg Label.span (label_shift n t)

/-- An extra stays an extra. -/
@[simp] lemma isExtra_shift (n : Nat) (t : Tree) : (t.shift n).isExtra = t.isExtra := by
  rw [isExtra, label_shift, Label.shift, isExtra]

/-- A node keeps its kind. -/
@[simp] lemma kind_shift (n : Nat) (t : Tree) : (t.shift n).kind = t.kind := by
  rw [kind, label_shift, Label.shift, Label.kind, kind, Label.kind]

/-- Extras stay extras, and all others stay what they are. -/
lemma regular_shift (n : Nat) (t : Tree) : (t.shift n).regular = t.regular.map (shift n) := by
  rw [regular, children_shift, List.filter_map, regular]
  congr 2
  funext c
  exact congrArg not (isExtra_shift n c)

/-- The nodes whose texts decide are moved along. -/
lemma deciding_shift (n : Nat) (t : Tree) : (t.shift n).deciding = t.deciding.map (shift n) := by
  unfold deciding
  rw [kind_shift, regular_shift]
  split <;> simp [List.map_take]

/-- The nodes whose texts decide are the node itself and its children. -/
lemma mem_preorder_of_mem_deciding (hc : c ∈ t.deciding) : c ∈ t.preorder := by
  suffices h : c = t ∨ c ∈ t.regular by
    rcases h with rfl | h
    · exact mem_preorder_self c
    · exact mem_preorder_of_mem_regular (mem_preorder_self t) h
  unfold deciding at hc
  split at hc
  · exact Or.inl (List.mem_singleton.1 hc)
  · exact Or.inl (List.mem_singleton.1 hc)
  · exact Or.inl (List.mem_singleton.1 hc)
  · exact (List.mem_cons.1 hc).imp_right List.mem_of_mem_take
  · exact Or.inr (List.mem_of_mem_take hc)
  · exact Or.inr (List.mem_of_mem_drop (List.mem_of_mem_take hc))
  · simp at hc

/-- No node of a tree ends after the source does. -/
def LiesWithin (source : List Char) (t : Tree) : Prop :=
  ∀ n ∈ t.preorder, n.span.stop ≤ Text.byteSize source

instance (source : List Char) (t : Tree) : Decidable (t.LiesWithin source) :=
  inferInstanceAs (Decidable (∀ n ∈ t.preorder, n.span.stop ≤ Text.byteSize source))

/-- If a tree lies within a source, so do its subtrees. -/
lemma LiesWithin.of_mem (h : t.LiesWithin source) (hc : c ∈ t.preorder) : c.LiesWithin source :=
  fun n hn => h n (preorder_subset hc hn)

/-- **The text of a moved node** in the larger text is the text of the node. -/
lemma text_shift (before after : List Char) (h : t.LiesWithin source) :
    (t.shift (Text.byteSize before)).text (before ++ source ++ after) = t.text source := by
  rw [text, text, span_shift]
  exact congrArg String.ofList (Text.slice_shift before after (h t (mem_preorder_self t)))

/-! ## Lowering moved trees -/

/-- **Lowering cannot tell a tree from the moved one** over the larger text. -/
lemma isCorrespondence_shift (before source after : List Char) :
    IsCorrespondence source (before ++ source ++ after)
      (fun fault fault' => fault' = fault.shift (Text.byteSize before))
      fun t t' => t' = t.shift (Text.byteSize before) ∧ t.LiesWithin source where
  kind_eq := by
    rintro t t' ⟨rfl, -⟩
    exact (kind_shift _ t).symm
  regular := by
    rintro t t' ⟨rfl, hwithin⟩
    rw [regular_shift, List.forall₂_map_right_iff]
    apply List.forall₂_same.2
    intro c hc
    exact ⟨rfl, hwithin.of_mem (mem_preorder_of_mem_regular (mem_preorder_self t) hc)⟩
  texts_eq := by
    rintro t t' ⟨rfl, hwithin⟩
    rw [deciding_shift, List.map_map]
    apply List.map_congr_left
    intro c hc
    exact (text_shift before after (hwithin.of_mem (mem_preorder_of_mem_deciding hc))).symm
  fault := by
    rintro t t' ⟨rfl, hwithin⟩ kind
    rw [fault, text_shift before after hwithin, span_shift]
    rfl
  undefinedName := by
    rintro t t' ⟨rfl, hwithin⟩ -
    rw [text_shift before after hwithin, span_shift]
    rfl

/-! ## Breaks in moved trees -/

mutual

/-- The first break of a moved tree is that of the tree. -/
lemma firstBreak?_shift (n : Nat) : ∀ t : Tree,
    (t.shift n).firstBreak? = t.firstBreak?.map (shift n)
  | node l cs => by
    have hrow := firstBreakAmong?_shiftAll n cs
    have hbreak : (l.shift n).isBreak = l.isBreak := rfl
    have hflag : (l.shift n).hasError = l.hasError := rfl
    rw [shift, firstBreak?, firstBreak?, hbreak, hflag, hrow]
    split_ifs <;> rfl

/-- The same for a row of trees. -/
lemma firstBreakAmong?_shiftAll (n : Nat) : ∀ ts : List Tree,
    firstBreakAmong? (shiftAll n ts) = (firstBreakAmong? ts).map (shift n)
  | [] => rfl
  | t :: ts => by
    rw [shiftAll, firstBreakAmong?, firstBreakAmong?, firstBreak?_shift n t,
      firstBreakAmong?_shiftAll n ts, Option.map_or]

end

mutual

/-- The first break is a node of the tree, whatever the flags are. -/
lemma mem_preorder_of_firstBreak? : ∀ {t b : Tree}, t.firstBreak? = some b → b ∈ t.preorder
  | node l cs, b, h => by
    rw [firstBreak?] at h
    split_ifs at h
    · rw [← Option.some.inj h]
      exact mem_preorder_self _
    · exact List.mem_cons_of_mem _ (mem_preorderAll_of_firstBreakAmong? h)

/-- The same for a row of trees. -/
lemma mem_preorderAll_of_firstBreakAmong? : ∀ {ts : List Tree} {b : Tree},
    firstBreakAmong? ts = some b → b ∈ preorderAll ts
  | t :: ts, b, h => by
    rw [firstBreakAmong?, Option.or_eq_some_iff] at h
    rw [preorderAll, List.mem_append]
    rcases h with h | ⟨-, h⟩
    · exact Or.inl (mem_preorder_of_firstBreak? h)
    · exact Or.inr (mem_preorderAll_of_firstBreakAmong? h)

end

/-- What is quoted of a break stays the same. -/
lemma breakSnippet_shift (before after : List Char) (h : t.LiesWithin source) :
    breakSnippet (before ++ source ++ after) (t.shift (Text.byteSize before)) =
      breakSnippet source t := by
  have hstop : t.span.stop ≤ Text.byteSize source := h t (mem_preorder_self t)
  rw [breakSnippet, breakSnippet, label_shift, span_shift, Span.shift,
    Text.slice_shift before after hstop]
  rfl

/-- **The fault of a tree with a break moves along.** -/
lemma breakFault?_shift (before after : List Char) (h : t.LiesWithin source) :
    (t.shift (Text.byteSize before)).breakFault? (before ++ source ++ after) =
      (t.breakFault? source).map (Fault.shift (Text.byteSize before)) := by
  have hflag : (t.shift (Text.byteSize before)).label.hasError = t.label.hasError := by
    rw [label_shift, Label.shift]
  rw [breakFault?, breakFault?, hflag, firstBreak?_shift]
  split_ifs
  · cases hbreak : t.firstBreak? with
    | none => rfl
    | some b =>
      have hsnippet := breakSnippet_shift before after
        (h.of_mem (mem_preorder_of_firstBreak? hbreak))
      rw [Option.map_some, Option.map_some, Option.map_some, hsnippet, span_shift]
      rfl
  · rfl

end Tree

namespace Program

/-- With any number of levels, none among them, the outcome for the moved tree is the outcome for
the tree with its fault moved along. -/
lemma ofTreeUpTo_shift {tree : Tree} {text : String} (before after : String) (levels : Nat)
    (h : tree.LiesWithin text.toList) :
    ofTreeUpTo (tree.shift (Text.byteSize before.toList)) (before ++ text ++ after) levels =
      (ofTreeUpTo tree text levels).mapError (Fault.shift (Text.byteSize before.toList)) := by
  have hsource :
      (before ++ text ++ after).toList = before.toList ++ text.toList ++ after.toList := by
    rw [String.toList_append, String.toList_append]
  have hbreak := Tree.breakFault?_shift before.toList after.toList h
  cases hfault : tree.breakFault? text.toList with
  | some fault =>
    rw [ofTreeUpTo, ofTreeUpTo, hsource, hbreak, hfault]
    rfl
  | none =>
    rw [hfault, Option.map_none, ← hsource] at hbreak
    rw [ofTreeUpTo_eq hfault, ofTreeUpTo_eq hbreak, hsource]
    have hmoved := Tree.isCorrespondence_shift before.toList text.toList after.toList
    exact (hmoved.program ⟨rfl, h⟩).1.eq_mapError

/-- **Lowering moves along with a program inside a larger text.** For every tree none of whose nodes
ends after its source does, and for everything that may stand before and after the source: over the
whole, the tree moved to its place is lowered to the same program, or refused with the same fault,
moved along too, whether lowering refuses it or the grammar did. What starts or ends inside a
character has no text, neither over the source nor over the whole.

**Proof sketch.** A tree and the moved tree correspond, since a node that lies within the source has
the same text when both are moved (`Abacus.Tree.text_shift`) and a fault names its node. The first
break moves along with its node, and so does its fault. A position inside a character starts or ends
no piece, whatever stands around the source. -/
theorem lowering_moves_along (tree : Tree) (before text after : String)
    (h : tree.LiesWithin text.toList) :
    let size := Text.byteSize before.toList
    let whole := before ++ text ++ after
    (∀ levels, ofTreeUpTo (tree.shift size) whole levels =
      (ofTreeUpTo tree text levels).mapError (Fault.shift size)) ∧
    (∀ limit, ofTree (tree.shift size) whole limit =
      (ofTree tree text limit).mapError (Fault.shift size)) ∧
    ∀ n ∈ tree.preorder,
      Text.CutsCharacter n.span.start text.toList ∨ Text.CutsCharacter n.span.stop text.toList →
        n.text text.toList = "" ∧ (n.shift size).text whole.toList = "" := by
  refine ⟨fun levels => ofTreeUpTo_shift before after levels h, fun limit => ?_,
    fun n hn hcut => ?_⟩
  · rw [ofTree_eq_ofTreeUpTo, ofTree_eq_ofTreeUpTo, ofTreeUpTo_shift before after _ h]
  · have hempty : n.text text.toList = "" := by
      rw [Tree.text, Text.slice_of_cutsCharacter hcut]
    refine ⟨hempty, ?_⟩
    rw [String.toList_append, String.toList_append, Tree.text_shift _ _ (h.of_mem hn), hempty]

/-- The source `é=ß` uses a name that is not defined, and a comment in its tree starts inside a
character; in the source `(1` a parenthesis is missing. With something of three bytes before them
and something after them both faults are three bytes further on. -/
theorem lowering_moves_along_three_bytes :
    let comment : Tree := .node ⟨"comment", ⟨4, 5⟩, true, false, false, false⟩ []
    let undefined : Tree := .node (.plain "module" ⟨0, 5⟩)
      [.node (.plain "expression_statement" ⟨0, 5⟩)
        [.node (.plain "assignment" ⟨0, 5⟩)
          [.leaf "identifier" ⟨0, 2⟩, .leaf "=" ⟨2, 3⟩, .leaf "identifier" ⟨3, 5⟩]],
        comment]
    let broken : Tree := .node ⟨"module", ⟨0, 2⟩, false, false, false, true⟩
      [.leaf "(" ⟨0, 1⟩, .leaf "integer" ⟨1, 2⟩, .node ⟨")", ⟨2, 2⟩, false, false, true, true⟩ []]
    undefined.LiesWithin "é=ß".toList ∧ broken.LiesWithin "(1".toList ∧
      ofTreeUpTo undefined "é=ß" 3 = .error (.undefinedName "ß" ⟨3, 5⟩) ∧
      ofTreeUpTo (undefined.shift 3) ("ü;" ++ "é=ß" ++ "#ö") 3 =
        .error (.undefinedName "ß" ⟨6, 8⟩) ∧
      comment ∈ undefined.preorder ∧ Text.CutsCharacter 4 "é=ß".toList ∧
      (comment.shift 3).text ("ü;" ++ "é=ß" ++ "#ö").toList = "" ∧
      ofTree broken "(1" .default = .error (.refused .brokenSource ⟨2, 2⟩ "missing )") ∧
      ofTree (broken.shift 3) ("ü;" ++ "(1" ++ "#ö") .default =
        .error (.refused .brokenSource ⟨5, 5⟩ "missing )") := by
  intro comment undefined broken
  have hundefined : undefined.LiesWithin "é=ß".toList := by decide +kernel
  have hbroken : broken.LiesWithin "(1".toList := by decide +kernel
  have hname : ofTreeUpTo undefined "é=ß" 3 = .error (.undefinedName "ß" ⟨3, 5⟩) := by
    decide +kernel
  have hmissing : ofTree broken "(1" .default =
      .error (.refused .brokenSource ⟨2, 2⟩ "missing )") := by
    decide +kernel
  have hcomment : comment ∈ undefined.preorder := by
    simp [undefined, comment, Tree.preorder, Tree.preorderAll]
  have hcut : Text.CutsCharacter 4 "é=ß".toList := ⟨['é', '='], 'ß', [], rfl, by decide, by decide⟩
  obtain ⟨hlevels, -, htext⟩ := lowering_moves_along undefined "ü;" "é=ß" "#ö" hundefined
  obtain ⟨-, hlimit, -⟩ := lowering_moves_along broken "ü;" "(1" "#ö" hbroken
  refine ⟨hundefined, hbroken, hname, ?_, hcomment, hcut, (htext comment hcomment (Or.inl hcut)).2,
    hmissing, ?_⟩
  · exact (hlevels 3).trans (by rw [hname]; rfl)
  · exact (hlimit .default).trans (by rw [hmissing]; rfl)

end Program

end Abacus
