set_option autoImplicit false

/-!
# Text addressed by bytes

A source text is a list of characters, and positions in it count the bytes of its UTF-8 form. A
pair of positions names a piece of the text only where both fall between two characters; every
other pair names the empty text.

## Main definitions

* `Abacus.Text.byteSize` — the number of bytes of a text.
* `Abacus.Text.dropBytes?`, `Abacus.Text.takeBytes?` — the text after and before a byte position.
* `Abacus.Text.slice` — the piece between two byte positions.

## Main results

* `Abacus.Text.slice_append` — the middle of three texts is the slice between its two ends.
-/

namespace Abacus.Text

/-- The number of bytes of the UTF-8 form of a text. -/
def byteSize : List Char → Nat
  | [] => 0
  | c :: cs => c.utf8Size + byteSize cs

/-- What follows the first `n` bytes; `none` where `n` is past the end or inside a character. -/
def dropBytes? : Nat → List Char → Option (List Char)
  | 0, cs => some cs
  | _ + 1, [] => none
  | n + 1, c :: cs => if c.utf8Size ≤ n + 1 then dropBytes? (n + 1 - c.utf8Size) cs else none

/-- The first `n` bytes; `none` where `n` is past the end or inside a character. -/
def takeBytes? : Nat → List Char → Option (List Char)
  | 0, _ => some []
  | _ + 1, [] => none
  | n + 1, c :: cs =>
    if c.utf8Size ≤ n + 1 then (takeBytes? (n + 1 - c.utf8Size) cs).map (c :: ·) else none

/-- The text from byte `start` up to byte `stop`; `none` where the positions are in the wrong
order, past the end, or inside a character. -/
def slice? (start stop : Nat) (text : List Char) : Option (List Char) :=
  if start ≤ stop then (dropBytes? start text).bind (takeBytes? (stop - start)) else none

/-- The text from byte `start` up to byte `stop`, empty where the two positions name no piece. -/
def slice (start stop : Nat) (text : List Char) : List Char :=
  (slice? start stop text).getD []

/-! ## Positions at the ends of a text -/

/-- No characters take no bytes. -/
@[simp] theorem byteSize_nil : byteSize [] = 0 := rfl

/-- The first character adds its bytes to those of the others. -/
@[simp] theorem byteSize_cons (c : Char) (cs : List Char) :
    byteSize (c :: cs) = c.utf8Size + byteSize cs := rfl

/-- The bytes of two texts in a row add up. -/
@[simp] theorem byteSize_append (s t : List Char) :
    byteSize (s ++ t) = byteSize s + byteSize t := by
  induction s with
  | nil => simp
  | cons c s ih => simp [ih, Nat.add_assoc]

/-- Dropping no bytes leaves the text. -/
@[simp] theorem dropBytes?_zero (cs : List Char) : dropBytes? 0 cs = some cs := by
  cases cs <;> rfl

/-- Taking no bytes takes nothing. -/
@[simp] theorem takeBytes?_zero (cs : List Char) : takeBytes? 0 cs = some [] := by
  cases cs <;> rfl

/-- A positive step over a first character uses up its bytes. -/
theorem dropBytes?_cons (c : Char) (cs : List Char) (n : Nat) :
    dropBytes? (c.utf8Size + n) (c :: cs) = dropBytes? n cs := by
  obtain ⟨k, hk⟩ : ∃ k, c.utf8Size + n = k + 1 :=
    ⟨c.utf8Size + n - 1, by have := c.utf8Size_pos; omega⟩
  rw [hk, dropBytes?, if_pos (by omega)]
  congr 1
  omega

/-- A positive step that takes a first character uses up its bytes. -/
theorem takeBytes?_cons (c : Char) (cs : List Char) (n : Nat) :
    takeBytes? (c.utf8Size + n) (c :: cs) = (takeBytes? n cs).map (c :: ·) := by
  obtain ⟨k, hk⟩ : ∃ k, c.utf8Size + n = k + 1 :=
    ⟨c.utf8Size + n - 1, by have := c.utf8Size_pos; omega⟩
  rw [hk, takeBytes?, if_pos (by omega)]
  congr 2
  omega

/-- Dropping the bytes of a first part leaves the rest. -/
theorem dropBytes?_append (s t : List Char) (n : Nat) :
    dropBytes? (byteSize s + n) (s ++ t) = dropBytes? n t := by
  induction s with
  | nil => simp
  | cons c s ih => rw [List.cons_append, byteSize_cons, Nat.add_assoc, dropBytes?_cons, ih]

/-- Taking the bytes of a first part gives that part. -/
theorem takeBytes?_append (s t : List Char) : takeBytes? (byteSize s) (s ++ t) = some s := by
  induction s with
  | nil => simp
  | cons c s ih => rw [List.cons_append, byteSize_cons, takeBytes?_cons, ih]; rfl

/-- **The middle of three texts** is the slice between its two ends. -/
theorem slice_append (before middle after : List Char) :
    slice (byteSize before) (byteSize before + byteSize middle) (before ++ middle ++ after)
      = middle := by
  have hd : dropBytes? (byteSize before) (before ++ (middle ++ after)) =
      some (middle ++ after) := by
    have h := dropBytes?_append before (middle ++ after) 0
    simpa using h
  rw [slice, slice?, if_pos (by omega), List.append_assoc, hd]
  simp [takeBytes?_append]

end Abacus.Text
