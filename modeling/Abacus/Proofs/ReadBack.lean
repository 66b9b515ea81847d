import Abacus.Binary64.Shortest
import Mathlib.Algebra.Group.Nat.Defs
import Mathlib.Data.List.TakeWhile
import Mathlib.Tactic.Lemma
import Mathlib.Tactic.SplitIfs

set_option autoImplicit false

/-!
# Written numbers read back

The text of a finite number reads as that number, sign included. The numeral that is written has the
magnitude of the number: either the search asked for it, or it is the exact expansion, and dividing
an exact multiple rounds nothing away. And the digits and the point of a numeral read as the
numeral.

## Main results

* `Abacus.Binary64.nearest_of_units` — an exact number of units rounds to itself.
* `Abacus.Positional.ofChars?_chars` — a written numeral reads as its decimal.
* `Abacus.Binary64.ofChars?_chars` — the text of a finite number reads back.
-/

namespace Abacus

/-! ## Magnitudes -/

namespace Binary64

/-- A number of at most 52 bits loses none, and one with 53 bits and `n` zeros loses the zeros. -/
lemma droppedBits_of_lt {n : Nat} (h : n < 2 ^ 53) : droppedBits n = 0 := by
  rw [droppedBits, Nat.sub_eq_zero_iff_le]
  rcases Nat.eq_zero_or_pos n with rfl | hpos
  · decide
  · exact Nat.le_of_lt_succ ((Nat.log2_lt (Nat.ne_of_gt hpos)).2 h)

/-- A number with 53 bits and `n` zeros behind them loses the zeros. -/
lemma droppedBits_mul_pow {significand n : Nat} (h : 2 ^ 52 ≤ significand)
    (h' : significand < 2 ^ 53) : droppedBits (significand * 2 ^ n) = n := by
  have hpos : 0 < 2 ^ n := Nat.two_pow_pos n
  have hne : significand * 2 ^ n ≠ 0 := Nat.ne_of_gt (Nat.mul_pos (by omega) hpos)
  have hlow : 52 + n ≤ (significand * 2 ^ n).log2 := by
    rw [Nat.le_log2 hne, Nat.pow_add]
    exact Nat.mul_le_mul_right _ h
  have hhigh : (significand * 2 ^ n).log2 < 53 + n := by
    rw [Nat.log2_lt hne, Nat.pow_add]
    exact Nat.mul_lt_mul_of_pos_right h' hpos
  rw [droppedBits]
  omega

/-- The exponent field and the significand of a normal number together are its magnitude. -/
lemma exponent_add_significand {m : Nat} (h : 2 ^ 52 ≤ m) :
    (m / 2 ^ 52 - 1) * 2 ^ 52 + (2 ^ 52 + m % 2 ^ 52) = m := by
  omega

/-- A number that is not normal counts units by its magnitude. -/
lemma units_of_lt {x : Binary64} (h : x.magnitude < 2 ^ 52) : x.units = x.magnitude := if_pos h

/-- A normal number counts units by its significand and its exponent. -/
lemma units_of_not_lt {x : Binary64} (h : ¬x.magnitude < 2 ^ 52) :
    x.units = (2 ^ 52 + x.magnitude % 2 ^ 52) * 2 ^ (x.magnitude / 2 ^ 52 - 1) := if_neg h

/-- Rounding, with the units and the quotient named. -/
lemma nearest_eq {num den scaled quotient : Nat} (h : num * unitsPerOne = scaled)
    (hquotient : scaled / den = quotient) :
    nearest num den = min (droppedBits quotient * 2 ^ 52 +
      roundHalfEven scaled (den * 2 ^ droppedBits quotient)) infinity := by
  subst h hquotient
  rfl

/-- **An exact number of units rounds to itself**: a quotient that is the value of a finite number
has the magnitude of the number.

**Proof sketch.** The quotient is the number of units, and rounding divides it by the power of two
that makes 53 bits of it. A number below the normal ones has fewer bits, so nothing is divided away;
a normal one is a significand of 53 bits times a power of two, which is divided away exactly. -/
lemma nearest_of_units {x : Binary64} {num den : Nat} (hfinite : x.isFinite) (hden : 0 < den)
    (h : num * unitsPerOne = x.units * den) : nearest num den = x.magnitude := by
  have hbound : x.magnitude < infinity := x.isFinite_iff.1 hfinite
  rw [nearest_eq h (Nat.mul_div_cancel _ hden)]
  by_cases hsub : x.magnitude < 2 ^ 52
  · have hunits := units_of_lt hsub
    have hdropped : droppedBits x.units = 0 := droppedBits_of_lt (by omega)
    rw [hdropped, Nat.pow_zero, Nat.mul_one, roundHalfEven_mul _ hden, hunits, Nat.zero_mul,
      Nat.zero_add]
    exact Nat.min_eq_left (Nat.le_of_lt hbound)
  · have hunits := units_of_not_lt hsub
    have hlow : x.magnitude % 2 ^ 52 < 2 ^ 52 := Nat.mod_lt _ (Nat.two_pow_pos 52)
    have hdropped : droppedBits x.units = x.magnitude / 2 ^ 52 - 1 := by
      rw [hunits]
      exact droppedBits_mul_pow (by omega) (by omega)
    have hpos : 0 < den * 2 ^ (x.magnitude / 2 ^ 52 - 1) := Nat.mul_pos hden (Nat.two_pow_pos _)
    rw [hdropped, hunits, Nat.mul_assoc, Nat.mul_comm (2 ^ _) den, roundHalfEven_mul _ hpos,
      exponent_add_significand (Nat.le_of_not_lt hsub)]
    exact Nat.min_eq_left (Nat.le_of_lt hbound)

/-- A number other than zero has units. -/
lemma units_pos {x : Binary64} (h : x.magnitude ≠ 0) : 0 < x.units := by
  by_cases hsub : x.magnitude < 2 ^ 52
  · rw [units_of_lt hsub]
    exact Nat.pos_of_ne_zero h
  · rw [units_of_not_lt hsub]
    exact Nat.mul_pos (by omega) (Nat.two_pow_pos _)

/-- Nor is its exact expansion zero. -/
lemma mul_pow_five_ne_zero {units : Nat} (n : Nat) (h : 0 < units) : units * 5 ^ n ≠ 0 :=
  Nat.ne_of_gt (Nat.mul_pos h (Nat.pow_pos (by decide)))

/-- The digits of an exact expansion are not too few for the reader. -/
lemma le_log2_mul_pow_five {units : Nat} (n : Nat) (h : 0 < units) : n ≤ (units * 5 ^ n).log2 := by
  rw [Nat.le_log2 (mul_pow_five_ne_zero n h)]
  calc 2 ^ n ≤ 5 ^ n := Nat.pow_le_pow_left (by decide) _
    _ ≤ units * 5 ^ n := Nat.le_mul_of_pos_left _ h

/-- An exact expansion has as many places as units have bits below one. -/
lemma magnitude_exact {x : Binary64} (hfinite : x.isFinite) (h : x.magnitude ≠ 0) :
    (exact x.units).decimal.magnitude = x.magnitude := by
  obtain ⟨e, he⟩ : ∃ e, fractionBits = e + 1 := ⟨1073, rfl⟩
  have hunits : unitsPerOne = Nat.pow 2 (e + 1) := by
    delta unitsPerOne
    rw [he]
  have hlog := le_log2_mul_pow_five (e + 1) (units_pos h)
  have hlarge : ¬(x.units * 5 ^ (e + 1)).log2 + 330 ≤ e := by omega
  have hdecimal : (exact x.units).decimal = ⟨x.units * 5 ^ (e + 1), .negSucc e⟩ := by
    rw [exact, he]
    rfl
  rw [hdecimal, Decimal.magnitude, if_neg (mul_pow_five_ne_zero (e + 1) (units_pos h))]
  simp only [if_neg hlarge]
  refine nearest_of_units hfinite (Nat.pow_pos (by decide)) ?_
  rw [hunits, Nat.pow_eq, Nat.pow_eq, Nat.mul_assoc, ← Nat.mul_pow]

/-- **The numeral written for a finite number** has the magnitude of the number.

**Proof sketch.** The search for a short numeral accepts only one with the magnitude of the number.
If it accepts none, the exact expansion is written, which is a number of units divided by a power of
ten that a power of two and a power of five make up. -/
lemma magnitude_shortest {x : Binary64} (hfinite : x.isFinite) :
    x.shortest.decimal.magnitude = x.magnitude := by
  rw [shortest]
  split_ifs with h
  · rw [h]
    rfl
  · rw [shortestOf]
    cases hsearch : (((List.range 17).map fun (n : Nat) =>
        decimalPoint x.units - (n + 1 : Int)).findSome? (candidate? x.magnitude x.units)) with
    | none => exact magnitude_exact hfinite h
    | some p =>
      obtain ⟨exponent, _, hp⟩ := List.exists_of_findSome?_eq_some hsearch
      exact magnitude_candidate hp

end Binary64

/-! ## Numerals -/

namespace Positional

/-- The digits in front of the point. -/
def whole (p : Positional) : List Char := p.paddedDigits.take (p.paddedDigits.length - p.places)

/-- The digits after the point. -/
def fraction (p : Positional) : List Char := p.paddedDigits.drop (p.paddedDigits.length - p.places)

variable (p : Positional)

/-- There are more digits than places. -/
lemma lt_length_paddedDigits : p.places < p.paddedDigits.length := by
  rw [paddedDigits, List.leftpad, List.length_append, List.length_replicate]
  omega

/-- The digits before and after the point are all digits. -/
lemma whole_append_fraction : p.whole ++ p.fraction = p.paddedDigits := List.take_append_drop _ _

/-- There are as many digits after the point as places. -/
lemma length_fraction : p.fraction.length = p.places := by
  have := p.lt_length_paddedDigits
  rw [fraction, List.length_drop]
  omega

/-- There is a digit in front of the point. -/
lemma whole_ne_nil : p.whole ≠ [] := by
  have := p.lt_length_paddedDigits
  rw [whole, Ne, List.take_eq_nil_iff]
  rintro (h | h)
  · omega
  · simp [h] at this

/-- The zeros in front are digits too. -/
lemma isDigit_of_mem_paddedDigits {c : Char} (h : c ∈ p.paddedDigits) : c.isDigit := by
  rcases List.mem_append.1 h with h | h
  · obtain rfl := List.eq_of_mem_replicate h
    decide
  · exact Nat.isDigit_of_mem_toDigits (by decide) (by decide) h

/-- In front of the point there are digits only. -/
lemma isDigit_of_mem_whole {c : Char} (h : c ∈ p.whole) : c.isDigit :=
  p.isDigit_of_mem_paddedDigits (List.mem_of_mem_take h)

/-- After the point there are digits only. -/
lemma isDigit_of_mem_fraction {c : Char} (h : c ∈ p.fraction) : c.isDigit :=
  p.isDigit_of_mem_paddedDigits (List.mem_of_mem_drop h)

/-- A written numeral has digits, and a point with more digits unless it is whole. -/
lemma chars_eq : p.chars = p.whole ++ if p.places = 0 then [] else '.' :: p.fraction := by
  rw [chars, whole, fraction]
  split_ifs with h
  · simp [h]
  · rfl

/-- The zeros in front do not change what the digits are read as. -/
lemma ofDigitChars_paddedDigits : Nat.ofDigitChars 10 p.paddedDigits 0 = p.digits := by
  rw [paddedDigits, List.leftpad, Nat.ofDigitChars_append, Nat.ofDigitChars_replicate_zero,
    Nat.mul_zero, Nat.ofDigitChars_ten_toDigits]

/-- **A written numeral reads as its decimal.** -/
lemma ofChars?_chars : Decimal.ofChars? p.chars = some p.decimal := by
  have hwhole : ∀ c ∈ p.whole, c.isDigit := fun c => p.isDigit_of_mem_whole
  have hfraction : ∀ c ∈ p.fraction, c.isDigit := fun c => p.isDigit_of_mem_fraction
  have hlength := p.length_fraction
  rw [chars_eq, Decimal.ofChars?, Decimal.leadingDigits, Decimal.afterDigits,
    List.takeWhile_append_of_pos hwhole, List.dropWhile_append_of_pos hwhole]
  split_ifs with h
  · have hnil : p.fraction = [] := List.length_eq_zero_iff.1 (hlength.trans h)
    have hpadded : p.whole = p.paddedDigits := by
      rw [← p.whole_append_fraction, hnil, List.append_nil]
    simp only [List.takeWhile_nil, List.dropWhile_nil, Decimal.splitFraction, List.append_nil,
      if_neg p.whole_ne_nil, Decimal.exponent?, Option.map_some]
    rw [hpadded, p.ofDigitChars_paddedDigits, decimal, h]
    rfl
  · have hpoint : ¬ '.'.isDigit := by decide
    have hall : p.fraction.takeWhile Char.isDigit = p.fraction :=
      List.takeWhile_eq_self_iff.2 hfraction
    have hnone : p.fraction.dropWhile Char.isDigit = [] :=
      List.dropWhile_eq_nil_iff.2 hfraction
    simp only [List.takeWhile_cons_of_neg hpoint, List.dropWhile_cons_of_neg hpoint,
      Decimal.splitFraction, Decimal.leadingDigits, Decimal.afterDigits, hall, hnone,
      List.append_nil, p.whole_append_fraction, Decimal.exponent?, Option.map_some]
    have hne : p.paddedDigits ≠ [] := List.ne_nil_of_length_pos (by
      have := p.lt_length_paddedDigits
      omega)
    rw [if_neg hne, p.ofDigitChars_paddedDigits, decimal, hlength, Int.zero_sub]

/-- A written numeral starts with a digit. -/
lemma chars_eq_cons : ∃ d cs, p.chars = d :: cs ∧ d.isDigit := by
  obtain ⟨d, cs, h⟩ := List.exists_cons_of_ne_nil p.whole_ne_nil
  have hdigit : d.isDigit := p.isDigit_of_mem_whole (by simp [h])
  rw [chars_eq, h]
  exact ⟨d, _, rfl, hdigit⟩

end Positional

/-! ## Numbers -/

namespace Binary64

/-- A text that starts with a digit has no sign. -/
lemma splitSign_of_isDigit {d : Char} {cs : List Char} (h : d.isDigit) :
    Decimal.splitSign (d :: cs) = (false, d :: cs) := by
  rw [Decimal.splitSign]
  · rintro cs' heq
    obtain rfl := (List.cons.inj heq).1
    exact absurd h (by decide)
  · rintro cs' heq
    obtain rfl := (List.cons.inj heq).1
    exact absurd h (by decide)

/-- A text that starts as a numeral does, with a digit or a point, has no sign. -/
lemma splitSign_of_numeral {c : Char} {cs : List Char} (h : c.isDigit ∨ c = '.') :
    Decimal.splitSign (c :: cs) = (false, c :: cs) := by
  rcases h with h | rfl
  · exact splitSign_of_isDigit h
  · rfl

/-- A finite number is a number. -/
lemma isNaN_eq_false {x : Binary64} (h : x.isFinite) : x.isNaN = false := by
  have := x.isFinite_iff.1 h
  rw [isNaN, decide_eq_false_iff_not]
  omega

/-- The text of a finite number is its shortest numeral, with a minus sign if it is negative. -/
lemma chars_of_isFinite {x : Binary64} (h : x.isFinite) :
    x.chars = if x.negative then '-' :: x.shortest.chars else x.shortest.chars := by
  rw [chars, isNaN_eq_false h, h]
  rfl

/-- A finite number is the nearest to its numeral. -/
lemma ofDecimal_shortest {x : Binary64} (h : x.isFinite) :
    ofDecimal x.negative x.shortest.decimal = x := by
  have hmagnitude := magnitude_shortest h
  rw [ofDecimal]
  cases x
  congr

/-- **The text of a finite number reads back**, with the sign of a zero too. -/
theorem ofChars?_chars {x : Binary64} (h : x.isFinite) : ofChars? x.chars = some x := by
  have hdecimal := ofDecimal_shortest h
  obtain ⟨d, cs, hchars, hdigit⟩ := x.shortest.chars_eq_cons
  rw [chars_of_isFinite h, ofChars?]
  cases hnegative : x.negative with
  | true =>
    rw [hnegative] at hdecimal
    simp only [if_true, Decimal.splitSign, Positional.ofChars?_chars, hdecimal]
  | false =>
    have hread := x.shortest.ofChars?_chars
    rw [hnegative] at hdecimal
    rw [hchars] at hread ⊢
    simp only [Bool.false_eq_true, if_false, splitSign_of_isDigit hdigit, hread, hdecimal]

end Binary64

end Abacus
