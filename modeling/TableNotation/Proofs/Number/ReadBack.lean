import TableNotation.Number.Reading
/-!
# Numbers read back

What a number is written as reads back to that number: an integer digit by digit,
and a double through the shortest decimal that rounds to it.  A double has to be
written positionally, since its point is what tells it from an integer.

* `read?_digits`, `read?_point`: how a literal is read.
* `read?_text`: reading undoes writing.
* `isNumeric_of_mem_text`: a number is written with digits, a point and a sign.
-/

namespace TableNotation

theorem isDigit_of_mem_digitsOf {n : Nat} {c : Char} (h : c ∈ Decimal.digitsOf n) :
    c.isDigit = true :=
  Nat.isDigit_of_mem_toDigits (by decide) (by decide) h

theorem digitsOf_ne_nil (n : Nat) : Decimal.digitsOf n ≠ [] := Nat.toDigits_ne_nil

/-- The digits of a natural number write that number. -/
theorem naturalOf_digitsOf (n : Nat) : naturalOf (Decimal.digitsOf n) = n :=
  Nat.ofDigitChars_ten_toDigits

theorem all_isDigit_digitsOf (n : Nat) : (Decimal.digitsOf n).all Char.isDigit = true :=
  List.all_eq_true.2 fun _ hc => isDigit_of_mem_digitsOf hc

/-- Zeros behind digits multiply by a power of ten. -/
theorem naturalOf_append_zeros (digits : List Char) (n : Nat) :
    naturalOf (digits ++ List.replicate n '0') = naturalOf digits * 10 ^ n := by
  rw [naturalOf, Nat.ofDigitChars_append, Nat.ofDigitChars_replicate_zero, Nat.mul_comm]
  rfl

/-- Zeros in front of digits change nothing. -/
theorem naturalOf_zeros_append (digits : List Char) (n : Nat) :
    naturalOf (List.replicate n '0' ++ digits) = naturalOf digits := by
  rw [naturalOf, Nat.ofDigitChars_append, Nat.ofDigitChars_replicate_zero, Nat.mul_zero]
  rfl

/-- A text that begins with a digit has no sign. -/
theorem splitSign_of_isDigit {c : Char} (h : c.isDigit = true) (rest : List Char) :
    splitSign (c :: rest) = (false, c :: rest) := by
  have hminus : c ≠ '-' := by
    rintro rfl
    exact absurd h (by decide)
  have hplus : c ≠ '+' := by
    rintro rfl
    exact absurd h (by decide)
  unfold splitSign
  split
  · rename_i heq
    cases heq
    exact absurd rfl hminus
  · rename_i heq
    cases heq
    exact absurd rfl hplus
  · rfl

theorem splitSign_digits {digits : List Char} (hne : digits ≠ [])
    (h : ∀ c ∈ digits, c.isDigit = true) (rest : List Char) :
    splitSign (digits ++ rest) = (false, digits ++ rest) := by
  cases digits with
  | nil => exact absurd rfl hne
  | cons c more => exact splitSign_of_isDigit (h c List.mem_cons_self) (more ++ rest)

namespace Decimal

/-- A decimal is written with a point between digits, and these are worth the decimal. -/
structure HasParts (d : Decimal) (whole fraction : List Char) : Prop where
  text : d.positionalText = whole ++ '.' :: fraction
  ne_nil : whole ≠ []
  isDigit_whole : ∀ c ∈ whole, c.isDigit = true
  isDigit_fraction : ∀ c ∈ fraction, c.isDigit = true
  value : ∀ negative, (ofParts whole fraction 0).toDouble? negative = d.toDouble? negative

theorem isDigit_of_mem_padded {n m : Nat} {c : Char}
    (h : c ∈ List.replicate n '0' ++ digitsOf m) : c.isDigit = true := by
  rcases List.mem_append.1 h with h | h
  · rw [List.eq_of_mem_replicate h]
    decide
  · exact isDigit_of_mem_digitsOf h

/-- Without decimal places zeros stand in front of the point, and one zero behind it. -/
theorem hasParts_of_nonneg {d : Decimal} (h : 0 ≤ d.exponent) :
    d.HasParts (digitsOf d.digits ++ List.replicate d.exponent.toNat '0') ['0'] := by
  refine ⟨by simp [positionalText, h], by simp [digitsOf_ne_nil], ?_, ?_, ?_⟩
  · intro c hc
    exact isDigit_of_mem_padded (List.mem_append.2 (List.mem_append.1 hc).symm)
  · intro c hc
    rw [List.mem_singleton.1 hc]
    decide
  · intro negative
    have hdigits : (ofParts (digitsOf d.digits ++ List.replicate d.exponent.toNat '0') ['0']
        0).digits = d.digits * 10 ^ d.exponent.toNat * 10 := by
      have hone : ['0'] = List.replicate 1 '0' := rfl
      simp only [ofParts]
      rw [hone, naturalOf_append_zeros, naturalOf_append_zeros, naturalOf_digitsOf, Nat.pow_one]
    have hexponent : (ofParts (digitsOf d.digits ++ List.replicate d.exponent.toNat '0') ['0']
        0).exponent = -1 := by
      simp only [ofParts, List.length_singleton]
      omega
    have hone : (10 : Nat) ^ (- -1 : Int).toNat = 1 * 10 := by decide
    have hneg : ¬ (0 : Int) ≤ -1 := by decide
    rw [toDouble?, hexponent, hdigits, if_neg hneg, hone,
      Double.ofRatio?_mul_mul _ _ _ (by decide), toDouble?, if_pos h]

/-- With decimal places the digits are filled up with zeros until one stands in front of
the point. -/
theorem hasParts_of_neg {d : Decimal} (h : ¬ 0 ≤ d.exponent) : ∃ whole fraction,
    d.HasParts whole fraction := by
  obtain ⟨places, hplaces⟩ : ∃ n : Nat, (-d.exponent).toNat = n := ⟨_, rfl⟩
  let digits := digitsOf d.digits
  let padded := List.replicate (places + 1 - digits.length) '0' ++ digits
  have hlength : places + 1 ≤ padded.length := by
    simp only [padded, List.length_append, List.length_replicate]
    omega
  have hpadded : ∀ c ∈ padded, c.isDigit = true := fun _ hc => isDigit_of_mem_padded hc
  refine ⟨padded.take (padded.length - places), padded.drop (padded.length - places),
    ?_, ?_, ?_, ?_, ?_⟩
  · simp only [positionalText, if_neg h, hplaces]
    rfl
  · intro hnil
    have hzero := congrArg List.length hnil
    simp only [List.length_take, List.length_nil] at hzero
    omega
  · exact fun c hc => hpadded c (List.mem_of_mem_take hc)
  · exact fun c hc => hpadded c (List.mem_of_mem_drop hc)
  · intro negative
    have hdigits : naturalOf padded = d.digits := by
      rw [naturalOf_zeros_append, naturalOf_digitsOf]
    have hexponent : (ofParts (padded.take (padded.length - places))
        (padded.drop (padded.length - places)) 0).exponent = d.exponent := by
      simp only [ofParts, List.length_drop]
      omega
    rw [toDouble?, hexponent, toDouble?]
    simp only [ofParts, List.take_append_drop, hdigits]

theorem exists_hasParts (d : Decimal) : ∃ whole fraction, d.HasParts whole fraction := by
  by_cases h : 0 ≤ d.exponent
  · exact ⟨_, _, hasParts_of_nonneg h⟩
  · exact hasParts_of_neg h

end Decimal

/-- A double written positionally: the digits on either side of its point, which
together are worth the double. -/
theorem Double.text_parts {layout : FloatLayout} {x : Double}
    (hlayout : layout.positional (x.shortest layout.tie).leadingExponent = true) :
    ∃ whole fraction : List Char,
      x.text layout = (if x.negative then ['-'] else []) ++ (whole ++ '.' :: fraction) ∧
      whole ≠ [] ∧ (∀ c ∈ whole, c.isDigit = true) ∧ (∀ c ∈ fraction, c.isDigit = true) ∧
      (Decimal.ofParts whole fraction 0).toDouble? x.negative = some x := by
  obtain ⟨whole, fraction, hparts⟩ := (x.shortest layout.tie).exists_hasParts
  refine ⟨whole, fraction, ?_, hparts.ne_nil, hparts.isDigit_whole, hparts.isDigit_fraction, ?_⟩
  · rw [Double.text, Decimal.text, if_pos hlayout, hparts.text]
  · rw [hparts.value, Double.toDouble?_shortest]

namespace Number

/-- A literal without a point is an integer, if this fits a word. -/
theorem read?_digits {digits : List Char} (hne : digits ≠ [])
    (hdigits : ∀ c ∈ digits, c.isDigit = true) (negative : Bool) :
    read? ((if negative then ['-'] else []) ++ digits)
      = ofInt? (if negative then -(naturalOf digits : Int) else naturalOf digits) := by
  have hpoint : '.' ∉ (if negative then ['-'] else []) ++ digits := by
    intro hmem
    rcases List.mem_append.1 hmem with hmem | hmem
    · split at hmem <;> simp at hmem
    · exact absurd (hdigits '.' hmem) (by decide)
  have hsign : splitSign ((if negative then ['-'] else []) ++ digits) = (negative, digits) := by
    cases negative with
    | true => rfl
    | false => simpa using splitSign_digits hne hdigits []
  rw [read?, if_neg hpoint, readInteger?]
  simp only [hsign]
  rw [if_pos ⟨hne, List.all_eq_true.2 hdigits⟩]

/-- A literal with a point is the double nearest to its digits, if this is finite. -/
theorem read?_point {whole fraction : List Char} (hne : whole ≠ [])
    (hwhole : ∀ c ∈ whole, c.isDigit = true) (hfraction : ∀ c ∈ fraction, c.isDigit = true)
    (negative : Bool) :
    read? ((if negative then ['-'] else []) ++ (whole ++ '.' :: fraction))
      = ((Decimal.ofParts whole fraction 0).toDouble? negative).map .float := by
  have hpoint : '.' ∈ (if negative then ['-'] else []) ++ (whole ++ '.' :: fraction) := by simp
  have hsign : splitSign ((if negative then ['-'] else []) ++ (whole ++ '.' :: fraction))
      = (negative, whole ++ '.' :: fraction) := by
    cases negative with
    | true => rfl
    | false => exact splitSign_digits hne hwhole _
  have htake : (whole ++ '.' :: fraction).takeWhile Char.isDigit = whole := by
    rw [List.takeWhile_append_of_pos hwhole, List.takeWhile_cons_of_neg (by decide),
      List.append_nil]
  have hdrop : (whole ++ '.' :: fraction).dropWhile Char.isDigit = '.' :: fraction := by
    rw [List.dropWhile_append_of_pos hwhole, List.dropWhile_cons_of_neg (by decide)]
  have htake' : fraction.takeWhile Char.isDigit = fraction := by
    have hall : (fraction ++ []).takeWhile Char.isDigit = fraction ++ [].takeWhile Char.isDigit :=
      List.takeWhile_append_of_pos hfraction
    simpa using hall
  have hdrop' : fraction.dropWhile Char.isDigit = [] := by
    have hall : (fraction ++ []).dropWhile Char.isDigit = [].dropWhile Char.isDigit :=
      List.dropWhile_append_of_pos hfraction
    simpa using hall
  rw [read?, if_pos hpoint, readFloat?]
  simp only [hsign, hdrop, htake, htake', hdrop', hne, false_and, if_false,
    Decimal.readExponent?]
  have hbind : ∀ value : Option Double,
      (do let x ← value; return Number.float x) = value.map .float := by
    intro value
    cases value <;> rfl
  exact hbind _

/-- A double that is written positionally has a point. -/
theorem read?_doubleText {layout : FloatLayout} {x : Double}
    (hlayout : layout.positional (x.shortest layout.tie).leadingExponent = true) :
    read? (x.text layout) = some (.float x) := by
  obtain ⟨whole, fraction, hx, hne, hwhole, hfraction, hvalue⟩ := x.text_parts hlayout
  rw [hx, read?_point hne hwhole hfraction, hvalue]
  rfl

/-- An integer has no point. -/
theorem read?_integerText (n : Int) (fits : FitsWord n) :
    read? (integerText n) = some (.integer n fits) := by
  have hvalue : (if decide (n < 0) = true then -(n.natAbs : Int) else n.natAbs) = n := by
    by_cases hn : n < 0
    · simp only [hn, decide_true, if_true]
      omega
    · simp only [hn, decide_false, Bool.false_eq_true, if_false]
      omega
  have hread := read?_digits (digitsOf_ne_nil n.natAbs) (fun _ hc => isDigit_of_mem_digitsOf hc)
    (decide (n < 0))
  rw [naturalOf_digitsOf, hvalue, ofInt?, dif_pos fits] at hread
  simpa [integerText] using hread

/-- Reading undoes writing. -/
theorem read?_text {layout : FloatLayout} (hlayout : ∀ e, layout.positional e = true)
    (n : Number) : read? (n.text layout) = some n := by
  cases n with
  | integer n fits => exact read?_integerText n fits
  | float x => exact read?_doubleText (hlayout _)

/-- The characters of numbers that are written positionally. -/
def isNumeric (c : Char) : Bool := c.isDigit || c = '.' || c = '-'

theorem isNumeric_of_isDigit {c : Char} (h : c.isDigit = true) : isNumeric c = true := by
  simp [isNumeric, h]

/-- A number is written with digits, a point and a sign. -/
theorem isNumeric_of_mem_text {layout : FloatLayout} (hlayout : ∀ e, layout.positional e = true)
    {n : Number} {c : Char} (h : c ∈ n.text layout) : isNumeric c = true := by
  have hsign : ∀ b : Bool, c ∈ (if b then ['-'] else []) → isNumeric c = true := by
    intro b hc
    cases b with
    | true =>
      rw [List.mem_singleton.1 hc]
      decide
    | false => exact absurd hc List.not_mem_nil
  cases n with
  | integer n fits =>
    rcases List.mem_append.1 h with hc | hc
    · exact hsign (decide (n < 0)) (by simpa using hc)
    · exact isNumeric_of_isDigit (isDigit_of_mem_digitsOf hc)
  | float x =>
    obtain ⟨whole, fraction, hx, _, hwhole, hfraction, _⟩ := x.text_parts (hlayout _)
    have hc : c ∈ x.text layout := h
    rw [hx] at hc
    rcases List.mem_append.1 hc with hc | hc
    · exact hsign x.negative hc
    rcases List.mem_append.1 hc with hc | hc
    · exact isNumeric_of_isDigit (hwhole c hc)
    rcases List.mem_cons.1 hc with rfl | hc
    · decide
    · exact isNumeric_of_isDigit (hfraction c hc)

/-- A number is not written as nothing. -/
theorem text_ne_nil {layout : FloatLayout} (hlayout : ∀ e, layout.positional e = true)
    (n : Number) : n.text layout ≠ [] := by
  intro hnil
  have hread := read?_text hlayout n
  rw [hnil] at hread
  exact absurd hread (by simp [read?, readInteger?, splitSign])

end Number
end TableNotation
