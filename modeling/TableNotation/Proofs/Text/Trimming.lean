import Mathlib.Data.List.TakeWhile
import TableNotation.Text.Blank
/-!
# Tight texts

A text is *tight* when it neither begins nor ends with a blank.  Trimming leaves
a tight text alone, so what the writer of a table puts between its separators
comes back as it was, whatever blanks stand around it.

* `trim_eq_self`: a tight text is its own trim.
* `trim_blank_cons`, `trim_blank_append`, `trim_append_blank`: blanks around a text are cut off.
* `exists_blanks_trim`: nothing else is cut off.
* `trim_prefix`: what does not begin with a blank keeps its beginning.
-/

namespace TableNotation.Text

/-- Neither the first nor the last character is blank. -/
def IsTight (s : List Char) : Prop :=
  (∀ c, s.head? = some c → isBlank c = false) ∧
    ∀ c, s.getLast? = some c → isBlank c = false

theorem isTight_nil : IsTight [] := by simp [IsTight]

/-- A text between two characters that are not blank is tight, whatever it is. -/
theorem isTight_between {a b : Char} (ha : isBlank a = false) (hb : isBlank b = false)
    (s : List Char) : IsTight (a :: (s ++ [b])) := by
  constructor
  · intro c hc
    rw [List.head?_cons, Option.some.injEq] at hc
    rw [← hc]
    exact ha
  · intro c hc
    rw [← List.cons_append, List.getLast?_concat, Option.some.injEq] at hc
    rw [← hc]
    exact hb

/-- Two tight texts together, neither of them empty, are tight, whatever stands
between them. -/
theorem IsTight.around {s t : List Char} (hs : IsTight s) (ht : IsTight t) (hsne : s ≠ [])
    (htne : t ≠ []) (middle : List Char) : IsTight (s ++ (middle ++ t)) := by
  constructor
  · intro c hc
    cases s with
    | nil => exact absurd rfl hsne
    | cons a rest => exact hs.1 c hc
  · intro c hc
    have hlast : t.getLast? = some (t.getLast htne) := List.getLast?_eq_some_getLast htne
    rw [← List.append_assoc, List.getLast?_append, hlast, Option.some_or] at hc
    exact ht.2 c (hlast.trans hc)

/-- A text without blanks is tight. -/
theorem isTight_of_forall {s : List Char} (h : ∀ c ∈ s, isBlank c = false) : IsTight s :=
  ⟨fun c hc => h c (List.mem_of_head? hc), fun c hc => h c (List.mem_of_getLast? hc)⟩

theorem trimStart_eq_self {s : List Char}
    (h : ∀ c, s.head? = some c → isBlank c = false) : trimStart s = s := by
  cases s with
  | nil => rfl
  | cons c rest =>
    have hc : ¬ isBlank c = true := by simp [h c rfl]
    exact List.dropWhile_cons_of_neg hc

/-- Trimming leaves a tight text alone. -/
theorem trim_eq_self {s : List Char} (h : IsTight s) : trim s = s := by
  have hend : trimStart s.reverse = s.reverse := by
    apply trimStart_eq_self
    intro c hc
    rw [List.head?_reverse] at hc
    exact h.2 c hc
  have hreverse : trimEnd s = (trimStart s.reverse).reverse := rfl
  rw [trim, trimStart_eq_self h.1, hreverse, hend, List.reverse_reverse]

theorem isBlank_of_head?_trimStart {s : List Char} {c : Char}
    (h : (trimStart s).head? = some c) : isBlank c = false := by
  have hfirst := List.head?_dropWhile_not isBlank s
  unfold trimStart at h
  rw [h] at hfirst
  exact hfirst

/-- What is left by trimming is tight. -/
theorem isTight_trim (s : List Char) : IsTight (trim s) := by
  have hreverse : (trim s).reverse = trimStart (trimStart s).reverse := List.reverse_reverse _
  constructor
  · -- the first character is still the first one behind the blanks
    intro c hc
    have hsuffix : (trim s).reverse <:+ (trimStart s).reverse := by
      rw [hreverse]
      exact List.dropWhile_suffix _
    obtain ⟨rest, hrest⟩ := List.reverse_suffix.1 hsuffix
    apply isBlank_of_head?_trimStart (s := s)
    rw [← hrest, List.head?_append, hc, Option.some_or]
  · intro c hc
    rw [← List.head?_reverse, hreverse] at hc
    exact isBlank_of_head?_trimStart hc

/-- A blank in front of a text is cut off. -/
theorem trim_blank_cons {c : Char} (hc : isBlank c = true) (s : List Char) :
    trim (c :: s) = trim s := by
  have hstart : trimStart (c :: s) = trimStart s := List.dropWhile_cons_of_pos hc
  rw [trim, trim, hstart]

/-- Blanks in front of a text are cut off. -/
theorem trim_blank_append {blanks : List Char} (h : ∀ c ∈ blanks, isBlank c = true)
    (s : List Char) : trim (blanks ++ s) = trim s := by
  have hstart : trimStart (blanks ++ s) = trimStart s := List.dropWhile_append_of_pos h
  rw [trim, trim, hstart]

/-- So are blanks behind it. -/
theorem trim_append_blank {blanks : List Char} (h : ∀ c ∈ blanks, isBlank c = true)
    (s : List Char) : trim (s ++ blanks) = trim s := by
  have hend : trimEnd (trimStart s ++ blanks) = trimEnd (trimStart s) := by
    rw [trimEnd, List.reverse_append, List.dropWhile_append_of_pos fun c hc =>
      h c (List.mem_reverse.1 hc)]
    rfl
  have hstart : trimStart (s ++ blanks)
      = if (trimStart s).isEmpty then trimStart blanks else trimStart s ++ blanks :=
    List.dropWhile_append
  rw [trim, trim, hstart]
  by_cases hs : (trimStart s).isEmpty = true
  · have hblanks : trimStart blanks = [] := List.dropWhile_eq_nil_iff.2 h
    rw [if_pos hs, hblanks, List.isEmpty_iff.1 hs]
  · rw [if_neg hs, hend]

/-- A text is what is left by trimming, with blanks around it. -/
theorem exists_blanks_trim (s : List Char) : ∃ front back,
    (∀ c ∈ front, isBlank c = true) ∧ (∀ c ∈ back, isBlank c = true) ∧
      s = front ++ (trim s ++ back) := by
  have hstart : s.takeWhile isBlank ++ trimStart s = s := List.takeWhile_append_dropWhile
  have hend : trim s ++ ((trimStart s).reverse.takeWhile isBlank).reverse = trimStart s := by
    rw [trim, trimEnd, ← List.reverse_append, List.takeWhile_append_dropWhile, List.reverse_reverse]
  refine ⟨s.takeWhile isBlank, ((trimStart s).reverse.takeWhile isBlank).reverse, ?_, ?_, ?_⟩
  · exact List.all_eq_true.1 List.all_takeWhile
  · intro c hc
    exact List.all_eq_true.1 List.all_takeWhile c (List.mem_reverse.1 hc)
  · rw [hend, hstart]

/-- A text of blanks is trimmed to nothing, and no other is. -/
theorem trim_eq_nil_iff {s : List Char} : trim s = [] ↔ ∀ c ∈ s, isBlank c = true := by
  constructor
  · intro h
    have hend : ∀ c ∈ trimStart s, isBlank c = true := by
      rw [trim, trimEnd, List.reverse_eq_nil_iff, List.dropWhile_eq_nil_iff] at h
      exact fun c hc => h c (List.mem_reverse.2 hc)
    have hstart : trimStart s = [] := by
      cases hrest : trimStart s with
      | nil => rfl
      | cons c rest =>
        have hc : isBlank c = false := isBlank_of_head?_trimStart (s := s) (by rw [hrest]; rfl)
        rw [hend c (by simp [hrest])] at hc
        cases hc
    exact List.dropWhile_eq_nil_iff.1 hstart
  · intro h
    have hnil := trim_append_blank h []
    exact hnil

/-- What does not begin with a blank keeps its beginning. -/
theorem trim_prefix {s : List Char} (h : ∀ c, s.head? = some c → isBlank c = false) :
    trim s <+: s := by
  have hsuffix : (trim s).reverse <:+ s.reverse := by
    rw [trim, trimStart_eq_self h, trimEnd, List.reverse_reverse]
    exact List.dropWhile_suffix _
  exact List.reverse_suffix.1 hsuffix

/-- A tight text with a character in it is not blank. -/
theorem isBlankText_eq_false {s : List Char} (h : IsTight s) (hne : s ≠ []) :
    isBlankText s = false := by
  cases s with
  | nil => exact absurd rfl hne
  | cons c rest => simp [isBlankText, h.1 c rfl]

end TableNotation.Text
