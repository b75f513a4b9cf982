import TableNotation.Proofs.Text.Occurrence
import TableNotation.Query.Filter
/-!
# Conditions with patterns

A condition `LIKE` is an error for every record if the limit on patterns refuses its pattern, and
has an answer for every record otherwise.  On a field with a text the answer is true if and only if
the pattern occurs in the text: no sign of a pattern but `%` and `_` stands for anything but itself,
and no letter for anything but its cases.  On any other field it is false.

* `acceptsWith_pattern`: the answer of a search.
* `accepts_like_of_refusal?`, `accepts_like_eq`: a pattern that is refused, and one that is not.
* `accepts_like_of_ne_string`: fields without a text.
* `like_iff_occurs`: what the outcome says.
-/

namespace TableNotation.Condition

open Wildcard

section

variable {field pattern text : String} {upper : Option Value} {record : Record}

/-- On a text the answer is that of a search. -/
theorem acceptsWith_pattern (h : Fields.get? field record = some (.string text)) :
    let like : Condition := ⟨field, .like, .string pattern, upper⟩
    like.acceptsWith (some like.pattern) record
      = .ok (isFound (ofPattern pattern.toList) text.toList) := by
  intro like
  rw [acceptsWith, h]
  rfl

variable [PatternLimit]

/-- A pattern that is refused is an error, whatever the record is. -/
theorem accepts_like_of_refusal? {reason : String}
    (h : PatternLimit.refusal? pattern.toList = some reason) (record : Record) :
    accepts ⟨field, .like, .string pattern, upper⟩ record
      = .error (.refusedPattern pattern reason) := by
  rw [accepts, pattern?, if_pos rfl, readPattern, patternText, h, String.ofList_toList]
  rfl

/-- A pattern that is not refused is looked for. -/
theorem accepts_like_eq (h : PatternLimit.refusal? pattern.toList = none) (record : Record) :
    let like : Condition := ⟨field, .like, .string pattern, upper⟩
    like.accepts record = like.acceptsWith (some like.pattern) record := by
  intro like
  rw [accepts, pattern?, if_pos rfl, readPattern, patternText, h]
  rfl

/-- Without a text the answer is no. -/
theorem accepts_like_of_ne_string (hread : PatternLimit.refusal? pattern.toList = none)
    (h : ∀ text, Fields.get? field record ≠ some (.string text)) :
    accepts ⟨field, .like, .string pattern, upper⟩ record = .ok false := by
  rw [accepts_like_eq hread, acceptsWith]
  cases hvalue : Fields.get? field record with
  | none => rfl
  | some v =>
    cases v with
    | string text => exact absurd hvalue (h text)
    | _ => rfl

/-- Whatever the limit is, a pattern is found in a text if and only if some piece of the text can be
cut into parts that the characters of the pattern take in order.  So with a pattern that is not
refused the condition `LIKE` is true of a text if there is such a piece and false otherwise, and
with one that is refused it is an error.  Of the characters of ASCII that are no letters, a line
feed among them, each takes only itself, the two wildcards excepted. -/
theorem like_iff_occurs (h : Fields.get? field record = some (.string text)) :
    let like : Condition := ⟨field, .like, .string pattern, upper⟩
    let occurs := ∃ before parts behind, text.toList = before ++ (parts.flatten ++ behind) ∧
      List.Forall₂ Takes pattern.toList parts
    (like.acceptsWith (some like.pattern) record = .ok true ↔ occurs) ∧
    (like.acceptsWith (some like.pattern) record = .ok false ↔ ¬ occurs) ∧
    (PatternLimit.refusal? pattern.toList = none →
      (like.accepts record = .ok true ↔ occurs) ∧ (like.accepts record = .ok false ↔ ¬ occurs)) ∧
    (∀ reason, PatternLimit.refusal? pattern.toList = some reason →
      like.accepts record = .error (.refusedPattern pattern reason)) ∧
    ∀ c part, c.toNat < 128 → c.isAlpha = false → c ≠ '%' → c ≠ '_' →
      (Takes c part ↔ part = [c]) := by
  intro like occurs
  have hfound : isFound (ofPattern pattern.toList) text.toList = true ↔ occurs := isFound_iff_occurs
  have hsearch : like.acceptsWith (some like.pattern) record
      = .ok (isFound (ofPattern pattern.toList) text.toList) := acceptsWith_pattern h
  have hyes : like.acceptsWith (some like.pattern) record = .ok true ↔ occurs := by
    rw [hsearch, Except.ok.injEq]
    exact hfound
  have hno : like.acceptsWith (some like.pattern) record = .ok false ↔ ¬ occurs := by
    rw [hsearch, Except.ok.injEq, ← Bool.not_eq_true]
    exact not_congr hfound
  refine ⟨hyes, hno, ?_, fun reason hreason => accepts_like_of_refusal? hreason record, ?_⟩
  · intro hread
    rw [accepts_like_eq hread]
    exact ⟨hyes, hno⟩
  · intro c part hc hletter hrun hone
    exact takes_iff_of_not_letter hc hletter hrun hone

end

/-- A pattern with both wildcards, signs, letters of another case and a line feed. -/
theorem like_iff_occurs_sample :
    let text := "No. 1\n(A+Σ)"
    let record : Record := [("id", .bool true), ("name", .string text)]
    let pattern := "_.%\n(a+ς"
    Fields.get? "name" record = some (.string text) ∧
      PatternLimit.standard.refusal? pattern.toList = none ∧
      accepts ⟨"name", .like, .string pattern, none⟩ record = .ok true ∧
      ∃ before parts behind, text.toList = before ++ (parts.flatten ++ behind) ∧
        List.Forall₂ Takes pattern.toList parts := by
  intro text record pattern
  have hread : PatternLimit.standard.refusal? pattern.toList = none := by decide
  have hfound : isFound (ofPattern pattern.toList) text.toList = true := by decide +kernel
  have haccepts : accepts ⟨"name", .like, .string pattern, none⟩ record = .ok true := by
    rw [accepts_like_eq hread, acceptsWith_pattern rfl]
    exact congrArg Except.ok hfound
  have hname : Fields.get? "name" record = some (.string text) := rfl
  obtain ⟨_, _, hoccurs, _⟩ := @like_iff_occurs "name" pattern text none record _ hname
  exact ⟨hname, hread, haccepts, (hoccurs hread).1.1 haccepts⟩

end TableNotation.Condition
