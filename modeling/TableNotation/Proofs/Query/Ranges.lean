import TableNotation.Proofs.Success
import TableNotation.Proofs.Value.Ordering
import TableNotation.Query.Filter
/-!
# Ranges

`BETWEEN` abbreviates two comparisons joined by AND.  The abbreviation and the two comparisons
have one outcome, an answer or a failure, but for one case: a lower bound that is null is
compared from the other side, where null is not greater than anything and fails no comparison.
So a range from null up is empty, while the comparison with null fails.

* `toOption_ordered`: the outcome of a comparison by order.
* `Condition.accepts_range`, `Group.accepts_bounds`: no pattern is read in either form.
* `toOption_range`, `toOption_bounds`: the outcomes of the two forms.
* `range_eq_bounds_iff`: when they are the same.
-/

namespace TableNotation

/-- The condition `field BETWEEN lower AND upper`. -/
def Condition.range (field : String) (lower upper : Value) : Condition :=
  ⟨field, .between, lower, some upper⟩

/-- The conditions `field >= lower AND field <= upper`. -/
def Group.bounds (field : String) (lower upper : Value) : Group :=
  ⟨.and, [.condition ⟨field, .atLeast, lower, none⟩, .condition ⟨field, .atMost, upper, none⟩]⟩

namespace Condition

/-- A comparison by order answers if the values have an order or the left one is null. -/
theorem toOption_ordered (c : Condition) (left right : Value) (wanted : Ordering → Bool) :
    (c.ordered left right wanted).toOption
      = if left.isNull then some false else (left.compare? right).map wanted := by
  unfold ordered
  split
  · rfl
  · cases left.compare? right <;> rfl

theorem accepts_range [PatternLimit] (field : String) (lower upper : Value) (record : Record) :
    (range field lower upper).accepts record = (range field lower upper).acceptsWith none record :=
  accepts_of_ne_like (by simp [range]) record

/-- A value that is not null lies in a range if the lower bound is not greater, and the value
is not greater than the upper bound. -/
theorem toOption_range [PatternLimit] {field : String} {lower upper actual : Value}
    {record : Record} (hactual : Fields.get? field record = some actual)
    (hnull : actual.isNull = false) :
    ((range field lower upper).accepts record).toOption
      = (if lower.isNull then some false else (lower.compare? actual).map Ordering.isLE).bind
        fun above => if above then (actual.compare? upper).map Ordering.isLE else some false := by
  have haccepts : (range field lower upper).accepts record
      = (range field lower upper).isBetween actual := by
    rw [accepts_range]
    simp only [acceptsWith, range, hactual, holdsOf]
  rw [haccepts, isBetween, if_neg (by simp [hnull]), toOption_bind, toOption_ordered]
  congr 1
  funext above
  cases above with
  | true =>
    have hupper := toOption_ordered (range field lower upper) actual upper Ordering.isLE
    rwa [if_neg (by simp [hnull])] at hupper
  | false => rfl

end Condition

section

variable [PatternLimit]

/-- The second comparison is asked if the first holds. -/
theorem Group.accepts_bounds (field : String) (lower upper : Value) (record : Record) :
    (bounds field lower upper).accepts record
      = do
        if ← Condition.acceptsWith ⟨field, .atLeast, lower, none⟩ none record then
          Condition.acceptsWith ⟨field, .atMost, upper, none⟩ none record
        else return false := by
  let below : Condition := ⟨field, .atMost, upper, none⟩
  have hsecond : Filter.allAccept record [.leaf below none] = below.acceptsWith none record := by
    rw [Filter.allAccept, Filter.accepts, Filter.allAccept]
    cases below.acceptsWith none record with
    | error e => rfl
    | ok accepted => cases accepted <;> rfl
  rw [← hsecond]
  rfl

/-- A value that is not null satisfies the two comparisons if it is not less than the lower
bound and not greater than the upper one. -/
theorem Group.toOption_bounds {field : String} {lower upper actual : Value} {record : Record}
    (hactual : Fields.get? field record = some actual) (hnull : actual.isNull = false) :
    ((bounds field lower upper).accepts record).toOption
      = ((actual.compare? lower).map Ordering.isGE).bind
        fun above => if above then (actual.compare? upper).map Ordering.isLE else some false := by
  have hcompared : ∀ (c : Condition) (v : Value) (wanted : Ordering → Bool),
      (c.ordered actual v wanted).toOption = (actual.compare? v).map wanted := by
    intro c v wanted
    rw [Condition.toOption_ordered, if_neg (by simp [hnull])]
  rw [accepts_bounds, toOption_bind]
  simp only [Condition.acceptsWith, Condition.holdsOf, hactual, hcompared]
  congr 1
  funext above
  cases above with
  | true => exact hcompared _ upper _
  | false => rfl

/-- A record without a value to compare, since the field is missing or null, satisfies neither
form. -/
theorem accepts_eq_false_of_no_value {field : String} {record : Record} (lower upper : Value)
    (h : ∀ actual, Fields.get? field record = some actual → actual.isNull = true) :
    (Condition.range field lower upper).accepts record = .ok false ∧
      (Group.bounds field lower upper).accepts record = .ok false := by
  rw [Condition.accepts_range, Group.accepts_bounds]
  simp only [Condition.acceptsWith, Condition.range, Condition.holdsOf]
  cases hactual : Fields.get? field record with
  | none => exact ⟨rfl, rfl⟩
  | some actual =>
    rw [Value.isNull_iff.1 (h actual hactual)]
    exact ⟨rfl, rfl⟩

/-- A range and its two comparisons have one outcome for a record, an answer or a failure,
unless the lower bound is null and the record has a value to compare with it.  Then the value
does not lie in the range, but comparing it with null fails. -/
theorem range_eq_bounds_iff (field : String) (lower upper : Value) (record : Record) :
    let range := (Condition.range field lower upper).accepts record
    let bounds := (Group.bounds field lower upper).accepts record
    let comparesNull := lower.isNull = true ∧
      ∃ actual, Fields.get? field record = some actual ∧ actual.isNull = false
    (range.toOption = bounds.toOption ↔ ¬ comparesNull) ∧
      (comparesNull → range.toOption = some false ∧ bounds.toOption = none) := by
  intro range bounds comparesNull
  by_cases hvalue : ∃ actual, Fields.get? field record = some actual ∧ actual.isNull = false
  · obtain ⟨actual, hactual, hnull⟩ := hvalue
    have hrange : range.toOption = _ := Condition.toOption_range hactual hnull
    have hbounds : bounds.toOption = _ := Group.toOption_bounds hactual hnull
    by_cases hlower : lower.isNull = true
    · have hcompares : comparesNull := ⟨hlower, actual, hactual, hnull⟩
      rw [if_pos hlower, Option.bind_some] at hrange
      rw [Value.isNull_iff.1 hlower, Value.compare?_null] at hbounds
      rw [hrange, hbounds]
      exact ⟨⟨nofun, fun h => absurd hcompares h⟩, fun _ => ⟨rfl, rfl⟩⟩
    · have hcompares : ¬ comparesNull := fun h => hlower h.1
      rw [if_neg hlower, ← Value.map_isGE_compare?] at hrange
      exact ⟨⟨fun _ => hcompares, fun _ => hrange.trans hbounds.symm⟩,
        fun h => absurd h hcompares⟩
  · have hcompares : ¬ comparesNull := fun h => hvalue h.2
    have hmissing : ∀ actual, Fields.get? field record = some actual → actual.isNull = true := by
      intro actual hactual
      by_cases hnull : actual.isNull = true
      · exact hnull
      · exact absurd ⟨actual, hactual, by simpa using hnull⟩ hvalue
    obtain ⟨hrange, hbounds⟩ := accepts_eq_false_of_no_value lower upper hmissing
    have hsame : range.toOption = bounds.toOption :=
      congrArg Except.toOption (hrange.trans hbounds.symm)
    exact ⟨⟨fun _ => hcompares, fun _ => hsame⟩, fun h => absurd h hcompares⟩

end

/-- A truth value and the range from null to a number. -/
theorem range_eq_bounds_iff_sample :
    let record : Record := [("x", .bool true)]
    let five : Value := .number (.integer 5 (by decide))
    let range := (Condition.range "x" .null five).accepts record
    let bounds := (Group.bounds "x" .null five).accepts record
    (Value.isNull .null = true ∧
      ∃ actual, Fields.get? "x" record = some actual ∧ actual.isNull = false) ∧
      range.toOption = some false ∧ bounds.toOption = none := by
  intro record five range bounds
  have hcompares : Value.isNull .null = true ∧
      ∃ actual, Fields.get? "x" record = some actual ∧ actual.isNull = false :=
    ⟨rfl, .bool true, rfl, rfl⟩
  exact ⟨hcompares, (range_eq_bounds_iff "x" .null five record).2 hcompares⟩

/-- The number 1 does not lie between null and 5, but to compare it with null fails. -/
theorem range_from_null :
    let record : Record := [("x", .number (.integer 1 (by decide)))]
    let five : Value := .number (.integer 5 (by decide))
    (Condition.range "x" .null five).accepts record = .ok false ∧
      (Group.bounds "x" .null five).accepts record
        = .error (.incomparable .int .null ⟨"x", .atLeast, .null, none⟩) :=
  ⟨rfl, rfl⟩

end TableNotation
