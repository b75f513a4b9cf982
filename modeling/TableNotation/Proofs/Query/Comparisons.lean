import TableNotation.Proofs.Number.Forms
import TableNotation.Proofs.Query.Connectives
import TableNotation.Proofs.Value.Ordering
/-!
# Comparisons

The order of two values and their equality are found in different ways, but never contradict each
other: values that have an order are equal if and only if neither is less.  So exactly one of the
comparisons `<`, `=` and `>` holds of a field and a literal that have an order, and each of the
other three holds where one of these does not.

* `Comparison.holdsIn?`: the orders in which a comparison holds.
* `Condition.accepts_of_compare?`: a comparison of values with an order has the answer of their
  order.
* `Condition.existsUnique_accepts`: exactly one of the exclusive comparisons holds.
* `Value.order_agrees_with_equality`: what this says of two values, a record and a literal.
-/

namespace TableNotation

namespace Comparison

/-- Whether a comparison holds of values with an order, if the order tells. -/
def holdsIn? : Comparison → Ordering → Option Bool
  | .equal, order => some order.isEq
  | .unequal, order => some order.isNe
  | .less, order => some order.isLT
  | .greater, order => some order.isGT
  | .atMost, order => some order.isLE
  | .atLeast, order => some order.isGE
  | _, _ => none

/-- The comparisons that exclude each other. -/
def exclusive : List Comparison := [.less, .equal, .greater]

/-- In every order exactly one of the exclusive comparisons holds. -/
theorem existsUnique_holdsIn? (order : Ordering) :
    ∃! c, c ∈ exclusive ∧ c.holdsIn? order = some true := by
  cases order with
  | lt => exact ⟨.less, by decide, fun c => by cases c <;> decide⟩
  | eq => exact ⟨.equal, by decide, fun c => by cases c <;> decide⟩
  | gt => exact ⟨.greater, by decide, fun c => by cases c <;> decide⟩

/-- The order tells whether an exclusive comparison holds. -/
theorem exists_holdsIn? {c : Comparison} (h : c ∈ exclusive) (order : Ordering) :
    ∃ answer, c.holdsIn? order = some answer := by
  simp only [exclusive, List.mem_cons, List.not_mem_nil, or_false] at h
  obtain rfl | rfl | rfl := h <;> exact ⟨_, rfl⟩

end Comparison

namespace Condition

variable {field : String} {upper : Option Value} {record : Record} {a b : Value} {order : Ordering}

/-- Values with an order are compared without an error. -/
theorem ordered_of_compare? (h : a.compare? b = some order) (c : Condition)
    (wanted : Ordering → Bool) : c.ordered a b wanted = .ok (wanted order) := by
  rw [ordered, (Value.isNull_eq_false_of_compare? h).1, if_neg Bool.false_ne_true, h]

variable [PatternLimit]

/-- A comparison of a field with a literal has the answer of their order. -/
theorem accepts_of_compare? (hactual : Fields.get? field record = some a)
    (h : a.compare? b = some order) {c : Comparison} {answer : Bool}
    (hc : c.holdsIn? order = some answer) : accepts ⟨field, c, b, upper⟩ record = .ok answer := by
  have hequal : a.equal b = order.isEq := by
    rw [Bool.eq_iff_iff, ← Value.eq_iff_equal h, Ordering.isEq_iff_eq_eq]
  have hunequal : (!a.equal b) = order.isNe := by
    rw [hequal]
    cases order <;> rfl
  have hlike : c ≠ .like := by
    rintro rfl
    cases hc
  rw [accepts_of_ne_like hlike]
  simp only [acceptsWith, hactual]
  cases c with
  | equal => exact congrArg Except.ok (hequal.trans (Option.some.inj hc))
  | unequal => exact congrArg Except.ok (hunequal.trans (Option.some.inj hc))
  | less | greater | atMost | atLeast =>
    exact (ordered_of_compare? h _ _).trans (congrArg Except.ok (Option.some.inj hc))
  | like | among | notAmong | between => cases hc

/-- Of a field and a literal with an order exactly one of the exclusive comparisons holds. -/
theorem existsUnique_accepts (hactual : Fields.get? field record = some a)
    (h : a.compare? b = some order) :
    ∃! c, c ∈ Comparison.exclusive ∧ accepts ⟨field, c, b, upper⟩ record = .ok true := by
  refine (existsUnique_congr fun c => and_congr_right fun hmem => ?_).1
    (Comparison.existsUnique_holdsIn? order)
  obtain ⟨answer, hanswer⟩ := Comparison.exists_holdsIn? hmem order
  rw [hanswer, accepts_of_compare? hactual h hanswer, Option.some.injEq, Except.ok.injEq]

end Condition

namespace Value

/-- The order of two values from one side is the reverse of that from the other.  Numbers are
ordered in the first form that both of them have, so any two of them have an order, as have any two
texts and any two truth values, and nothing else has.  Values with an order are equal if and only if
neither is less.  A field and a literal with an order are compared without an error: exactly one of
`<`, `=` and `>` holds, as the order says, and `<=`, `>=` and `!=` hold where `>`, `<` and `=` do
not. -/
theorem order_agrees_with_equality [PatternLimit] (a b : Value) :
    b.compare? a = (a.compare? b).map Ordering.swap ∧
    (b.compare? a = none ↔ a.compare? b = none) ∧
    (∀ m n, a = .number m → b = .number n → a.compare? b = m.compareByForm? n) ∧
    ((a.compare? b).isSome = true ↔
      (∃ m n, a = .number m ∧ b = .number n) ∨ (∃ s t, a = .string s ∧ b = .string t) ∨
        ∃ p q, a = .bool p ∧ b = .bool q) ∧
    ∀ order, a.compare? b = some order →
      (order = .eq ↔ a.equal b = true) ∧
      ∀ (field : String) (upper : Option Value) (record : Record),
        Fields.get? field record = some a →
        let outcome : Comparison → Outcome := fun c => Condition.accepts ⟨field, c, b, upper⟩ record
        (∃! c, c ∈ [Comparison.less, .equal, .greater] ∧ outcome c = .ok true) ∧
        outcome .less = .ok order.isLT ∧ outcome .equal = .ok order.isEq ∧
        outcome .greater = .ok order.isGT ∧
        outcome .atMost = (outcome .greater).negated ∧
        outcome .atLeast = (outcome .less).negated ∧
        outcome .unequal = (outcome .equal).negated := by
  refine ⟨compare?_swap a b, ?_, ?_, ⟨?_, ?_⟩, ?_⟩
  · rw [compare?_swap a b, Option.map_eq_none_iff]
  · rintro m n rfl rfl
    exact (Number.compareByForm?_eq m n).symm
  · intro hsome
    obtain ⟨order, horder⟩ := Option.isSome_iff_exists.1 hsome
    exact of_compare?_eq_some horder
  · rintro (⟨m, n, rfl, rfl⟩ | ⟨s, t, rfl, rfl⟩ | ⟨p, q, rfl, rfl⟩) <;> rfl
  · intro order horder
    refine ⟨eq_iff_equal horder, ?_⟩
    intro field upper record hactual outcome
    have houtcome : ∀ {c answer}, Comparison.holdsIn? c order = some answer →
        outcome c = .ok answer := Condition.accepts_of_compare? hactual horder
    have hless : outcome .less = .ok order.isLT := houtcome rfl
    have hequal : outcome .equal = .ok order.isEq := houtcome rfl
    have hgreater : outcome .greater = .ok order.isGT := houtcome rfl
    refine ⟨Condition.existsUnique_accepts hactual horder, hless, hequal, hgreater, ?_, ?_, ?_⟩
    · rw [hgreater, houtcome (c := .atMost) rfl]
      cases order <;> rfl
    · rw [hless, houtcome (c := .atLeast) rfl]
      cases order <;> rfl
    · rw [hequal, houtcome (c := .unequal) rfl]
      cases order <;> rfl

/-- A number below zero and one above all signed words, which are no words of one form. -/
theorem order_agrees_with_equality_sample :
    let below : Value := .number (.integer (-1) (by decide))
    let above : Value := .number (.integer (2 ^ 64 - 1) (by decide))
    let record : Record := [("x", below)]
    let outcome : Comparison → Outcome := fun c => Condition.accepts ⟨"x", c, above, none⟩ record
    (below.compare? above = some .lt ∧ Fields.get? "x" record = some below) ∧
      above.compare? below = some .gt ∧ below.equal above = false ∧
      (∃! c, c ∈ [Comparison.less, .equal, .greater] ∧ outcome c = .ok true) ∧
      outcome .less = .ok true ∧ outcome .atMost = .ok true ∧ outcome .atLeast = .ok false ∧
      outcome .unequal = .ok true := by
  intro below above record outcome
  have horder : below.compare? above = some .lt := rfl
  obtain ⟨hswap, _, _, _, hpair⟩ := order_agrees_with_equality below above
  obtain ⟨hequal, hrecord⟩ := hpair .lt horder
  obtain ⟨hunique, hless, heq, hgreater, hatMost, hatLeast, hunequal⟩ :=
    hrecord "x" none record rfl
  refine ⟨⟨horder, rfl⟩, hswap, ?_, hunique, hless, ?_, ?_, ?_⟩
  · rw [← Bool.not_eq_true, ← hequal]
    decide
  · exact hatMost.trans (congrArg Outcome.negated hgreater)
  · exact hatLeast.trans (congrArg Outcome.negated hless)
  · exact hunequal.trans (congrArg Outcome.negated heq)

end Value
end TableNotation
