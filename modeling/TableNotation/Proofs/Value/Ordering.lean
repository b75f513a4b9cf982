import TableNotation.Proofs.Number.Ordering
import TableNotation.Value.Order
/-!
# The order of values

Queries compare numbers with numbers, texts with texts and truth values with truth values.
Numbers are equal if neither is greater, and any two of them have an order, but equality and
order of numbers are transitive only in columns where every double is told apart from the
integers around it.

* `compare?_swap`: a pair from either side; `of_compare?_eq_some`: which pairs have an order;
  `eq_iff_equal`: a pair with an order is equal if neither value is less.
* `HaveOneOrder`: equality and order are transitive in a column.
* `numbers_haveOneOrder`: the numbers of a column have one order if no double among them is
  the nearest one of two different integers among them; integers up to `2 ^ 53` never are.
* `atMost_trans_of_kind`: the order of values of one kind is transitive.
-/

namespace TableNotation

/-- No double of a column is the nearest one of two different integers of the column. -/
def Number.AreApart (column : List Number) : Prop :=
  ∀ x m n hm hn, Number.float x ∈ column → Number.integer m hm ∈ column →
    Number.integer n hn ∈ column → ¬ x.StandsFor m n

/-- Integers up to `2 ^ 53` are told apart by doubles. -/
theorem Number.areApart_of_natAbs_le {column : List Number}
    (h : ∀ n hn, Number.integer n hn ∈ column → n.natAbs ≤ 2 ^ 53) : AreApart column := by
  intro x m n hm hn _ hmem_m hmem_n hstands
  obtain ⟨hne, hm_units, hn_units⟩ := hstands
  exact hne (Double.eq_of_unitsOfInt_eq (h m hm hmem_m) (h n hn hmem_n)
    (hm_units.trans hn_units.symm))

namespace Value

/-- Two values have an order, and in it the first is not greater than the second. -/
def AtMost (a b : Value) : Prop := ∃ order, a.compare? b = some order ∧ order.isLE = true

/-- In a column of values equality is transitive, and so is not being greater. -/
structure HaveOneOrder (column : List Value) : Prop where
  equal_trans : ∀ a ∈ column, ∀ b ∈ column, ∀ c ∈ column,
    a.equal b = true → b.equal c = true → a.equal c = true
  atMost_trans : ∀ a ∈ column, ∀ b ∈ column, ∀ c ∈ column,
    a.AtMost b → b.AtMost c → a.AtMost c

/-! ### Pairs of values -/

/-- The order of a pair does not depend on the side from which it is seen. -/
theorem compare?_swap (a b : Value) : b.compare? a = (a.compare? b).map Ordering.swap := by
  cases a with
  | number m =>
    cases b with
    | number n => exact congrArg some (Number.compare_swap m n)
    | _ => rfl
  | string s =>
    cases b with
    | string t => exact congrArg some Std.OrientedCmp.eq_swap
    | _ => rfl
  | bool p =>
    cases b with
    | bool q => exact congrArg some Std.OrientedCmp.eq_swap
    | _ => rfl
  | _ => cases b <;> rfl

theorem isNull_iff {v : Value} : v.isNull = true ↔ v = .null := by
  cases v <;> simp [isNull]

/-- Numbers, texts and truth values have an order among themselves only. -/
theorem of_compare?_eq_some {a b : Value} {order : Ordering} (h : a.compare? b = some order) :
    (∃ m n, a = .number m ∧ b = .number n) ∨ (∃ s t, a = .string s ∧ b = .string t) ∨
      ∃ p q, a = .bool p ∧ b = .bool q := by
  cases a <;> cases b <;> simp_all [compare?]

/-- Null has no order with anything. -/
theorem isNull_eq_false_of_compare? {a b : Value} {order : Ordering}
    (h : a.compare? b = some order) : a.isNull = false ∧ b.isNull = false := by
  rcases of_compare?_eq_some h with ⟨m, n, rfl, rfl⟩ | ⟨s, t, rfl, rfl⟩ | ⟨p, q, rfl, rfl⟩ <;>
    exact ⟨rfl, rfl⟩

/-- Nothing is compared with null. -/
theorem compare?_null (v : Value) : v.compare? .null = none := by
  cases v <;> rfl

/-- A value above a lower bound is the lower bound below the value. -/
theorem map_isGE_compare? (a b : Value) :
    (a.compare? b).map Ordering.isGE = (b.compare? a).map Ordering.isLE := by
  rw [compare?_swap a b, Option.map_map]
  congr 1
  funext order
  exact Ordering.isLE_swap.symm

theorem equal_number (a b : Number) :
    (number a).equal (number b) = true ↔ a.compare b = .eq := by
  rw [equal, beq_iff_eq]

/-- Values that are neither less nor greater are equal. -/
theorem equal_of_compare? {a b : Value} (h : a.compare? b = some .eq) : a.equal b = true := by
  rcases of_compare?_eq_some h with ⟨m, n, rfl, rfl⟩ | ⟨s, t, rfl, rfl⟩ | ⟨p, q, rfl, rfl⟩
  · exact (equal_number m n).2 (Option.some.inj h)
  · have heq : s = t := Std.LawfulEqCmp.eq_of_compare (Option.some.inj h)
    simp [equal, same, heq]
  · have heq : p = q := Std.LawfulEqCmp.eq_of_compare (Option.some.inj h)
    simp [equal, same, heq]

/-- Values with an order are equal if and only if neither is less. -/
theorem eq_iff_equal {a b : Value} {order : Ordering} (h : a.compare? b = some order) :
    order = .eq ↔ a.equal b = true := by
  constructor
  · rintro rfl
    exact equal_of_compare? h
  · intro hequal
    rcases of_compare?_eq_some h with ⟨m, n, rfl, rfl⟩ | ⟨s, t, rfl, rfl⟩ | ⟨p, q, rfl, rfl⟩
    · rw [← Option.some.inj h]
      exact (equal_number m n).1 hequal
    · have heq : s = t := by simpa [equal, same] using hequal
      rw [← Option.some.inj h, heq]
      exact Std.ReflCmp.compare_self
    · have heq : p = q := by simpa [equal, same] using hequal
      rw [← Option.some.inj h, heq]
      exact Std.ReflCmp.compare_self

/-! ### Numbers -/

theorem atMost_number (a b : Number) :
    (number a).AtMost (number b) ↔ (a.compare b).isLE = true := by
  simp [AtMost, compare?]

/-- Numbers are equal if neither is greater than the other. -/
theorem equal_number_iff_atMost (a b : Number) : (number a).equal (number b) = true ↔
    (number a).AtMost (number b) ∧ (number b).AtMost (number a) := by
  rw [equal_number, atMost_number, atMost_number]
  exact Number.compare_eq_iff

/-- Of two numbers one is not greater than the other. -/
theorem atMost_total (a b : Number) :
    (number a).AtMost (number b) ∨ (number b).AtMost (number a) := by
  rw [atMost_number, atMost_number, Number.compare_swap a b]
  cases a.compare b <;> decide

/-- Numbers that are told apart are ordered transitively. -/
theorem atMost_trans_of_areApart {column : List Number} (h : Number.AreApart column)
    {a b c : Number} (ha : a ∈ column) (hb : b ∈ column) (hc : c ∈ column)
    (hab : (number a).AtMost (number b)) (hbc : (number b).AtMost (number c)) :
    (number a).AtMost (number c) := by
  rw [atMost_number] at hab hbc ⊢
  rcases Number.isLE_or_stands_between hab hbc with hac | ⟨m, n, x, hm, hn, rfl, rfl, rfl, hx⟩
  · exact hac
  · exact absurd hx (h x m n hm hn hb ha hc)

/-- A column in which numbers are told apart has one order. -/
theorem haveOneOrder_of_areApart {column : List Number} (h : Number.AreApart column) :
    HaveOneOrder (column.map number) := by
  constructor
  · simp only [List.forall_mem_map]
    intro a ha b hb c hc hab hbc
    rw [equal_number_iff_atMost] at hab hbc ⊢
    exact ⟨atMost_trans_of_areApart h ha hb hc hab.1 hbc.1,
      atMost_trans_of_areApart h hc hb ha hbc.2 hab.2⟩
  · simp only [List.forall_mem_map]
    intro a ha b hb c hc hab hbc
    exact atMost_trans_of_areApart h ha hb hc hab hbc

/-- A double that stands for two integers is equal to both, so that in a column with one order
these would have to be equal. -/
theorem areApart_of_haveOneOrder {column : List Number} (h : HaveOneOrder (column.map number)) :
    Number.AreApart column := by
  intro x m n hm hn hx hmem_m hmem_n hstands
  obtain ⟨hleft, hright⟩ := Number.compare_eq_of_standsFor hstands hm hn
  have hequal := h.equal_trans _ (List.mem_map_of_mem hmem_m) _ (List.mem_map_of_mem hx) _
    (List.mem_map_of_mem hmem_n) ((equal_number _ _).2 hleft) ((equal_number _ _).2 hright)
  rw [equal_number] at hequal
  exact hstands.1 (Int.compare_eq_eq.1 hequal)

/-- Any two numbers of a column have an order, which is the same from either side, and they are
equal if neither is greater.  Equality and order are transitive in the column if and only if no
double of it is the nearest one of two different integers of it; so they are if its integers are
at most `2 ^ 53`. -/
theorem numbers_haveOneOrder (column : List Number) :
    (∀ a ∈ column, ∀ b ∈ column, (number a).equal (number a) = true ∧
      (number b).equal (number a) = (number a).equal (number b) ∧
      (number b).compare? (number a) = ((number a).compare? (number b)).map Ordering.swap ∧
      ((number a).AtMost (number b) ∨ (number b).AtMost (number a)) ∧
      ((number a).equal (number b) = true ↔
        (number a).AtMost (number b) ∧ (number b).AtMost (number a))) ∧
    (HaveOneOrder (column.map number) ↔ Number.AreApart column) ∧
    ((∀ n hn, Number.integer n hn ∈ column → n.natAbs ≤ 2 ^ 53) →
      HaveOneOrder (column.map number)) := by
  refine ⟨fun a _ b _ => ⟨?_, ?_, compare?_swap _ _, atMost_total a b,
    equal_number_iff_atMost a b⟩, ⟨areApart_of_haveOneOrder, haveOneOrder_of_areApart⟩,
    fun h => haveOneOrder_of_areApart (Number.areApart_of_natAbs_le h)⟩
  · rw [equal_number]
    exact Number.compare_self a
  · rw [Bool.eq_iff_iff, equal_number_iff_atMost, equal_number_iff_atMost]
    exact And.comm

/-- Integers, a half and the largest integer that is told apart from its neighbours. -/
theorem numbers_haveOneOrder_sample :
    let half : Number := .float ⟨false, 2 ^ 52, 1021, by decide⟩
    let column : List Number := [.integer (2 ^ 53) (by decide), half, .integer (-1) (by decide)]
    (∀ n hn, Number.integer n hn ∈ column → n.natAbs ≤ 2 ^ 53) ∧
      HaveOneOrder (column.map number) := by
  intro half column
  have hsmall : ∀ n hn, Number.integer n hn ∈ column → n.natAbs ≤ 2 ^ 53 := by
    intro n hn hmem
    simp only [column, half, List.mem_cons, List.not_mem_nil, or_false, Number.integer.injEq,
      reduceCtorEq, false_or] at hmem
    omega
  exact ⟨hsmall, (numbers_haveOneOrder column).2.2 hsmall⟩

/-- The double `2 ^ 53` is equal to the integer `2 ^ 53` and to the next one, which are not
equal. -/
theorem numbers_without_one_order :
    let next : Value := .number (.integer (2 ^ 53 + 1) (by decide))
    let double : Value := .number (.float ⟨false, 2 ^ 52, 1075, by decide⟩)
    let exactly : Value := .number (.integer (2 ^ 53) (by decide))
    (next.equal double = true ∧ double.equal exactly = true ∧ next.equal exactly = false) ∧
      next.AtMost double ∧ double.AtMost exactly ∧ ¬ next.AtMost exactly := by
  intro next double exactly
  refine ⟨by decide +kernel, ?_⟩
  simp only [next, double, exactly, atMost_number]
  decide +kernel

/-! ### Values of one kind -/

/-- Values of one kind have an order if they are not null and hold no other values. -/
theorem isSome_compare?_of_kind {a b : Value} {kind : Kind}
    (hkind : kind ∈ [Kind.int, .float, .str, .bool]) (ha : a.kind = kind) (hb : b.kind = kind) :
    (a.compare? b).isSome = true := by
  subst ha
  cases a <;> cases b <;> grind [Value.kind, compare?]

/-- The order of values of one kind is transitive. -/
theorem atMost_trans_of_kind {a b c : Value} (hkind : a.kind = b.kind) (hab : a.AtMost b)
    (hbc : b.AtMost c) : a.AtMost c := by
  obtain ⟨first, hfirst, hfirst_le⟩ := hab
  obtain ⟨second, hsecond, hsecond_le⟩ := hbc
  rcases of_compare?_eq_some hfirst with ⟨m, n, rfl, rfl⟩ | ⟨s, t, rfl, rfl⟩ | ⟨p, q, rfl, rfl⟩
  · obtain ⟨k, rfl⟩ : ∃ k, c = .number k := by simpa using of_compare?_eq_some hsecond
    obtain rfl := Option.some.inj hfirst
    obtain rfl := Option.some.inj hsecond
    rw [atMost_number]
    rcases Number.isLE_or_stands_between hfirst_le hsecond_le with
      hle | ⟨_, _, _, _, _, rfl, rfl, _⟩
    · exact hle
    · cases hkind
  · obtain ⟨u, rfl⟩ : ∃ u, c = .string u := by simpa using of_compare?_eq_some hsecond
    obtain rfl := Option.some.inj hfirst
    obtain rfl := Option.some.inj hsecond
    exact ⟨_, rfl, Std.TransCmp.isLE_trans hfirst_le hsecond_le⟩
  · obtain ⟨r, rfl⟩ : ∃ r, c = .bool r := by simpa using of_compare?_eq_some hsecond
    obtain rfl := Option.some.inj hfirst
    obtain rfl := Option.some.inj hsecond
    exact ⟨_, rfl, Std.TransCmp.isLE_trans hfirst_le hsecond_le⟩

end Value
end TableNotation
