import TableNotation.Proofs.Query.Ordering
/-!
# Mixed columns

Numbers have an order among themselves, so have texts and truth values, and lists and objects
have none.  A column in which two values that are not null have no order is never returned in
half an order: while rows are inserted one by one, each row is compared with one that is not
null if there is any before it, and of rows that were compared without an error all can be
compared with each other.  Nulls cannot stand between, for they are kept at one end.

* `Kind.Clashes`: two kinds of values without an order; `clashes_iff`: these are the values that
  cannot be compared.
* `Ranks.trans`, `ranks_of_order`: what a comparison without an error says of two keys.
* `pairwise_ranks_of_sortOnto`: what a run without an error says of all of them.
* `exists_of_sortOnto_eq_error`: where an error comes from.
* `sort_fails_iff_clash`: which columns cannot be ordered.
-/

namespace TableNotation

/-- Kinds with one order: the two kinds of numbers, texts, and truth values. -/
def Kind.scales : List (List Kind) := [[.int, .float], [.str], [.bool]]

/-- Neither kind is that of null, and they have no order in common. -/
def Kind.Clashes (a b : Kind) : Prop :=
  a ≠ .null ∧ b ≠ .null ∧ ∀ scale ∈ Kind.scales, ¬ (a ∈ scale ∧ b ∈ scale)

instance (a b : Kind) : Decidable (Kind.Clashes a b) := inferInstanceAs (Decidable (_ ∧ _ ∧ _))

/-! ### Keys -/

namespace Value

theorem kind_ne_null_iff {v : Value} : v.kind ≠ .null ↔ v.isNull = false := by
  cases v <;> grind [kind, isNull]

/-- Values have an order if their kinds have. -/
theorem isSome_compare?_iff {a b : Value} :
    (a.compare? b).isSome = true ↔ ∃ scale ∈ Kind.scales, a.kind ∈ scale ∧ b.kind ∈ scale := by
  unfold Kind.scales
  simp only [List.mem_cons, List.not_mem_nil, or_false, exists_eq_or_imp, exists_eq_left]
  cases a <;> cases b <;> grind [kind, compare?]

/-- Values cannot be compared if their kinds clash. -/
theorem clashes_iff {a b : Value} : a.kind.Clashes b.kind ↔ ¬ a.Comparable b := by
  unfold Kind.Clashes Comparable
  rw [kind_ne_null_iff, kind_ne_null_iff, isSome_compare?_iff]
  grind

/-- What has an order with one value has an order with all that the value has one with. -/
theorem isSome_compare?_trans {a b c : Value} (hab : (a.compare? b).isSome = true)
    (hbc : (b.compare? c).isSome = true) : (a.compare? c).isSome = true := by
  cases a <;> cases b <;> cases c <;> simp_all [compare?]

/-- The first key is null, or neither is and they have an order. -/
def Ranks (a b : Value) : Prop :=
  a.isNull = true ∨ b.isNull = false ∧ (a.compare? b).isSome = true

theorem Ranks.comparable {a b : Value} (h : a.Ranks b) : a.Comparable b := by
  intro ha _
  rcases h with hnull | ⟨_, hcompare⟩
  · rw [ha] at hnull
    cases hnull
  · exact hcompare

theorem Ranks.trans {a b c : Value} (hab : a.Ranks b) (hbc : b.Ranks c) : a.Ranks c := by
  rcases hab with ha | ⟨hb, hab⟩
  · exact .inl ha
  · rcases hbc with hnull | ⟨hc, hbc⟩
    · rw [hb] at hnull
      cases hnull
    · exact .inr ⟨hc, isSome_compare?_trans hab hbc⟩

theorem Precedes.ranks {a b : Value} (h : a.Precedes b) : a.Ranks b := by
  rcases h with ha | ⟨hb, _, hcompare, _⟩
  · exact .inl ha
  · exact .inr ⟨hb, Option.isSome_of_eq_some hcompare⟩

theorem not_comparable_iff {a b : Value} : ¬ a.Comparable b ↔ a.keyOrder? b = none := by
  rw [keyOrder?_eq]
  unfold Comparable
  cases a.isNull <;> cases b.isNull <;> simp

end Value

/-! ### Rows -/

namespace Record

variable {field : String} {direction : Direction}

/-- The first row has a null on the side where nulls stand, or the keys of both rows have an
order. -/
def Ranks (field : String) : Direction → Record → Record → Prop
  | .ascending, a, b => (sortKey field a).Ranks (sortKey field b)
  | .descending, a, b => (sortKey field b).Ranks (sortKey field a)

theorem Ranks.comparable {a b : Record} (h : Ranks field direction a b) :
    (sortKey field a).Comparable (sortKey field b) := by
  cases direction with
  | ascending => exact Value.Ranks.comparable h
  | descending => exact (Value.Ranks.comparable h).symm

theorem Ranks.trans {a b c : Record} (hab : Ranks field direction a b)
    (hbc : Ranks field direction b c) : Ranks field direction a c := by
  cases direction with
  | ascending => exact Value.Ranks.trans hab hbc
  | descending => exact Value.Ranks.trans hbc hab

/-- A comparison without an error ranks the rows. -/
theorem ranks_of_order {a b : Record} {rank : Ordering}
    (h : order field direction a b = .ok rank) (hle : rank.isLE = true) :
    Ranks field direction a b := by
  have hprecedes := (precedes_iff h).2 hle
  cases direction with
  | ascending => exact Value.Precedes.ranks hprecedes
  | descending => exact Value.Precedes.ranks hprecedes

/-- A comparison is an error if the kinds of the keys clash, and names the kinds. -/
theorem order_eq_error_iff {a b : Record} {e : QueryError} :
    order field direction a b = .error e ↔
      (sortKey field a).kind.Clashes (sortKey field b).kind ∧
        e = .unordered field (sortKey field a).kind (sortKey field b).kind := by
  rw [Value.clashes_iff, Value.not_comparable_iff]
  unfold order
  cases hkeys : (sortKey field a).keyOrder? (sortKey field b) with
  | none => simp [hkeys, eq_comm]
  | some rank => simp [hkeys]

/-! ### Runs without an error -/

/-- Insertions without an error keep rows ranked, the last one first. -/
theorem pairwise_ranks_of_sortOnto {sorted records all : List Record}
    (hsorted : sorted.Pairwise fun later earlier => Ranks field direction earlier later)
    (h : sortOnto field direction sorted records = .ok all) :
    all.Pairwise fun later earlier => Ranks field direction earlier later := by
  induction records generalizing sorted with
  | nil =>
    obtain rfl := Except.ok.inj h
    exact hsorted
  | cons record rest ih =>
    obtain ⟨inserted, hinserted, h⟩ := bind_eq_ok.1 h
    exact ih (pairwise_insertSorted ranks_of_order (fun _ _ _ _ => Ranks.trans) hsorted hinserted) h

/-- Rows that come back in order have keys that can all be compared with each other. -/
theorem comparable_of_sort {rows ordered : List Record}
    (h : sort field direction rows = .ok ordered) :
    (rows.map (sortKey field)).Pairwise Value.Comparable := by
  obtain ⟨all, hall, rfl⟩ := sort_eq_ok_iff.1 h
  have hperm : all.Perm rows := by
    have hboth := perm_of_sortOnto hall
    rwa [List.append_nil] at hboth
  have hcomparable : (all.map (sortKey field)).Pairwise Value.Comparable :=
    List.pairwise_map.2 ((pairwise_ranks_of_sortOnto List.Pairwise.nil hall).imp
      fun hranks => hranks.comparable.symm)
  exact (hperm.map (sortKey field)).pairwise hcomparable Value.Comparable.symm

/-! ### Errors -/

theorem exists_of_insertSorted_eq_error {record : Record} {sorted : List Record} {e : QueryError}
    (h : insertSorted field direction record sorted = .error e) :
    ∃ x ∈ sorted, order field direction record x = .error e := by
  induction sorted with
  | nil => cases h
  | cons last before ih =>
    rcases bind_eq_error.1 h with hlast | ⟨rank, _, h⟩
    · exact ⟨last, List.mem_cons_self, hlast⟩
    · cases rank with
      | lt =>
        rcases bind_eq_error.1 h with hbefore | ⟨_, _, h⟩
        · obtain ⟨x, hx, hxe⟩ := ih hbefore
          exact ⟨x, List.mem_cons_of_mem _ hx, hxe⟩
        · cases h
      | eq | gt => cases h

/-- An error is that of the comparison of two of the rows. -/
theorem exists_of_sortOnto_eq_error {sorted records : List Record} {e : QueryError}
    (h : sortOnto field direction sorted records = .error e) :
    ∃ a b, [a, b].Subperm (records ++ sorted) ∧ order field direction a b = .error e := by
  induction records generalizing sorted with
  | nil => cases h
  | cons record rest ih =>
    rcases bind_eq_error.1 h with hinsert | ⟨inserted, hinserted, h⟩
    · obtain ⟨x, hx, hxe⟩ := exists_of_insertSorted_eq_error hinsert
      have hpair : [record, x].Sublist (record :: (rest ++ sorted)) :=
        (List.singleton_sublist.2 (List.mem_append_right _ hx)).cons_cons record
      exact ⟨record, x, hpair.subperm, hxe⟩
    · obtain ⟨a, b, hpair, hab⟩ := ih h
      have hperm : (rest ++ inserted).Perm (record :: (rest ++ sorted)) :=
        ((perm_of_insertSorted hinserted).append_left rest).trans List.perm_middle
      exact ⟨a, b, hpair.trans hperm.subperm, hab⟩

/-- So the keys of two rows clash, and the error names their kinds. -/
theorem exists_clash_of_sort {rows : List Record} {e : QueryError}
    (h : sort field direction rows = .error e) :
    ∃ a b, [a, b].Subperm rows ∧ (sortKey field a).kind.Clashes (sortKey field b).kind ∧
      e = .unordered field (sortKey field a).kind (sortKey field b).kind := by
  unfold sort at h
  cases hrun : sortOnto field direction [] rows with
  | ok all => rw [hrun] at h; cases h
  | error e' =>
    rw [hrun] at h
    obtain rfl := Except.error.inj h
    obtain ⟨a, b, hpair, hab⟩ := exists_of_sortOnto_eq_error hrun
    rw [List.append_nil] at hpair
    exact ⟨a, b, hpair, order_eq_error_iff.1 hab⟩

/-- Two rows that can be ordered among others have keys that do not clash. -/
theorem not_clashes_of_sort {rows ordered : List Record} {a b : Record}
    (h : sort field direction rows = .ok ordered) (hpair : [a, b].Subperm rows) :
    ¬ (sortKey field a).kind.Clashes (sortKey field b).kind := by
  rw [Value.clashes_iff, not_not]
  obtain ⟨pair, hperm, hsublist⟩ := hpair
  have hcomparable := ((comparable_of_sort h).sublist (hsublist.map (sortKey field)))
  have hkeys := (hperm.map (sortKey field)).pairwise hcomparable Value.Comparable.symm
  exact List.rel_of_pairwise_cons hkeys List.mem_cons_self

end Record

/-! ### Queries -/

namespace Query

variable [PatternLimit]

/-- The records of a table that pass the filter of a query, with the fields that it wants. -/
def matched (q : Query) (document : Document) : Except QueryError (List Record) := do
  let records ← tableRecords document q.table
  let selected ← q.filtered records
  return q.projected selected

/-- These are put in order, and a part of them is the answer. -/
theorem execute_eq (q : Query) (document : Document) : q.execute document = (do
    let rows ← q.matched document
    let ordered ← q.inOrder rows
    return q.page ordered) := by
  simp only [execute, matched, bind_assoc, pure_bind]

/-- What cannot be ordered is not answered. -/
theorem execute_eq_error_of_sort {q : Query} {document : Document} {field : String}
    {rows : List Record} {e : QueryError} (hfield : q.orderBy = some field)
    (hrows : q.matched document = .ok rows)
    (h : Record.sort field q.direction rows = .error e) : q.execute document = .error e := by
  have horder : q.inOrder rows = .error e := by
    rw [inOrder, hfield]
    exact h
  rw [execute_eq, bind_eq_error]
  exact .inr ⟨rows, hrows, bind_eq_error.2 (.inl horder)⟩

end Query

namespace Record

/-- Rows cannot be ordered by a field if and only if the keys of two of them, at different
places of the table, are of kinds that clash: neither is null, and they are not both numbers,
both texts or both truth values.  The error names the kinds of two such keys, and it is the
answer of every query that orders these rows so. -/
theorem sort_fails_iff_clash [PatternLimit] (field : String) (direction : Direction)
    (rows : List Record) :
    ((∃ e, sort field direction rows = .error e) ↔
      ∃ a b, [a, b].Subperm rows ∧ (sortKey field a).kind.Clashes (sortKey field b).kind) ∧
    ∀ e, sort field direction rows = .error e →
      (∃ a b, [a, b].Subperm rows ∧ (sortKey field a).kind.Clashes (sortKey field b).kind ∧
        e = .unordered field (sortKey field a).kind (sortKey field b).kind) ∧
      ∀ (q : Query) (document : Document), q.orderBy = some field → q.direction = direction →
        q.matched document = .ok rows → q.execute document = .error e := by
  refine ⟨⟨?_, ?_⟩, fun e he => ⟨exists_clash_of_sort he, ?_⟩⟩
  · rintro ⟨e, he⟩
    obtain ⟨a, b, hpair, hclash, _⟩ := exists_clash_of_sort he
    exact ⟨a, b, hpair, hclash⟩
  · rintro ⟨a, b, hpair, hclash⟩
    cases hsort : sort field direction rows with
    | error e => exact ⟨e, rfl⟩
    | ok ordered => exact absurd hclash (not_clashes_of_sort hsort hpair)
  · rintro q document hfield rfl hrows
    exact Query.execute_eq_error_of_sort hfield hrows he

/-- A number and a text with a null and a missing value between them: the rows cannot be
ordered, and a query that asks for no more than the first of them is not answered. -/
theorem sort_fails_iff_clash_sample :
    let one : Value := .number (.integer 1 (by decide))
    let word : Value := .string "a"
    let rows : List Record := [[("v", one)], [("v", .null)], [("id", one)], [("v", word)]]
    let q : Query := ⟨"t", none, none, some "v", .descending, some 1, 0⟩
    let document : Document := [("t", .array (rows.map .object))]
    q.matched document = .ok rows ∧ ∃ e, sort "v" .descending rows = .error e ∧
      q.execute document = .error e := by
  intro one word rows q document
  obtain ⟨hfails, herror⟩ := sort_fails_iff_clash "v" .descending rows
  have hpair : [[("v", one)], [("v", word)]].Subperm rows := by
    apply List.Sublist.subperm
    exact (((List.Sublist.refl [[("v", word)]]).cons _).cons _).cons_cons _
  have hclash : one.kind.Clashes word.kind := by decide
  obtain ⟨e, he⟩ := hfails.2 ⟨_, _, hpair, hclash⟩
  exact ⟨rfl, e, he, (herror e he).2 q document rfl rfl rfl⟩

end Record
end TableNotation
