import TableNotation.Proofs.Query.Answers
import TableNotation.Proofs.Value.Ordering
/-!
# Stable order

Records are put in order by the values of a field, one after the other: each goes behind all
that it does not precede.  If any two values of the field that are not null have an order, this
succeeds.  If the order is transitive among these values too, the records come out in order, and
those with equal values as they stood, in either direction.

* `Value.AreOrdered`: keys by which records can be ordered; `areOrdered_of_kind`: among others
  those of one kind.
* `exists_sortOnto`: ordering succeeds.
* `IsStablySorted.insert`, `isStablySorted_of_sortOnto`: what an insertion preserves, and a run.
* `IsStablySorted.unique`: there is one stable order.
* `sort_isStable`: records come out in a stable order.
-/

namespace TableNotation

/-! ### Keys -/

namespace Value

/-- Two keys have an order unless one of them is null. -/
def Comparable (a b : Value) : Prop :=
  a.isNull = false → b.isNull = false → (a.compare? b).isSome = true

/-- Any two keys of different records that are not null have an order, which is transitive
among the keys. -/
structure AreOrdered (keys : List Value) : Prop where
  comparable : keys.Pairwise Comparable
  trans : ∀ a ∈ keys, ∀ b ∈ keys, ∀ c ∈ keys, a.AtMost b → b.AtMost c → a.AtMost c

/-- The first key may stand before the second: null before everything, and other keys before
those that are not less. -/
def Precedes (a b : Value) : Prop := a.isNull = true ∨ b.isNull = false ∧ a.AtMost b

theorem AreOrdered.sublist {keys fewer : List Value} (h : AreOrdered keys)
    (hfewer : fewer.Sublist keys) : AreOrdered fewer where
  comparable := h.comparable.sublist hfewer
  trans := fun a ha b hb c hc =>
    h.trans a (hfewer.subset ha) b (hfewer.subset hb) c (hfewer.subset hc)

theorem keyOrder?_eq (a b : Value) : a.keyOrder? b
    = if a.isNull then (if b.isNull then some .eq else some .lt)
      else if b.isNull then some .gt else a.compare? b := by
  cases a <;> cases b <;> rfl

theorem keyOrder?_swap (a b : Value) : b.keyOrder? a = (a.keyOrder? b).map Ordering.swap := by
  rw [keyOrder?_eq, keyOrder?_eq, compare?_swap a b]
  cases a.isNull <;> cases b.isNull <;> rfl

theorem exists_keyOrder? {a b : Value} (h : a.Comparable b) :
    ∃ order, a.keyOrder? b = some order := by
  rw [keyOrder?_eq]
  by_cases ha : a.isNull = true
  · by_cases hb : b.isNull = true <;> simp [ha, hb]
  · by_cases hb : b.isNull = true
    · simp [ha, hb]
    · rw [if_neg ha, if_neg hb]
      exact Option.isSome_iff_exists.1 (h (by simpa using ha) (by simpa using hb))

theorem Comparable.symm {a b : Value} (h : a.Comparable b) : b.Comparable a := by
  intro hb ha
  rw [compare?_swap a b, Option.isSome_map]
  exact h ha hb

/-- A key may stand before another if it is not greater in the order of keys. -/
theorem precedes_iff {a b : Value} {order : Ordering} (h : a.keyOrder? b = some order) :
    a.Precedes b ↔ order.isLE = true := by
  rw [keyOrder?_eq] at h
  by_cases ha : a.isNull = true
  · have hle : order.isLE = true := by
      by_cases hb : b.isNull = true
      · rw [if_pos ha, if_pos hb] at h
        exact Option.some.inj h ▸ rfl
      · rw [if_pos ha, if_neg hb] at h
        exact Option.some.inj h ▸ rfl
    exact ⟨fun _ => hle, fun _ => .inl ha⟩
  · rw [if_neg ha] at h
    by_cases hb : b.isNull = true
    · rw [if_pos hb] at h
      obtain rfl := Option.some.inj h
      simp [Precedes, ha, hb]
    · rw [if_neg hb] at h
      simp [Precedes, ha, hb, AtMost, h]

theorem Precedes.trans {a b c : Value} (hab : a.Precedes b) (hbc : b.Precedes c)
    (htrans : a.AtMost b → b.AtMost c → a.AtMost c) : a.Precedes c := by
  rcases hab with ha | ⟨hb, hab⟩
  · exact .inl ha
  · rcases hbc with hnull | ⟨hc, hbc⟩
    · rw [hb] at hnull
      cases hnull
    · exact .inr ⟨hc, htrans hab hbc⟩

/-- Equal keys have one rank if they have an order at all. -/
theorem keyOrder?_of_equal {a b : Value} {order : Ordering} (hequal : a.equal b = true)
    (h : a.keyOrder? b = some order) : order = .eq := by
  cases a <;> cases b <;> simp_all [equal, same, keyOrder?, compare?]

/-- Keys each of which may stand before the other are equal. -/
theorem equal_of_precedes {a b : Value} (hab : a.Precedes b) (hba : b.Precedes a) :
    a.equal b = true := by
  rcases hab with ha | ⟨hb, first, hfirst, hfirst_le⟩
  · rcases hba with hb | ⟨ha', _⟩
    · rw [isNull_iff.1 ha, isNull_iff.1 hb]
      rfl
    · rw [ha] at ha'
      cases ha'
  · rcases hba with hb' | ⟨_, second, hsecond, hsecond_le⟩
    · rw [hb] at hb'
      cases hb'
    · rw [compare?_swap a b, hfirst] at hsecond
      obtain rfl := Option.some.inj hsecond
      obtain rfl : first = .eq := by cases first <;> simp_all
      exact equal_of_compare? hfirst

/-- A key that may stand before another may stand before itself. -/
theorem Precedes.self {a b : Value} (h : a.Precedes b) : a.Precedes a := by
  rcases h with ha | ⟨_, _, hcompare, _⟩
  · exact .inl ha
  · have heq : a.compare? a = some .eq := by
      rcases of_compare?_eq_some hcompare with
        ⟨m, _, rfl, _⟩ | ⟨s, _, rfl, _⟩ | ⟨p, _, rfl, _⟩
      · exact congrArg some (Number.compare_self m)
      · exact congrArg some Std.ReflCmp.compare_self
      · exact congrArg some Std.ReflCmp.compare_self
    exact .inr ⟨(isNull_eq_false_of_compare? hcompare).1, .eq, heq, rfl⟩

/-- Keys of one kind, and nulls among them, are ordered. -/
theorem areOrdered_of_kind {keys : List Value} {kind : Kind}
    (hkind : kind ∈ [Kind.int, .float, .str, .bool])
    (h : ∀ v ∈ keys, v.isNull = true ∨ v.kind = kind) : AreOrdered keys := by
  have hkeys : ∀ {v}, v ∈ keys → v.isNull = false → v.kind = kind :=
    fun hv hnull => (h _ hv).resolve_left (by simp [hnull])
  constructor
  · apply List.pairwise_of_forall_mem_list
    intro a ha b hb hanull hbnull
    exact isSome_compare?_of_kind hkind (hkeys ha hanull) (hkeys hb hbnull)
  · intro a ha b hb c _ hab hbc
    obtain ⟨hanull, hbnull⟩ := isNull_eq_false_of_compare? hab.choose_spec.1
    exact atMost_trans_of_kind ((hkeys ha hanull).trans (hkeys hb hbnull).symm) hab hbc

end Value

/-! ### Records -/

namespace Record

variable {field : String} {direction : Direction}

/-- The first record may stand before the second, in a direction. -/
def Precedes (field : String) : Direction → Record → Record → Prop
  | .ascending, a, b => (sortKey field a).Precedes (sortKey field b)
  | .descending, a, b => (sortKey field b).Precedes (sortKey field a)

/-- All rows that are picked have equal keys. -/
def PicksTies (field : String) (rows : List Record) (pick : Record → Bool) : Prop :=
  ∀ a ∈ rows, ∀ b ∈ rows, pick a = true → pick b = true →
    (sortKey field a).equal (sortKey field b) = true

/-- Records are the given rows in order, and rows with equal keys stand as they stood: whatever
picks rows with equal keys only picks the same ones in the same order. -/
structure IsStablySorted (field : String) (direction : Direction) (rows ordered : List Record) :
    Prop where
  perm : ordered.Perm rows
  sorted : ordered.Pairwise (Precedes field direction)
  stable : ∀ pick, PicksTies field rows pick → ordered.filter pick = rows.filter pick

theorem PicksTies.subset {rows fewer : List Record} {pick : Record → Bool}
    (h : PicksTies field rows pick) (hfewer : fewer ⊆ rows) : PicksTies field fewer pick :=
  fun a ha b hb => h a (hfewer ha) b (hfewer hb)

theorem order_eq_ok_iff {a b : Record} {rank : Ordering} :
    order field direction a b = .ok rank ↔
      ((sortKey field a).keyOrder? (sortKey field b)).map direction.apply = some rank := by
  unfold order
  cases hkeys : (sortKey field a).keyOrder? (sortKey field b) with
  | none => simp [hkeys]
  | some keyRank => simp [hkeys]

theorem exists_order {a b : Record} (h : (sortKey field a).Comparable (sortKey field b)) :
    ∃ rank, order field direction a b = .ok rank := by
  obtain ⟨rank, hrank⟩ := Value.exists_keyOrder? h
  exact ⟨direction.apply rank, order_eq_ok_iff.2 (by rw [hrank, Option.map_some])⟩

theorem order_swap {a b : Record} {rank : Ordering} (h : order field direction a b = .ok rank) :
    order field direction b a = .ok rank.swap := by
  rw [order_eq_ok_iff] at h ⊢
  obtain ⟨keyRank, hkeyRank, rfl⟩ := Option.map_eq_some_iff.1 h
  rw [Value.keyOrder?_swap, hkeyRank]
  cases direction <;> rfl

/-- The record that is not greater may stand before the other one. -/
theorem precedes_iff {a b : Record} {rank : Ordering} (h : order field direction a b = .ok rank) :
    Precedes field direction a b ↔ rank.isLE = true := by
  obtain ⟨keyRank, hkeyRank, rfl⟩ := Option.map_eq_some_iff.1 (order_eq_ok_iff.1 h)
  cases direction with
  | ascending => exact Value.precedes_iff hkeyRank
  | descending =>
    have hswap : (sortKey field b).keyOrder? (sortKey field a) = some keyRank.swap := by
      rw [Value.keyOrder?_swap, hkeyRank, Option.map_some]
    exact Value.precedes_iff hswap

/-- Records with equal keys have one rank. -/
theorem order_of_equal {a b : Record} {rank : Ordering}
    (hequal : (sortKey field a).equal (sortKey field b) = true)
    (h : order field direction a b = .ok rank) : rank = .eq := by
  obtain ⟨keyRank, hkeyRank, rfl⟩ := Option.map_eq_some_iff.1 (order_eq_ok_iff.1 h)
  rw [Value.keyOrder?_of_equal hequal hkeyRank]
  cases direction <;> rfl

theorem Precedes.trans {a b c : Record} {rows : List Record}
    (hrows : Value.AreOrdered (rows.map (sortKey field))) (ha : a ∈ rows) (hb : b ∈ rows)
    (hc : c ∈ rows) (hab : Precedes field direction a b) (hbc : Precedes field direction b c) :
    Precedes field direction a c := by
  have hkey : ∀ {record}, record ∈ rows → sortKey field record ∈ rows.map (sortKey field) :=
    fun hmem => List.mem_map_of_mem hmem
  cases direction with
  | ascending =>
    exact Value.Precedes.trans hab hbc (hrows.trans _ (hkey ha) _ (hkey hb) _ (hkey hc))
  | descending =>
    exact Value.Precedes.trans hbc hab (hrows.trans _ (hkey hc) _ (hkey hb) _ (hkey ha))

/-! ### Insertions -/

/-- A record can be inserted among others if its key can be compared with theirs. -/
theorem exists_insertSorted {record : Record} {sorted : List Record}
    (h : ∀ last ∈ sorted, (sortKey field record).Comparable (sortKey field last)) :
    ∃ inserted, insertSorted field direction record sorted = .ok inserted := by
  induction sorted with
  | nil => exact ⟨[record], rfl⟩
  | cons last before ih =>
    obtain ⟨hlast, hbefore⟩ := List.forall_mem_cons.1 h
    obtain ⟨rank, hrank⟩ := exists_order hlast
    obtain ⟨inserted, hinserted⟩ := ih hbefore
    rw [insertSorted, hrank]
    cases rank with
    | lt => exact ⟨last :: inserted, by rw [hinserted]; rfl⟩
    | eq => exact ⟨record :: last :: before, rfl⟩
    | gt => exact ⟨record :: last :: before, rfl⟩

/-- An insertion keeps records in an order, the last one first, if what is not greater comes
first in it. -/
theorem pairwise_insertSorted {Before : Record → Record → Prop} {record : Record}
    {sorted inserted : List Record}
    (hbefore : ∀ {a b rank}, order field direction a b = .ok rank → rank.isLE = true → Before a b)
    (htrans : ∀ x ∈ sorted, ∀ y ∈ sorted, Before x y → Before y record → Before x record)
    (hsorted : sorted.Pairwise fun later earlier => Before earlier later)
    (h : insertSorted field direction record sorted = .ok inserted) :
    inserted.Pairwise fun later earlier => Before earlier later := by
  obtain ⟨later, earlier, rfl, rfl, hlater, hearlier⟩ := exists_of_insertSorted h
  obtain ⟨hsortedLater, hsortedEarlier, hcross⟩ := List.pairwise_append.1 hsorted
  have hbehind : ∀ x ∈ earlier, Before x record := by
    cases earlier with
    | nil => exact fun _ hx => absurd hx List.not_mem_nil
    | cons last before =>
      obtain ⟨rank, hrank, hge⟩ := hearlier last rfl
      have hlast : Before last record :=
        hbefore (order_swap hrank) (Ordering.isLE_swap.trans hge)
      refine List.forall_mem_cons.2 ⟨hlast, fun x hx => ?_⟩
      exact htrans x (List.mem_append_right _ (List.mem_cons_of_mem _ hx)) last
        (List.mem_append_right _ List.mem_cons_self) ((List.pairwise_cons.1 hsortedEarlier).1 x hx)
        hlast
  refine List.pairwise_append.2 ⟨hsortedLater, List.pairwise_cons.2 ⟨hbehind, hsortedEarlier⟩, ?_⟩
  intro x hx
  exact List.forall_mem_cons.2 ⟨hbefore (hlater x hx) rfl, hcross x hx⟩

/-- An insertion moves a record past no other with an equal key. -/
theorem filter_insertSorted {record : Record} {sorted inserted : List Record}
    {pick : Record → Bool} (hpick : PicksTies field (record :: sorted) pick)
    (h : insertSorted field direction record sorted = .ok inserted) :
    inserted.filter pick = (record :: sorted).filter pick := by
  obtain ⟨later, earlier, rfl, rfl, hlater, _⟩ := exists_of_insertSorted h
  by_cases hrecord : pick record = true
  · have hnone : later.filter pick = [] := by
      rw [List.filter_eq_nil_iff]
      intro x hx hpicked
      have hequal := hpick record List.mem_cons_self x
        (List.mem_cons_of_mem _ (List.mem_append_left _ hx)) hrecord hpicked
      exact absurd (order_of_equal hequal (hlater x hx)) (by decide)
    simp [hrecord, hnone]
  · simp [hrecord]

/-- A record behind others that are stably sorted is inserted among them so that all are. -/
theorem IsStablySorted.insert {record : Record} {seen sorted inserted : List Record}
    (hsorted : IsStablySorted field direction seen sorted.reverse)
    (hrows : Value.AreOrdered ((seen ++ [record]).map (sortKey field)))
    (h : insertSorted field direction record sorted = .ok inserted) :
    IsStablySorted field direction (seen ++ [record]) inserted.reverse := by
  have hperm : sorted.Perm seen := (List.reverse_perm sorted).symm.trans hsorted.perm
  have hall : (record :: sorted).Perm (seen ++ [record]) :=
    (hperm.cons record).trans (List.perm_append_singleton _ _).symm
  constructor
  · exact (List.reverse_perm inserted).trans ((perm_of_insertSorted h).trans hall)
  · rw [List.pairwise_reverse]
    apply pairwise_insertSorted (fun hrank => (precedes_iff hrank).2) ?_
      (List.pairwise_reverse.1 hsorted.sorted) h
    exact fun x hx y hy => Precedes.trans hrows (hall.subset (List.mem_cons_of_mem _ hx))
      (hall.subset (List.mem_cons_of_mem _ hy)) (hall.subset List.mem_cons_self)
  · intro pick hpick
    have hbefore := hsorted.stable pick (hpick.subset (List.subset_append_left _ _))
    have hinserted := filter_insertSorted (hpick.subset hall.subset) h
    rw [List.filter_reverse, hinserted, ← List.filter_reverse, List.reverse_cons,
      List.filter_append, hbefore, List.filter_append]

/-! ### Runs -/

/-- Records can be sorted if any two keys can be compared. -/
theorem exists_sortOnto {sorted records : List Record}
    (h : ((records ++ sorted).map (sortKey field)).Pairwise Value.Comparable) :
    ∃ all, sortOnto field direction sorted records = .ok all := by
  induction records generalizing sorted with
  | nil => exact ⟨sorted, rfl⟩
  | cons record rest ih =>
    obtain ⟨hrecord, hothers⟩ := List.pairwise_cons.1 (List.pairwise_map.1 h)
    obtain ⟨inserted, hinserted⟩ := @exists_insertSorted field direction record sorted
      fun last hmem => hrecord last (List.mem_append_right _ hmem)
    have hperm : (record :: (rest ++ sorted)).Perm (rest ++ inserted) :=
      List.perm_middle.symm.trans ((perm_of_insertSorted hinserted).symm.append_left rest)
    obtain ⟨all, hall⟩ := ih ((hperm.map (sortKey field)).pairwise h Value.Comparable.symm)
    exact ⟨all, by rw [sortOnto, hinserted]; exact hall⟩

/-- Rows that are inserted one by one among stably sorted ones are stably sorted. -/
theorem isStablySorted_of_sortOnto {seen sorted records all : List Record}
    (hsorted : IsStablySorted field direction seen sorted.reverse)
    (hrows : Value.AreOrdered ((seen ++ records).map (sortKey field)))
    (h : sortOnto field direction sorted records = .ok all) :
    IsStablySorted field direction (seen ++ records) all.reverse := by
  induction records generalizing seen sorted with
  | nil =>
    obtain rfl := Except.ok.inj h
    rwa [List.append_nil]
  | cons record rest ih =>
    obtain ⟨inserted, hinserted, h⟩ := bind_eq_ok.1 h
    rw [List.append_cons] at hrows ⊢
    have hfirst : Value.AreOrdered ((seen ++ [record]).map (sortKey field)) :=
      hrows.sublist ((List.sublist_append_left _ rest).map _)
    exact ih (hsorted.insert hfirst hinserted) hrows h

/-! ### One order -/

/-- Records each of which may stand before the other have equal keys, also each with itself. -/
theorem equal_of_precedes {x y : Record} (hxy : Precedes field direction x y)
    (hyx : Precedes field direction y x) : ∀ a ∈ [x, y], ∀ b ∈ [x, y],
      (sortKey field a).equal (sortKey field b) = true := by
  obtain ⟨hxy, hyx⟩ : (sortKey field x).Precedes (sortKey field y) ∧
      (sortKey field y).Precedes (sortKey field x) := by
    cases direction with
    | ascending => exact ⟨hxy, hyx⟩
    | descending => exact ⟨hyx, hxy⟩
  simp only [List.forall_mem_cons, List.not_mem_nil, false_implies, implies_true, and_true]
  exact ⟨⟨Value.equal_of_precedes hxy.self hxy.self, Value.equal_of_precedes hxy hyx⟩,
    Value.equal_of_precedes hyx hxy, Value.equal_of_precedes hyx.self hyx.self⟩

/-- Two lists of the same records in order begin with the same one if they agree on records
with equal keys. -/
theorem head_eq_of_filter_eq {rows xs ys : List Record} {x y : Record}
    (hperm : (x :: xs).Perm (y :: ys)) (hx : ∀ z ∈ xs, Precedes field direction x z)
    (hy : ∀ z ∈ ys, Precedes field direction y z)
    (hfilter : ∀ pick, PicksTies field rows pick →
      (x :: xs).filter pick = (y :: ys).filter pick) : x = y := by
  by_contra hne
  have hyx : y ∈ xs :=
    (List.mem_cons.1 (hperm.symm.subset List.mem_cons_self)).resolve_left (Ne.symm hne)
  have hxy : x ∈ ys := (List.mem_cons.1 (hperm.subset List.mem_cons_self)).resolve_left hne
  have hequal := equal_of_precedes (hx y hyx) (hy x hxy)
  -- of `x` and `y` the one list has `x` first and the other has `y`
  classical
  have hpicked := hfilter (fun record => decide (record ∈ [x, y])) fun a _ b _ ha hb =>
    hequal a (of_decide_eq_true ha) b (of_decide_eq_true hb)
  rw [List.filter_cons_of_pos (by simp), List.filter_cons_of_pos (by simp)] at hpicked
  exact hne (List.cons.inj hpicked).1

/-- So they are equal. -/
theorem eq_of_filter_eq {rows xs ys : List Record} (hperm : xs.Perm ys)
    (hxs : xs.Pairwise (Precedes field direction)) (hys : ys.Pairwise (Precedes field direction))
    (hfilter : ∀ pick, PicksTies field rows pick → xs.filter pick = ys.filter pick) :
    xs = ys := by
  induction xs generalizing ys with
  | nil => exact (List.nil_perm.1 hperm).symm
  | cons x xs ih =>
    cases ys with
    | nil => exact absurd hperm.symm (List.not_perm_nil_cons _ _)
    | cons y ys =>
      obtain ⟨hx, hxsTail⟩ := List.pairwise_cons.1 hxs
      obtain ⟨hy, hysTail⟩ := List.pairwise_cons.1 hys
      obtain rfl := head_eq_of_filter_eq hperm hx hy hfilter
      rw [ih hperm.cons_inv hxsTail hysTail fun pick hpick => ?_]
      have hboth := hfilter pick hpick
      by_cases hpicked : pick x = true
      · rw [List.filter_cons_of_pos hpicked, List.filter_cons_of_pos hpicked] at hboth
        exact (List.cons.inj hboth).2
      · rwa [List.filter_cons_of_neg hpicked, List.filter_cons_of_neg hpicked] at hboth

/-- There is one stable order. -/
theorem IsStablySorted.unique {rows ordered other : List Record}
    (h : IsStablySorted field direction rows ordered)
    (hother : IsStablySorted field direction rows other) : ordered = other := by
  apply eq_of_filter_eq (h.perm.trans hother.perm.symm) h.sorted hother.sorted
  intro pick hpick
  rw [h.stable pick hpick, hother.stable pick hpick]

/-- Rows whose keys are ordered are put in a stable order, and there is one only.  The keys are
ordered if all of them, but for nulls, are integers, doubles, texts or truth values. -/
theorem sort_isStable (field : String) (direction : Direction) (rows : List Record) :
    (Value.AreOrdered (rows.map (sortKey field)) →
      ∃ ordered, sort field direction rows = .ok ordered ∧
        IsStablySorted field direction rows ordered ∧
        ∀ other, IsStablySorted field direction rows other → other = ordered) ∧
    ∀ kind ∈ [Kind.int, .float, .str, .bool],
      (∀ row ∈ rows, (sortKey field row).isNull = true ∨ (sortKey field row).kind = kind) →
        Value.AreOrdered (rows.map (sortKey field)) := by
  constructor
  · intro hrows
    have hcomparable : ((rows ++ []).map (sortKey field)).Pairwise Value.Comparable := by
      rw [List.append_nil]
      exact hrows.comparable
    obtain ⟨all, hall⟩ := @exists_sortOnto field direction [] rows hcomparable
    have hnil : IsStablySorted field direction [] [].reverse :=
      ⟨.refl _, List.Pairwise.nil, fun _ _ => rfl⟩
    have hsorted := isStablySorted_of_sortOnto hnil hrows hall
    exact ⟨all.reverse, sort_eq_ok_iff.2 ⟨all, hall, rfl⟩, hsorted,
      fun other hother => hother.unique hsorted⟩
  · intro kind hkind hrows
    exact Value.areOrdered_of_kind hkind (List.forall_mem_map.2 hrows)

/-- A null, a missing value that counts as zero, a zero behind it and a greater value: the
greater one comes first, the null last. -/
theorem sort_isStable_sample :
    let one : Value := .number (.integer 1 (by decide))
    let rows : List Record :=
      [[("x", .null)], [("id", one)], [("x", .number .zero)], [("x", one)]]
    (∀ row ∈ rows, (sortKey "x" row).isNull = true ∨ (sortKey "x" row).kind = .int) ∧
      Value.AreOrdered (rows.map (sortKey "x")) ∧
      ∃ ordered, sort "x" .descending rows = .ok ordered ∧
        IsStablySorted "x" .descending rows ordered ∧
        ∀ other, IsStablySorted "x" .descending rows other → other = ordered := by
  intro one rows
  have hkinds : ∀ row ∈ rows, (sortKey "x" row).isNull = true ∨ (sortKey "x" row).kind = .int := by
    decide
  obtain ⟨hsort, hordered⟩ := sort_isStable "x" .descending rows
  have hkeys := hordered .int (by decide) hkinds
  exact ⟨hkinds, hkeys, hsort hkeys⟩

end Record
end TableNotation
