import TableNotation.Proofs.Query.Answers
/-!
# Narrowing to fields

A query narrows its records to the wanted fields before it orders them.  If the field by which
it orders is among the wanted ones, and no record lacks it, then every record keeps its key.  So
each comparison has the result that it had, the records take the same places or the same two
fail to be compared, and narrowing might as well come last.

* `project_eq`: what is left of a record.
* `order_map`, `insertSorted_map`, `sortOnto_map`, `sort_map`: records that keep their keys are
  put in the same order.
* `page_map`: any part of them is narrowed record by record.
* `execute_project`: the answer of a query is that of the query for all fields, narrowed.
-/

namespace TableNotation

namespace Fields

variable {f : String → Value}

/-- A value that is determined by its name is inserted once. -/
theorem insert_map (name : String) (names : List String) :
    insert name (f name) (names.map fun n => (n, f n))
      = (if name ∈ names then names else names ++ [name]).map fun n => (n, f n) := by
  induction names with
  | nil => rfl
  | cons first rest ih =>
    rw [List.map_cons, insert]
    by_cases hfirst : first = name
    · subst hfirst
      rw [if_pos rfl, if_pos List.mem_cons_self, List.map_cons]
    · have hmem : name ∈ first :: rest ↔ name ∈ rest := by simp [Ne.symm hfirst]
      rw [if_neg hfirst, ih]
      by_cases hrest : name ∈ rest
      · rw [if_pos hrest, if_pos (hmem.2 hrest), List.map_cons]
      · rw [if_neg hrest, if_neg (fun h => hrest (hmem.1 h)), List.cons_append, List.map_cons]

/-- Values that are determined by their names are laid over others once for each new name. -/
theorem overlay_map (done names : List String) :
    overlay (done.map fun n => (n, f n)) (names.map fun n => (n, f n))
      = (done ++ (names.filter fun n => n ∉ done).eraseDups).map fun n => (n, f n) := by
  induction names generalizing done with
  | nil => simp [overlay]
  | cons name rest ih =>
    have hstep : overlay (done.map fun n => (n, f n)) ((name :: rest).map fun n => (n, f n))
        = overlay (insert name (f name) (done.map fun n => (n, f n)))
            (rest.map fun n => (n, f n)) := rfl
    rw [hstep, insert_map]
    by_cases hdone : name ∈ done
    · rw [if_pos hdone, ih, List.filter_cons_of_neg (by simpa using hdone)]
    · have hothers : (rest.filter fun n => n ∉ done ++ [name])
          = (rest.filter fun n => n ∉ done).filter fun n => !n == name := by
        rw [List.filter_filter]
        apply List.filter_congr
        intro n _
        by_cases hn : n = name <;> simp [hn]
      rw [if_neg hdone, ih, List.filter_cons_of_pos (by simpa using hdone), List.eraseDups_cons,
        hothers, List.append_assoc, List.singleton_append]

/-- The fields of values that are determined by their names. -/
theorem ofEntries_map (names : List String) :
    ofEntries (names.map fun n => (n, f n)) = names.eraseDups.map fun n => (n, f n) := by
  have h := @overlay_map f [] names
  have hall : (names.filter fun n => n ∉ []) = names := by simp
  rw [hall] at h
  exact h

/-- What is found among values that are determined by their names. -/
theorem get?_map {name : String} {names : List String} (h : name ∈ names) :
    get? name (names.map fun n => (n, f n)) = some (f name) := by
  induction names with
  | nil => exact absurd h List.not_mem_nil
  | cons first rest ih =>
    rw [List.map_cons, get?]
    by_cases hfirst : first = name
    · rw [if_pos hfirst, hfirst]
    · rw [if_neg hfirst]
      exact ih ((List.mem_cons.1 h).resolve_left (Ne.symm hfirst))

end Fields

namespace Record

variable {field : String} {direction : Direction}

/-- What is left of a record are the wanted fields, each once and null if the record lacks it. -/
theorem project_eq (fields : List String) (record : Record) : project fields record
    = fields.eraseDups.map fun field => (field, Fields.getOrNull field record) :=
  Fields.ofEntries_map fields

/-- A wanted field of a record is left as it is. -/
theorem sortKey_project {fields : List String} (hfield : field ∈ fields) {record : Record}
    (hrecord : (Fields.get? field record).isSome = true) :
    sortKey field (project fields record) = sortKey field record := by
  obtain ⟨v, hv⟩ := Option.isSome_iff_exists.1 hrecord
  rw [sortKey, sortKey, project_eq, Fields.get?_map (List.mem_eraseDups.2 hfield), hv,
    Fields.getOrNull, hv]
  rfl

variable {f : Record → Record}

/-- Records that keep their keys keep their order, or fail to have one for the same reason. -/
theorem order_map {a b : Record} (ha : sortKey field (f a) = sortKey field a)
    (hb : sortKey field (f b) = sortKey field b) :
    order field direction (f a) (f b) = order field direction a b := by
  rw [order, order, ha, hb]

theorem insertSorted_map {record : Record} {sorted : List Record}
    (hrecord : sortKey field (f record) = sortKey field record)
    (hsorted : ∀ x ∈ sorted, sortKey field (f x) = sortKey field x) :
    insertSorted field direction (f record) (sorted.map f)
      = (insertSorted field direction record sorted).map (List.map f) := by
  induction sorted with
  | nil => rfl
  | cons last before ih =>
    obtain ⟨hlast, hbefore⟩ := List.forall_mem_cons.1 hsorted
    rw [List.map_cons, insertSorted, insertSorted, order_map hrecord hlast, ih hbefore]
    cases order field direction record last with
    | error e => rfl
    | ok rank =>
      cases rank with
      | lt => cases insertSorted field direction record before <;> rfl
      | eq => rfl
      | gt => rfl

theorem sortOnto_map {sorted records : List Record}
    (hsorted : ∀ x ∈ sorted, sortKey field (f x) = sortKey field x)
    (hrecords : ∀ x ∈ records, sortKey field (f x) = sortKey field x) :
    sortOnto field direction (sorted.map f) (records.map f)
      = (sortOnto field direction sorted records).map (List.map f) := by
  induction records generalizing sorted with
  | nil => rfl
  | cons record rest ih =>
    obtain ⟨hrecord, hrest⟩ := List.forall_mem_cons.1 hrecords
    rw [List.map_cons, sortOnto, sortOnto, insertSorted_map hrecord hsorted]
    cases hinserted : insertSorted field direction record sorted with
    | error e => rfl
    | ok inserted =>
      have hall : ∀ x ∈ inserted, sortKey field (f x) = sortKey field x := by
        intro x hx
        rcases List.mem_cons.1 ((perm_of_insertSorted hinserted).subset hx) with rfl | hx
        · exact hrecord
        · exact hsorted x hx
      exact ih hall hrest

/-- They are put in order as before, or ordering them fails as before. -/
theorem sort_map {records : List Record}
    (h : ∀ x ∈ records, sortKey field (f x) = sortKey field x) :
    sort field direction (records.map f) = (sort field direction records).map (List.map f) := by
  have hrun := @sortOnto_map field direction f [] records (fun _ hx => absurd hx List.not_mem_nil) h
  rw [List.map_nil] at hrun
  rw [sort, sort, hrun]
  cases sortOnto field direction [] records with
  | error e => rfl
  | ok all => exact congrArg Except.ok List.map_reverse.symm

end Record

namespace Query

theorem page_map (q : Query) (f : Record → Record) (records : List Record) :
    q.page (records.map f) = (q.page records).map f := by
  cases hlimit : q.limit with
  | none => simp only [page, hlimit, List.map_drop]
  | some limit => simp only [page, hlimit, List.map_drop, List.map_take]

/-- The same query for all fields of its records. -/
def forAllFields (q : Query) : Query := { q with fields := none }

/-- Narrowing and ordering can change places if every record keeps its key. -/
theorem inOrder_project {q : Query} {fields : List String} {records : List Record}
    (h : ∀ field, q.orderBy = some field → field ∈ fields ∧
      ∀ record ∈ records, (Fields.get? field record).isSome = true) :
    q.inOrder (records.map (Record.project fields))
      = (q.inOrder records).map (List.map (Record.project fields)) := by
  unfold inOrder
  cases horder : q.orderBy with
  | none => rfl
  | some field =>
    obtain ⟨hfield, hrecords⟩ := h field horder
    exact Record.sort_map fun record hrecord =>
      Record.sortKey_project hfield (hrecords record hrecord)

/-- If a query has no order, or orders by one of its fields that no record passing the filter
lacks, then its answer is that of the same query for all fields with each record narrowed, and the
one fails just as the other.  What is left of a record are the wanted fields, each once and null
where the record has none. -/
theorem execute_project [PatternLimit] {q : Query} {document : Document} {fields : List String}
    (hfields : q.fields = some fields)
    (horder : ∀ field, q.orderBy = some field → field ∈ fields ∧
      ∀ records selected, tableRecords document q.table = .ok records →
        q.filtered records = .ok selected →
        ∀ record ∈ selected, (Fields.get? field record).isSome = true) :
    q.execute document
        = (q.forAllFields.execute document).map (List.map (Record.project fields)) ∧
      ∀ record, Record.project fields record
        = fields.eraseDups.map fun field => (field, Fields.getOrNull field record) := by
  refine ⟨?_, Record.project_eq fields⟩
  have hall : q.forAllFields.execute document = (do
      let records ← tableRecords document q.table
      let selected ← q.filtered records
      let ordered ← q.inOrder selected
      return q.page ordered) := rfl
  rw [hall, execute]
  cases hrecords : tableRecords document q.table with
  | error e => rfl
  | ok records =>
    cases hselected : q.filtered records with
    | error e => simp only [hselected, Except.map, Except.bind, bind]
    | ok selected =>
      have hproject : q.inOrder (q.projected selected)
          = (q.inOrder selected).map (List.map (Record.project fields)) := by
        rw [projected, hfields]
        exact inOrder_project fun field hfield =>
          ⟨(horder field hfield).1, (horder field hfield).2 records selected hrecords hselected⟩
      simp only [hselected, hproject, Except.map, Except.bind, bind]
      cases q.inOrder selected with
      | error e => rfl
      | ok ordered => exact congrArg Except.ok (page_map q _ ordered)

/-- Ties and a null, a field that no record has, a field asked for twice, and a record without the
field of the order, which does not pass the filter. -/
theorem execute_project_sample :
    let one : Value := .number (.integer 1 (by decide))
    let rows : List Record :=
      [[("id", one)], [("v", .null), ("id", one)], [("v", one)], [("id", .null), ("v", one)]]
    let document : Document := [("t", .array (rows.map .object))]
    let passing : Group := ⟨.and, [.condition ⟨"v", .unequal, .string "a", none⟩]⟩
    let fields := ["x", "v", "x"]
    let q : Query := ⟨"t", some fields, some passing, some "v", .descending, some 2, 1⟩
    (∀ field, q.orderBy = some field → field ∈ fields ∧
      ∀ records selected, tableRecords document q.table = .ok records →
        q.filtered records = .ok selected →
        ∀ record ∈ selected, (Fields.get? field record).isSome = true) ∧
      q.execute document
        = (q.forAllFields.execute document).map (List.map (Record.project fields)) ∧
      q.forAllFields.execute document
        = .ok [[("id", .null), ("v", one)], [("v", .null), ("id", one)]] ∧
      q.execute document = .ok [[("x", .null), ("v", one)], [("x", .null), ("v", .null)]] := by
  intro one rows document passing fields q
  have horder : ∀ field, q.orderBy = some field → field ∈ fields ∧
      ∀ records selected, tableRecords document q.table = .ok records →
        q.filtered records = .ok selected →
        ∀ record ∈ selected, (Fields.get? field record).isSome = true := by
    intro field hfield
    obtain rfl := Option.some.inj hfield
    refine ⟨by decide, fun records selected hrecords hselected => ?_⟩
    obtain rfl := Except.ok.inj hrecords
    obtain rfl := Except.ok.inj hselected
    decide
  have hall : q.forAllFields.execute document
      = .ok [[("id", .null), ("v", one)], [("v", .null), ("id", one)]] := rfl
  have hnarrowed := (execute_project rfl horder).1
  refine ⟨horder, hnarrowed, hall, ?_⟩
  rw [hnarrowed, hall]
  rfl

end Query
end TableNotation
