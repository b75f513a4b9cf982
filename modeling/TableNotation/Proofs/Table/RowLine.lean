import TableNotation.Proofs.Table.DirectiveLine
import TableNotation.Proofs.Table.HeaderLine
/-!
# Rows read back

A row is read back column by column.  Where the slot of a column was left empty, or
left out at the end of the row, the reader finds the default, which was the same as
the value; where it was written, the reader finds the value.  The one exception is
a row of defaults only: it shows the value of its first column, lest it be blank.

* `restored` is the record that a row holds, and `parse_render` says that the reader
  finds it, but for references.
* `isLine_render`: a row is one line, not blank, and neither a directive nor
  anything like a header.
-/

namespace TableNotation

namespace Row

/-- The value that a reader finds in a column: the default, if the value need not be
written. -/
def shown (layout : Layout) (record : Record) (name : String) : Value :=
  match layout.defaults.get? name with
  | some default =>
    if default.same (Fields.getOrNull name record) then default else Fields.getOrNull name record
  | none => Fields.getOrNull name record

/-- Whether no column of a record need be written. -/
def isElided (layout : Layout) (record : Record) : Bool :=
  layout.schema.all fun column => layout.isDefault column.1 (Fields.getOrNull column.1 record)

/-- The record that the row of a record holds. -/
def restored (layout : Layout) (record : Record) : Record :=
  match layout.schema with
  | [] => []
  | first :: rest =>
    let value :=
      if isElided layout record then Fields.getOrNull first.1 record
      else shown layout record first.1
    (first.1, value) :: rest.map fun column => (column.1, shown layout record column.1)

/-- What a line has to be so that it is read as a row. -/
structure IsLine (s : List Char) : Prop where
  tight : Text.IsTight s
  ne_nil : s ≠ []
  oneLine : '\n' ∉ s
  noDirective : s.head? ≠ some '@'
  noHeader : Header.looksLike s = false

variable {writer : Dictionary} {layout : Layout} {record : Record}

/-- Either a slot is empty, and then the default is found, or it holds the value. -/
theorem slot?_cases (writer : Dictionary) (layout : Layout) (record : Record)
    (column : String × Kind) :
    (slot? writer layout record column = none ∧
        layout.isDefault column.1 (Fields.getOrNull column.1 record) = true ∧
        layout.defaults.get? column.1 = some (shown layout record column.1)) ∨
      (slot? writer layout record column
          = some (Literal.render writer (Fields.getOrNull column.1 record)) ∧
        shown layout record column.1 = Fields.getOrNull column.1 record) := by
  unfold slot? shown Layout.isDefault
  cases layout.defaults.get? column.1 with
  | none => exact .inr ⟨by simp, rfl⟩
  | some default =>
    cases hsame : default.same (Fields.getOrNull column.1 record) with
    | true => exact .inl ⟨by simp [hsame], hsame, by simp [hsame]⟩
    | false => exact .inr ⟨by simp [hsame], by simp [hsame]⟩

/-- What is dropped at the end are empty slots. -/
theorem dropTrailing_append (slots : List (Option (List Char))) :
    ∃ n, slots = dropTrailing slots ++ List.replicate n none := by
  have hsplit := List.takeWhile_append_dropWhile (p := Option.isNone) (l := slots.reverse)
  have hnone : ∀ x ∈ (slots.reverse.takeWhile Option.isNone).reverse, x = none := by
    intro x hx
    rw [List.mem_reverse] at hx
    exact Option.isNone_iff_eq_none.1 (List.all_eq_true.1 List.all_takeWhile x hx)
  refine ⟨(slots.reverse.takeWhile Option.isNone).reverse.length, ?_⟩
  rw [← List.eq_replicate_of_mem hnone]
  have hreverse := congrArg List.reverse hsplit
  rw [List.reverse_append, List.reverse_reverse] at hreverse
  exact hreverse.symm

/-- The last slot that is not dropped is not empty. -/
theorem getLast?_dropTrailing (slots : List (Option (List Char))) {x : Option (List Char)}
    (h : (dropTrailing slots).getLast? = some x) : x.isSome = true := by
  unfold dropTrailing at h
  rw [List.getLast?_reverse] at h
  have hfirst := List.head?_dropWhile_not Option.isNone slots.reverse
  rw [h] at hfirst
  simpa using hfirst

theorem slot_of_mem {x : Option (List Char)}
    (h : x ∈ dropTrailing (layout.schema.map (slot? writer layout record))) :
    x = none ∨ ∃ v, x = some (Literal.render writer v) := by
  obtain ⟨n, hn⟩ := dropTrailing_append (layout.schema.map (slot? writer layout record))
  have hmem : x ∈ layout.schema.map (slot? writer layout record) := by
    rw [hn]
    exact List.mem_append_left _ h
  obtain ⟨column, _, rfl⟩ := List.mem_map.1 hmem
  rcases slot?_cases writer layout record column with ⟨hslot, _⟩ | ⟨hslot, _⟩
  · exact .inl hslot
  · exact .inr ⟨_, hslot⟩

/-- The edges of a row: it may begin with the comma behind an empty slot. -/
theorem commaList_edges {parts : List (List Char)}
    (h : ∀ part ∈ parts, part = [] ∨ Literal.IsLiteral part)
    (hlast : ∃ part, parts.getLast? = some part ∧ Literal.IsLiteral part) :
    (∃ c, (Literal.commaList parts).head? = some c ∧ (Literal.isEdge c = true ∨ c = ',')) ∧
      ∃ c, (Literal.commaList parts).getLast? = some c ∧ Literal.isEdge c = true := by
  induction parts with
  | nil =>
    obtain ⟨part, hpart, _⟩ := hlast
    exact absurd hpart (by simp)
  | cons part more ih =>
    obtain ⟨hpart, hmore⟩ := List.forall_mem_cons.1 h
    cases more with
    | nil =>
      obtain ⟨_, hsome, hliteral⟩ := hlast
      obtain rfl := Option.some.inj hsome
      obtain ⟨a, ha, hedge⟩ := hliteral.first
      exact ⟨⟨a, ha, .inl hedge⟩, hliteral.last⟩
    | cons next others =>
      have hlist : Literal.commaList (part :: next :: others)
          = part ++ ([',', ' '] ++ Literal.commaList (next :: others)) := rfl
      obtain ⟨_, b, hb, hedge'⟩ := ih hmore (by simpa using hlast)
      rw [hlist]
      refine ⟨?_, b, ?_, hedge'⟩
      · rcases hpart with rfl | hpart
        · exact ⟨',', rfl, .inr rfl⟩
        · obtain ⟨a, ha, hedge⟩ := hpart.first
          exact ⟨a, by rw [List.head?_append, ha, Option.some_or], .inl hedge⟩
      · rw [List.getLast?_append, List.getLast?_append, hb, Option.some_or, Option.some_or]

theorem isLine_of_edges {s : List Char} (hline : '\n' ∉ s)
    (hfirst : ∃ c, s.head? = some c ∧ (Literal.isEdge c = true ∨ c = ','))
    (hlast : ∃ c, s.getLast? = some c ∧ Literal.isEdge c = true) : IsLine s := by
  obtain ⟨a, ha, hedge⟩ := hfirst
  obtain ⟨b, hb, hedge'⟩ := hlast
  refine ⟨⟨?_, ?_⟩, ?_, hline, ?_, ?_⟩
  · intro c hc
    rw [Option.some.inj (hc.symm.trans ha)]
    rcases hedge with hedge | rfl
    · exact Literal.isBlank_of_isEdge hedge
    · decide
  · intro c hc
    rw [Option.some.inj (hc.symm.trans hb)]
    exact Literal.isBlank_of_isEdge hedge'
  · rintro rfl
    exact absurd ha (by simp)
  · intro hat
    obtain rfl := Option.some.inj (ha.symm.trans hat)
    rcases hedge with hedge | hedge
    · exact absurd hedge (by decide)
    · exact absurd hedge (by decide)
  · apply Header.looksLike_of_getLast_ne
    intro hcolon
    obtain rfl := Option.some.inj (hb.symm.trans hcolon)
    exact absurd hedge' (by decide)

theorem isLine_of_isLiteral {s : List Char} (h : Literal.IsLiteral s) : IsLine s := by
  obtain ⟨a, ha, hedge⟩ := h.first
  exact isLine_of_edges h.oneLine ⟨a, ha, .inl hedge⟩ h.last

/-- The parts of a row: empty, or literals, of which the last one is not empty. -/
theorem parts_of_slots (hd : writer.HasReferences) :
    (∀ part ∈ (dropTrailing (layout.schema.map (slot? writer layout record))).map (·.getD []),
        part = [] ∨ Literal.IsLiteral part) ∧
      ∀ part, ((dropTrailing (layout.schema.map (slot? writer layout record))).map
        (·.getD [])).getLast? = some part → Literal.IsLiteral part := by
  constructor
  · intro part hp
    obtain ⟨x, hx, rfl⟩ := List.mem_map.1 hp
    rcases slot_of_mem hx with rfl | ⟨v, rfl⟩
    · exact .inl rfl
    · exact .inr (Literal.isLiteral_render hd v)
  · intro part hp
    rw [List.getLast?_map] at hp
    obtain ⟨x, hx, rfl⟩ := Option.map_eq_some_iff.1 hp
    have hsome := getLast?_dropTrailing _ hx
    rcases slot_of_mem (List.mem_of_getLast? hx) with rfl | ⟨v, rfl⟩
    · exact absurd hsome (by decide)
    · exact Literal.isLiteral_render hd v

/-- A row is one line, not blank, and neither a directive nor anything like a header. -/
theorem isLine_render (hd : writer.HasReferences) (layout : Layout) (record : Record) :
    IsLine (render writer layout record) := by
  obtain ⟨hparts, hlast⟩ :=
    @parts_of_slots writer layout record hd
  unfold render
  split
  · have hbraces : Literal.IsLiteral ('\x7b' :: (Literal.commaList [] ++ ['\x7d'])) :=
      Literal.isLiteral_bracketed (.inr ⟨rfl, rfl⟩) fun _ hp => absurd hp List.not_mem_nil
    exact isLine_of_isLiteral hbraces
  · dsimp only
    split
    · exact isLine_of_isLiteral (Literal.isLiteral_render hd _)
    · rename_i hne
      have hsome : ∃ part, ((dropTrailing (layout.schema.map (slot? writer layout record))).map
          (·.getD [])).getLast? = some part := by
        refine ⟨_, List.getLast?_eq_some_getLast ?_⟩
        intro hnil
        exact hne (List.isEmpty_iff.2 (List.map_eq_nil_iff.1 hnil))
      obtain ⟨part, hpart⟩ := hsome
      obtain ⟨hfirst, hend⟩ := commaList_edges hparts ⟨part, hpart, hlast part hpart⟩
      refine isLine_of_edges (Literal.newline_not_mem_commaList fun part hp => ?_) hfirst hend
      rcases hparts part hp with rfl | hliteral
      · exact List.not_mem_nil
      · exact hliteral.oneLine

/-- A row is cut into its slots. -/
theorem slots_commaList_slots (hd : writer.HasReferences) :
    Literal.slots (Literal.commaList
        ((dropTrailing (layout.schema.map (slot? writer layout record))).map (·.getD [])))
      = (dropTrailing (layout.schema.map (slot? writer layout record))).map (·.getD []) := by
  obtain ⟨hparts, hlast⟩ := @parts_of_slots writer layout record hd
  apply Literal.slots_commaList
  · intro part hp
    rcases hparts part hp with rfl | hliteral
    · exact ⟨Literal.uncut_nil _, Text.isTight_nil⟩
    · exact ⟨hliteral.uncut 0, hliteral.tight⟩
  · intro hnil
    rw [hnil] at hlast
    exact (hlast [] rfl).ne_nil rfl

/-- No slot is left exactly if no column need be written. -/
theorem dropTrailing_eq_nil_iff :
    dropTrailing (layout.schema.map (slot? writer layout record)) = [] ↔
      isElided layout record = true := by
  constructor
  · intro h
    obtain ⟨n, hn⟩ := dropTrailing_append (layout.schema.map (slot? writer layout record))
    rw [h, List.nil_append] at hn
    apply List.all_eq_true.2
    intro column hcolumn
    have hmem : slot? writer layout record column ∈ List.replicate n none := by
      rw [← hn]
      exact List.mem_map_of_mem hcolumn
    rcases slot?_cases writer layout record column with ⟨_, hdefault, _⟩ | ⟨hslot, _⟩
    · exact hdefault
    · rw [hslot] at hmem
      exact absurd (List.eq_of_mem_replicate hmem) (by simp)
  · intro h
    have hnone : ∀ x ∈ (layout.schema.map (slot? writer layout record)).reverse,
        Option.isNone x = true := by
      intro x hx
      obtain ⟨column, hcolumn, rfl⟩ := List.mem_map.1 (List.mem_reverse.1 hx)
      have hslot : slot? writer layout record column = none :=
        if_pos (List.all_eq_true.1 h column hcolumn)
      rw [hslot]
      rfl
    have hdrop : ((layout.schema.map (slot? writer layout record)).reverse ++ []).dropWhile
        Option.isNone = [].dropWhile Option.isNone := List.dropWhile_append_of_pos hnone
    rw [List.append_nil] at hdrop
    unfold dropTrailing
    rw [hdrop]
    rfl

variable (reader : Dictionary)

/-- Columns and slots side by side: where no slot is written, the default is found. -/
theorem fill_written (hd : writer.HasReferences) (hrecord : Value.fieldsHaveDistinctKeys record)
    (columns : Schema) (slots : List (Option (List Char))) (n : Nat) (start : Record)
    (hslots : columns.map (slot? writer layout record) = slots ++ List.replicate n none)
    (hnames : (Fields.keys start ++ columns.map Prod.fst).Nodup) :
    fill reader (layout.defaults.reread writer reader) start columns (slots.map (·.getD []))
      = start ++ columns.map fun column =>
        (column.1, (shown layout record column.1).mapStrings (writer.reread reader)) := by
  induction columns generalizing slots start n with
  | nil => simp [fill]
  | cons column rest ih =>
    obtain ⟨name, kind⟩ := column
    have hnot : name ∉ Fields.keys start := by
      intro hmem
      exact (List.nodup_append.1 hnames).2.2 _ hmem _ List.mem_cons_self rfl
    -- whatever value is inserted, it goes to the end, and the other columns follow
    have hnext : ∀ (value : Value) (slots : List (Option (List Char))) (n : Nat),
        rest.map (slot? writer layout record) = slots ++ List.replicate n none →
        fill reader (layout.defaults.reread writer reader) (Fields.insert name value start) rest
            (slots.map (·.getD []))
          = start ++ (name, value) :: rest.map fun column =>
            (column.1, (shown layout record column.1).mapStrings (writer.reread reader)) := by
      intro value slots n hslots
      rw [Fields.insert_of_not_mem value hnot, ih slots n _ hslots, List.append_assoc,
        List.singleton_append]
      simpa [Fields.keys] using hnames
    have hdefault : ∀ v, layout.defaults.get? name = some v →
        (layout.defaults.reread writer reader).get? name
          = some (v.mapStrings (writer.reread reader)) := by
      intro v hv
      rw [Defaults.reread, SortedMap.get?_mapValues, hv, Option.map_some]
    rw [List.map_cons] at hslots
    have hcases := slot?_cases writer layout record (name, kind)
    cases slots with
    | nil =>
      obtain ⟨m, rfl⟩ : ∃ m, n = m + 1 := by
        cases n with
        | zero => exact absurd hslots (by simp)
        | succ m => exact ⟨m, rfl⟩
      rw [List.nil_append, List.replicate_succ, List.cons.injEq] at hslots
      obtain ⟨hslot, hrest⟩ := hslots
      rw [hslot] at hcases
      obtain ⟨_, _, hfound⟩ := hcases.resolve_right fun h => absurd h.1 (by simp)
      have hfill := hnext ((shown layout record name).mapStrings (writer.reread reader)) [] m
        (by rw [hrest, List.nil_append])
      simp only [List.map_nil, fill, hdefault _ hfound] at hfill ⊢
      rw [hfill, List.map_cons]
    | cons slot more =>
      rw [List.cons_append, List.cons.injEq] at hslots
      obtain ⟨rfl, hrest⟩ := hslots
      rw [List.map_cons, List.map_cons, fill]
      rcases hcases with ⟨hslot, _, hfound⟩ | ⟨hslot, hvalue⟩
      · simp only [hslot, Option.getD_none, List.isEmpty_nil, if_pos, hdefault _ hfound,
          Option.getD_some]
        exact hnext _ more n hrest
      · have hliteral := Literal.isLiteral_render hd (Fields.getOrNull name record)
        have hparse := Literal.parse_render reader hd _
          (Value.hasDistinctKeys_getOrNull hrecord name)
        simp only [hslot, Option.getD_some, List.isEmpty_eq_false_iff.2 hliteral.ne_nil, hvalue,
          Bool.false_eq_true, if_false, hparse]
        exact hnext _ more n hrest

/-- A row of defaults only shows the value of its first column, and the reader fills the
other columns with their defaults. -/
theorem parse_render_of_isElided (hd : writer.HasReferences)
    (hrecord : Value.fieldsHaveDistinctKeys record) {name : String} {kind : Kind} {rest : Schema}
    (hschema : layout.schema = (name, kind) :: rest) (hnames : (layout.schema.map Prod.fst).Nodup)
    (helided : isElided layout record = true) :
    parse reader (layout.reread writer reader) (render writer layout record)
      = (name, (Fields.getOrNull name record).mapStrings (writer.reread reader)) ::
        rest.map fun column =>
          (column.1, (shown layout record column.1).mapStrings (writer.reread reader)) := by
  have hliteral := Literal.isLiteral_render hd (Fields.getOrNull name record)
  have hparse := Literal.parse_render reader hd _ (Value.hasDistinctKeys_getOrNull hrecord name)
  have hrender : render writer layout record
      = Literal.render writer (Fields.getOrNull name record) := by
    have hdrop := (@dropTrailing_eq_nil_iff writer layout record).2 helided
    rw [hschema] at hdrop
    unfold render
    rw [hschema]
    simp only [hdrop, List.isEmpty_nil, if_pos]
  have hslots : Literal.slots (Literal.render writer (Fields.getOrNull name record))
      = [Literal.render writer (Fields.getOrNull name record)] := by
    have hslot : ∀ part ∈ [Literal.render writer (Fields.getOrNull name record)],
        Literal.IsSlot part := by
      intro part hp
      rw [List.mem_singleton.1 hp]
      exact hliteral.isSlot
    exact Literal.slots_of_isSlot hslot
  have hrest : rest.map (slot? writer layout record) = [] ++ List.replicate rest.length none := by
    rw [List.nil_append]
    apply List.eq_replicate_iff.2 ⟨List.length_map _, _⟩
    intro x hx
    obtain ⟨column, hcolumn, rfl⟩ := List.mem_map.1 hx
    have hmem : column ∈ layout.schema := by
      rw [hschema]
      exact List.mem_cons_of_mem _ hcolumn
    exact if_pos (List.all_eq_true.1 helided column hmem)
  have hfill := fill_written reader hd hrecord rest [] rest.length
    [(name, (Fields.getOrNull name record).mapStrings (writer.reread reader))] hrest
    (by simpa [hschema, Fields.keys] using hnames)
  rw [parse, hrender, hslots]
  unfold Layout.reread
  simp only [hschema, fill, List.isEmpty_eq_false_iff.2 hliteral.ne_nil, Bool.false_eq_true,
    if_false, hparse]
  exact hfill

/-- Any other row is filled column by column. -/
theorem parse_render_of_not_isElided (hd : writer.HasReferences)
    (hrecord : Value.fieldsHaveDistinctKeys record) (hschema : layout.schema ≠ [])
    (hnames : (layout.schema.map Prod.fst).Nodup) (helided : ¬ isElided layout record = true) :
    parse reader (layout.reread writer reader) (render writer layout record)
      = layout.schema.map fun column =>
        (column.1, (shown layout record column.1).mapStrings (writer.reread reader)) := by
  have hdrop : dropTrailing (layout.schema.map (slot? writer layout record)) ≠ [] :=
    fun hnil => helided (dropTrailing_eq_nil_iff.1 hnil)
  have hrender : render writer layout record = Literal.commaList
      ((dropTrailing (layout.schema.map (slot? writer layout record))).map (·.getD [])) := by
    unfold render
    cases hcolumns : layout.schema with
    | nil => exact absurd hcolumns hschema
    | cons first rest =>
      rw [hcolumns] at hdrop
      simp only [List.isEmpty_eq_false_iff.2 hdrop, Bool.false_eq_true, if_false]
  obtain ⟨n, hn⟩ := dropTrailing_append (layout.schema.map (slot? writer layout record))
  have hfill := fill_written reader hd hrecord layout.schema _ n [] hn
    (by simpa [Fields.keys] using hnames)
  rw [parse, hrender, slots_commaList_slots hd]
  exact hfill

/-- Reading undoes writing: the reader finds the record that the row holds, with its
references looked up. -/
theorem parse_render (hd : writer.HasReferences) (hnames : (layout.schema.map Prod.fst).Nodup)
    (hrecord : Value.fieldsHaveDistinctKeys record) :
    parse reader (layout.reread writer reader) (render writer layout record)
      = Value.mapFields (writer.reread reader) (restored layout record) := by
  rw [Value.mapFields_eq_map]
  unfold restored
  cases hschema : layout.schema with
  | nil =>
    have hempty : (layout.reread writer reader).schema = [] := hschema
    rw [parse, hempty]
    rfl
  | cons first rest =>
    by_cases helided : isElided layout record = true
    · rw [parse_render_of_isElided reader hd hrecord hschema hnames helided]
      simp only [helided, if_true, List.map_cons, List.map_map]
      rfl
    · have hne : layout.schema ≠ [] := by
        rw [hschema]
        exact List.cons_ne_nil _ _
      rw [parse_render_of_not_isElided reader hd hrecord hne hnames helided, hschema]
      simp only [helided, Bool.false_eq_true, if_false, List.map_cons, List.map_map]
      rfl

end Row
end TableNotation
