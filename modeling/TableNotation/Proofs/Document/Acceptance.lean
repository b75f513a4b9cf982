import Mathlib.Algebra.Ring.Nat
import Mathlib.Data.List.Induction
import TableNotation.Proofs.Document.DirectiveForm
import TableNotation.Proofs.Document.Reading
/-!
# Which texts are documents

A reader goes through a text line by line, in one of two moods: below a header whose rows
are not complete it waits for rows, and elsewhere it obeys directives and opens tables.
Blank lines, and the numbers of lines, play no part in what is read.  What each line does
in each mood is said once, and from it follows by induction that the lines which are read
to the end are exactly the sequences of items, and that the parts of tables which these
hold are added one after the other.

* `takeInside_eq_ok_iff`, `takeOutside_eq_ok_iff`: what a line does.
* `rows_of_reads`, `reads_of_rows`: the rows below a header.
* `sequence_of_reads`, `reads_of_sequence`: whole texts.
* `get?_document`: the rows of each table.
* `decode_eq_ok_iff_sequence`: a text is a document exactly if it is a sequence of items.
-/

namespace TableNotation

namespace Scan

variable {scan next : Scan} {directives directives' : Directives} {document document' : Document}
  {block : Block} {line : List Char} {lines : List (List Char)} {number : Nat}

/-! ### Numbers and blank lines -/

/-- A directive outside tables is obeyed if it is well-formed; any other line has to be a
header whose count can be counted to. -/
theorem takeOutside_eq_ok_iff :
    takeOutside ⟨directives, document, none⟩ number line = .ok next ↔
      (line.head? = some '@' ∧ Directive.IsWellFormed line ∧
          next = ⟨directives.after line, document, none⟩) ∨
        (line.head? ≠ some '@' ∧ ∃ header, Header.read? line = some header ∧
          header.count < Header.countLimit ∧
          next = closeIfFull ⟨directives, document, none⟩ ⟨header, []⟩) := by
  unfold takeOutside
  by_cases hmark : line.head? = some '@'
  · rw [if_pos hmark, bind_eq_ok]
    constructor
    · intro h
      obtain ⟨after, happly, h⟩ := h
      obtain ⟨hline, rfl⟩ := Directives.apply_eq_ok_iff.1 happly
      exact .inl ⟨hmark, hline, (Except.ok.inj h).symm⟩
    · intro h
      obtain ⟨_, hline, rfl⟩ := h.resolve_right fun hother => hother.1 hmark
      exact ⟨_, Directives.apply_eq_ok_iff.2 ⟨hline, rfl⟩, rfl⟩
  · rw [if_neg hmark]
    have hiff : ∀ header, (if header.count < Header.countLimit then
        Except.ok (closeIfFull ⟨directives, document, none⟩ ⟨header, []⟩)
        else Except.error DecodingError.countTooLarge) = .ok next ↔
        header.count < Header.countLimit ∧
          next = closeIfFull ⟨directives, document, none⟩ ⟨header, []⟩ := by
      intro header
      by_cases hcount : header.count < Header.countLimit
      · simp [hcount, eq_comm]
      · simp [hcount]
    cases hheader : Header.read? line with
    | none => simp [hmark]
    | some header => simp [hmark, hiff]

/-- Below a header a directive is skipped, and any other line has to be a row. -/
theorem takeInside_eq_ok_iff :
    takeInside ⟨directives, document, some block⟩ block line = .ok next ↔
      (line.head? = some '@' ∧ next = ⟨directives, document, some block⟩) ∨
        (line.head? ≠ some '@' ∧ Header.looksLike line = false ∧
          next = closeIfFull ⟨directives, document, none⟩ { block with
            rows := Row.parse directives.dictionary directives.layout line :: block.rows }) := by
  have hclose : ∀ found : Block, closeIfFull ⟨directives, document, some block⟩ found
      = closeIfFull ⟨directives, document, none⟩ found := by
    intro found
    unfold closeIfFull
    split <;> rfl
  unfold takeInside
  by_cases hmark : line.head? = some '@'
  · have hlooks : Header.looksLike line = false := by
      rw [Header.looksLike, hmark]
      rfl
    simp [hlooks, hmark, eq_comm]
  · cases hlooks : Header.looksLike line with
    | true => simp [hmark]
    | false => simp [hmark, hclose, eq_comm]

/-- The number of a line has no part in its effect. -/
theorem take_number (h : scan.take (number, line) = .ok next) (other : Nat) :
    scan.take (other, line) = .ok next := by
  obtain ⟨directives, document, block⟩ := scan
  unfold take at h ⊢
  by_cases hempty : line.isEmpty = true
  · rw [if_pos hempty] at h ⊢
    exact h
  · rw [if_neg hempty] at h ⊢
    cases block with
    | none => exact takeOutside_eq_ok_iff.2 (takeOutside_eq_ok_iff.1 h)
    | some block => exact h

/-- Lines that are read with some numbers are read with any. -/
theorem reads_of_foldlM {first : Nat}
    (h : (numberedLines first lines).foldlM take scan = .ok next) : scan.Reads lines next := by
  induction lines generalizing scan first with
  | nil => exact fun _ => h
  | cons line rest ih =>
    intro other
    rw [numberedLines, List.foldlM_cons] at h ⊢
    obtain ⟨mid, hline, hrest⟩ := bind_eq_ok.1 h
    exact bind_eq_ok.2 ⟨mid, take_number hline other, ih hrest (other + 1)⟩

/-- Lines are read one after the other. -/
theorem reads_cons_iff : scan.Reads (line :: lines) next ↔
    ∃ mid, scan.take (0, Text.trim line) = .ok mid ∧ mid.Reads lines next := by
  constructor
  · intro h
    have hfirst := h 0
    rw [numberedLines, List.foldlM_cons] at hfirst
    obtain ⟨mid, hline, hrest⟩ := bind_eq_ok.1 hfirst
    exact ⟨mid, hline, reads_of_foldlM hrest⟩
  · intro h first
    obtain ⟨mid, hline, hrest⟩ := h
    rw [numberedLines, List.foldlM_cons]
    exact bind_eq_ok.2 ⟨mid, take_number hline first, hrest (first + 1)⟩

theorem reads_nil_iff : scan.Reads [] next ↔ scan = next :=
  ⟨fun h => Except.ok.inj (h 0), fun h => h ▸ Reads.nil⟩

/-- Blanks around lines, and blank lines, count for nothing. -/
theorem reads_filled_iff : scan.Reads lines next ↔
    scan.Reads ((lines.map Text.trim).filter fun line => !line.isEmpty) next := by
  induction lines generalizing scan with
  | nil => rfl
  | cons line rest ih =>
    rw [List.map_cons, reads_cons_iff]
    by_cases hempty : Text.trim line = []
    · rw [List.filter_cons_of_neg (by simp [hempty]), ← ih, hempty]
      exact ⟨fun ⟨mid, hline, hrest⟩ => Except.ok.inj hline ▸ hrest, fun h => ⟨scan, rfl, h⟩⟩
    · rw [List.filter_cons_of_pos (by simp [hempty]), reads_cons_iff,
        Text.trim_eq_self (Text.isTight_trim line)]
      simp only [ih]

theorem isFilled_of_mem_filledLines {text : List Char} (h : line ∈ filledLines text) :
    IsFilled line := by
  obtain ⟨hmem, hne⟩ := List.mem_filter.1 h
  obtain ⟨raw, _, rfl⟩ := List.mem_map.1 hmem
  exact ⟨Text.trim_eq_self (Text.isTight_trim raw), by simpa using hne⟩

/-- A text is a document if its lines are read and no table is open at the end. -/
theorem decodeChars_eq_ok_iff {text : List Char} : decodeChars text = .ok document ↔
    ∃ directives, initial.Reads (filledLines text) ⟨directives, document, none⟩ := by
  unfold filledLines
  constructor
  · intro h
    obtain ⟨⟨directives, found, block⟩, hrun, hfinish⟩ := bind_eq_ok.1 h
    cases block with
    | none =>
      obtain rfl := Except.ok.inj hfinish
      exact ⟨directives, reads_filled_iff.1 (reads_of_foldlM hrun)⟩
    | some block => cases hfinish
  · intro h
    obtain ⟨directives, h⟩ := h
    exact run_of_reads (reads_filled_iff.2 h) 1

/-! ### Rows -/

/-- What the first of some filled lines does, and what the others do. -/
theorem reads_cons_filled_iff (hline : IsFilled line) : scan.Reads (line :: lines) next ↔
    ∃ mid, scan.take (0, line) = .ok mid ∧ mid.Reads lines next := by
  rw [reads_cons_iff, hline.1]

/-- Below a header that waits for rows, the next lines are rows, as many as are missing. -/
theorem rows_of_reads (hfilled : ∀ line ∈ lines, IsFilled line)
    (hopen : block.rows.length < block.header.count)
    (h : Reads ⟨directives, document, some block⟩ lines ⟨directives', document', none⟩) :
    ∃ front rows behind, lines = front ++ behind ∧ Rows front rows ∧
      block.rows.length + rows.length = block.header.count ∧
      Reads ⟨directives, addTable document block.header ((block.rows.reverse ++
        rows.map (Row.parse directives.dictionary directives.layout)).map .object), none⟩ behind
        ⟨directives', document', none⟩ := by
  induction lines generalizing block with
  | nil =>
    have hsame := reads_nil_iff.1 h
    exact absurd (congrArg Scan.block hsame) nofun
  | cons line rest ih =>
    obtain ⟨hline, hrest⟩ := List.forall_mem_cons.1 hfilled
    obtain ⟨mid, htake, hmore⟩ := (reads_cons_filled_iff hline).1 h
    rw [take_inside hline.2, takeInside_eq_ok_iff] at htake
    rcases htake with ⟨hmark, rfl⟩ | ⟨hmark, hlooks, rfl⟩
    · obtain ⟨front, rows, behind, rfl, hrows, hlength, hbehind⟩ := ih hrest hopen hmore
      cases rows with
      | nil =>
        rw [List.length_nil] at hlength
        omega
      | cons row rows =>
        exact ⟨line :: front, row :: rows, behind, rfl, .skip hmark hrows, hlength, hbehind⟩
    · let grown : Block := { block with
        rows := Row.parse directives.dictionary directives.layout line :: block.rows }
      by_cases hfull : grown.rows.length < grown.header.count
      · rw [closeIfFull_of_lt hfull] at hmore
        obtain ⟨front, rows, behind, rfl, hrows, hlength, hbehind⟩ := ih hrest hfull hmore
        refine ⟨line :: front, line :: rows, behind, rfl, .row hmark hlooks hrows, ?_, ?_⟩
        · simp only [grown, List.length_cons] at hlength ⊢
          omega
        · simpa [grown] using hbehind
      · -- this was the last row that was missing
        rw [closeIfFull_of_le (Nat.le_of_not_lt hfull)] at hmore
        refine ⟨[line], [line], rest, rfl, .row hmark hlooks .nil, ?_, ?_⟩
        · simp only [grown, List.length_cons] at hfull
          rw [List.length_singleton]
          omega
        · simpa [grown] using hmore

/-- Conversely, rows that are not too many for a header are read as its rows. -/
theorem reads_of_rows {rows : List (List Char)} (hrows : Rows lines rows)
    (hfilled : ∀ line ∈ lines, IsFilled line) (block : Block)
    (hlength : block.rows.length + rows.length ≤ block.header.count) :
    Reads (closeIfFull ⟨directives, document, none⟩ block) lines
      (closeIfFull ⟨directives, document, none⟩ { block with
        rows := (rows.map (Row.parse directives.dictionary directives.layout)).reverse
          ++ block.rows }) := by
  induction hrows generalizing block with
  | nil => exact Reads.nil
  | @skip line row lines rows hmark hrest ih =>
    obtain ⟨hline, hmore⟩ := List.forall_mem_cons.1 hfilled
    have hopen : block.rows.length < block.header.count := by
      rw [List.length_cons] at hlength
      omega
    have hskip : take (closeIfFull ⟨directives, document, none⟩ block) (0, line)
        = .ok (closeIfFull ⟨directives, document, none⟩ block) := by
      rw [closeIfFull_of_lt hopen, take_inside hline.2, takeInside_eq_ok_iff]
      exact .inl ⟨hmark, rfl⟩
    exact (reads_cons_filled_iff hline).2 ⟨_, hskip, ih hmore block hlength⟩
  | @row line lines rows hmark hlooks hrest ih =>
    obtain ⟨hline, hmore⟩ := List.forall_mem_cons.1 hfilled
    rw [List.length_cons] at hlength
    have hopen : block.rows.length < block.header.count := by omega
    have hrow : take (closeIfFull ⟨directives, document, none⟩ block) (0, line)
        = .ok (closeIfFull ⟨directives, document, none⟩ { block with
          rows := Row.parse directives.dictionary directives.layout line :: block.rows }) := by
      rw [closeIfFull_of_lt hopen, take_inside hline.2, takeInside_eq_ok_iff]
      exact .inr ⟨hmark, hlooks, rfl⟩
    refine (reads_cons_filled_iff hline).2 ⟨_, hrow, ?_⟩
    have hothers := ih hmore { block with
      rows := Row.parse directives.dictionary directives.layout line :: block.rows }
      (by simp only [List.length_cons]; omega)
    simpa using hothers

/-! ### Items -/

/-- A header with all its rows adds its part of the table. -/
theorem closeIfFull_part {header : Header} {rows : List (List Char)}
    (hlength : rows.length = header.count) :
    closeIfFull ⟨directives, document, none⟩ ⟨header,
        (rows.map (Row.parse directives.dictionary directives.layout)).reverse ++ []⟩
      = ⟨directives, Part.add document
          ⟨header, rows.map (Row.parse directives.dictionary directives.layout)⟩, none⟩ := by
  rw [closeIfFull_of_le (by simp [hlength])]
  simp [Part.add]

/-- Lines that are read to the end are a sequence of items. -/
theorem sequence_of_reads (hfilled : ∀ line ∈ lines, IsFilled line)
    (h : Reads ⟨directives, document, none⟩ lines ⟨directives', document', none⟩) :
    ∃ items, Item.Sequence lines items ∧
      document' = (Item.parts directives items).foldl Part.add document := by
  -- the rows of a header are taken at once, so the induction is on the number of lines
  induction hn : lines.length using Nat.strongRecOn
    generalizing lines directives document with
  | ind n ih =>
    subst hn
    cases lines with
    | nil =>
      have hsame := reads_nil_iff.1 h
      exact ⟨[], .nil, (congrArg Scan.document hsame).symm⟩
    | cons line rest =>
      obtain ⟨hline, hrest⟩ := List.forall_mem_cons.1 hfilled
      obtain ⟨mid, htake, hmore⟩ := (reads_cons_filled_iff hline).1 h
      rw [take_outside hline.2, takeOutside_eq_ok_iff] at htake
      rcases htake with ⟨hmark, hform, rfl⟩ | ⟨hmark, header, hheader, hcount, rfl⟩
      · obtain ⟨items, hitems, hdocument⟩ := ih _ (Nat.lt_succ_self _) hrest hmore rfl
        exact ⟨.directive line :: items, .cons (.directive hmark hform) hitems, hdocument⟩
      · obtain ⟨front, rows, behind, rfl, hrows, hlength, hbehind⟩ :
            ∃ front rows behind, rest = front ++ behind ∧ Rows front rows ∧
              rows.length = header.count ∧
              Reads ⟨directives, Part.add document ⟨header, rows.map
                (Row.parse directives.dictionary directives.layout)⟩, none⟩ behind
                ⟨directives', document', none⟩ := by
          by_cases hopen : 0 < header.count
          · rw [@closeIfFull_of_lt _ ⟨header, []⟩ hopen] at hmore
            obtain ⟨front, rows, behind, hsplit, hrows, hlength, hbehind⟩ :=
              @rows_of_reads _ _ _ _ ⟨header, []⟩ _ hrest hopen hmore
            rw [List.length_nil, Nat.zero_add] at hlength
            exact ⟨front, rows, behind, hsplit, hrows, hlength, hbehind⟩
          · have hzero : header.count = 0 := by omega
            rw [@closeIfFull_of_le _ ⟨header, []⟩ (Nat.le_of_eq hzero)] at hmore
            exact ⟨[], [], rest, rfl, .nil, hzero.symm, hmore⟩
        have hshorter : behind.length < (line :: (front ++ behind)).length := by
          rw [List.length_cons, List.length_append]
          omega
        obtain ⟨items, hitems, hdocument⟩ := ih _ hshorter
          (fun other hother => hrest other (List.mem_append_right _ hother)) hbehind rfl
        exact ⟨.block header rows :: items,
          .cons (.block hmark hheader hcount hrows hlength) hitems, hdocument⟩

/-- Conversely, a sequence of items is read to the end. -/
theorem reads_of_sequence {items : List Item} (hitems : Item.Sequence lines items)
    (hfilled : ∀ line ∈ lines, IsFilled line) : ∃ directives',
      Reads ⟨directives, document, none⟩ lines
        ⟨directives', (Item.parts directives items).foldl Part.add document, none⟩ := by
  induction hitems generalizing directives document with
  | nil => exact ⟨directives, Reads.nil⟩
  | @cons lines more item items hitem hmore ih =>
    have hothers : ∀ line ∈ more, IsFilled line :=
      fun line hline => hfilled line (List.mem_append_right _ hline)
    cases hitem with
    | @directive line hmark hform =>
      have hline := hfilled line List.mem_cons_self
      have htake : take ⟨directives, document, none⟩ (0, line)
          = .ok ⟨directives.after line, document, none⟩ := by
        rw [take_outside hline.2, takeOutside_eq_ok_iff]
        exact .inl ⟨hmark, hform, rfl⟩
      obtain ⟨directives', hread⟩ := @ih (directives.after line) document hothers
      exact ⟨directives', (reads_cons_filled_iff hline).2 ⟨_, htake, hread⟩⟩
    | @block line front rows header hmark hheader hcount hrows hlength =>
      have hline := hfilled line List.mem_cons_self
      have hfront : ∀ line ∈ front, IsFilled line := fun line hmem =>
        hfilled line (List.mem_append_left _ (List.mem_cons_of_mem _ hmem))
      have htake : take ⟨directives, document, none⟩ (0, line)
          = .ok (closeIfFull ⟨directives, document, none⟩ ⟨header, []⟩) := by
        rw [take_outside hline.2, takeOutside_eq_ok_iff]
        exact .inr ⟨hmark, header, hheader, hcount, rfl⟩
      have hpart := @reads_of_rows directives document _ _ hrows hfront ⟨header, []⟩
        (by simp only [List.length_nil]; omega)
      rw [closeIfFull_part hlength] at hpart
      obtain ⟨directives', hread⟩ := @ih directives _ hothers
      exact ⟨directives', (reads_cons_filled_iff hline).2 ⟨_, htake, hpart.append hread⟩⟩

end Scan

/-! ### Tables -/

/-- In every part there are as many records as its header says. -/
theorem Item.length_records {lines : List (List Char)} {items : List Item}
    (h : Sequence lines items) (directives : Directives) :
    ∀ part ∈ parts directives items, part.records.length = part.header.count := by
  induction h generalizing directives with
  | nil => exact fun _ hpart => absurd hpart List.not_mem_nil
  | cons hitem hmore ih =>
    cases hitem with
    | directive hmark hform => exact ih _
    | block hmark hheader hcount hrows hlength =>
      refine List.forall_mem_cons.2 ⟨?_, ih _⟩
      simpa using hlength

namespace Part

/-- A continuation goes behind the parts of its table, and any other part replaces them. -/
theorem current_concat (parts : List Part) (part : Part) :
    current (parts ++ [part])
      = if part.header.continuation then current parts ++ [part] else [part] := by
  induction parts with
  | nil => simp [current]
  | cons first rest ih =>
    rw [List.cons_append, current, ih, current]
    cases hlast : part.header.continuation with
    | false => simp [hlast]
    | true =>
      by_cases hall : (rest.all fun other => other.header.continuation) = true
      · simp [hall, hlast]
      · simp [hall, hlast]

theorem current_subset (parts : List Part) : current parts ⊆ parts := by
  induction parts with
  | nil => exact List.Subset.refl _
  | cons first rest ih =>
    rw [current]
    split
    · exact List.Subset.refl _
    · exact List.subset_cons_of_subset _ ih

theorem table?_of_ne_nil {parts : List Part} (h : parts ≠ []) :
    table? parts = some (.array (rows (current parts))) := by
  cases parts with
  | nil => exact absurd rfl h
  | cons part rest => rfl

/-- What is found under a name are the parts of the table of this name that count. -/
theorem get?_document (name : String) (parts : List Part) :
    Fields.get? name (document parts) = table? (ofTable name parts) := by
  induction parts using List.reverseRecOn with
  | nil => rfl
  | append_singleton parts part ih =>
    have hadd : document (parts ++ [part]) = add (document parts) part := by
      rw [document, List.foldl_append]
      rfl
    rw [hadd, add, Scan.addTable, Fields.get?_insert]
    by_cases hname : part.header.name = name
    · subst hname
      have hown : ofTable part.header.name (parts ++ [part])
          = ofTable part.header.name parts ++ [part] := by
        simp [ofTable]
      rw [if_pos rfl, hown, table?_of_ne_nil (by simp), current_concat, ih]
      cases hcontinuation : part.header.continuation with
      | false => simp [rows]
      | true =>
        cases hparts : ofTable part.header.name parts with
        | nil => simp [table?, current, rows]
        | cons first rest => simp [table?, rows]
    · have hown : ofTable name (parts ++ [part]) = ofTable name parts := by
        simp [ofTable, hname]
      rw [if_neg hname, hown, ih]

/-- There are as many rows in parts as their headers say. -/
theorem length_rows {parts : List Part}
    (h : ∀ part ∈ parts, part.records.length = part.header.count) :
    (rows parts).length = (parts.map fun part => part.header.count).sum := by
  rw [rows, List.length_flatMap]
  apply congrArg List.sum
  apply List.map_congr_left
  intro part hpart
  rw [List.length_map, h part hpart]

end Part

/-- A text is a document exactly if its lines are a sequence of items, and then the document
is that of the parts of tables which the items hold.  The table of a name consists of its
parts from the last one on that is no continuation, and has as many rows as their headers
say. -/
theorem decode_eq_ok_iff_sequence (text : String) (document : Document) :
    decode text = .ok document ↔ ∃ items, Item.Sequence (filledLines text.toList) items ∧
      document = Part.document (Item.parts .initial items) ∧
      ∀ name,
        let own := Part.ofTable name (Item.parts .initial items)
        Fields.get? name document = Part.table? own ∧
          (Part.rows (Part.current own)).length
            = ((Part.current own).map fun part => part.header.count).sum := by
  have hfilled : ∀ line ∈ filledLines text.toList, IsFilled line :=
    fun line hline => Scan.isFilled_of_mem_filledLines hline
  rw [decode, Scan.decodeChars_eq_ok_iff]
  constructor
  · intro h
    obtain ⟨directives, hread⟩ := h
    obtain ⟨items, hitems, hdocument⟩ := Scan.sequence_of_reads hfilled hread
    refine ⟨items, hitems, hdocument, fun name => ⟨?_, ?_⟩⟩
    · rw [hdocument]
      exact Part.get?_document name _
    · apply Part.length_rows
      intro part hpart
      have hown := Part.current_subset _ hpart
      exact Item.length_records hitems _ part (List.mem_filter.1 hown).1
  · intro h
    obtain ⟨items, hitems, rfl, _⟩ := h
    exact Scan.reads_of_sequence hitems hfilled

end TableNotation
