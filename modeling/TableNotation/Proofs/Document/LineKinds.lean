import TableNotation.Proofs.Document.Reading
import TableNotation.Proofs.Literal.OneLine
/-!
# Kinds of lines

Below a header a line is told from a row by its rough shape alone, and outside tables a line is read
as a header by its parts.  The two never disagree.  No row has the rough shape, since a literal does
not end with a colon; and whatever is read as a header, even with a count that is too large, ends
with its count and so has the shape.

* `Row.isUnbroken_render`: a row is one line.
* `Scan.rows_headers_apart`: rows and headers are told apart.
-/

namespace TableNotation

/-- No slot of a row has a character that ends a line. -/
theorem Row.isUnbroken_render {dictionary : Dictionary} (hd : dictionary.HasReferences)
    (layout : Layout) (record : Record) :
    Literal.IsUnbroken (render dictionary layout record) := by
  have hliteral := (Literal.holdsOfLiterals_isUnbroken hd).render
  unfold render
  split
  · decide
  · dsimp only
    split
    · exact hliteral _
    · apply Literal.isUnbroken_commaList
      intro part hpart
      obtain ⟨slot, hslot, rfl⟩ := List.mem_map.1 hpart
      obtain rfl | ⟨v, rfl⟩ := slot_of_mem hslot
      · exact fun _ hc => absurd hc List.not_mem_nil
      · exact hliteral v

namespace Scan

/-- Rows and headers are told apart.  The row of a record is one line, not blank, and neither a
directive nor anything like a header, so below a header it is taken as a row.  The line of a header
with a name that can be read looks like a header, and is read as that header.  And any line without
blanks around it that is read as a header, whether its count can be kept or is too large, looks like
one, unless it is a directive: below a header it is never taken as a row. -/
theorem rows_headers_apart :
    (∀ (dictionary : Dictionary) (layout : Layout) (record : Record), dictionary.HasReferences →
      let row := Row.render dictionary layout record
      (∀ c ∈ row, c ≠ '\n' ∧ c ≠ '\r') ∧ Text.isBlankText row = false ∧
        row.head? ≠ some '@' ∧ Header.looksLike row = false ∧
        ∀ (scan : Scan) (block : Block),
          let directives := scan.directives
          scan.takeInside block row = .ok (scan.closeIfFull { block with
            rows := Row.parse directives.dictionary directives.layout row :: block.rows })) ∧
    (∀ header : Header, Header.isReadable header.name.toList = true →
      Header.looksLike header.render = true ∧ Header.read? header.render = some header ∧
        (header.count < Header.countLimit → ∀ (scan : Scan) (number : Nat),
          scan.takeOutside number header.render = .ok (scan.closeIfFull ⟨header, []⟩))) ∧
    ∀ (line : List Char) (header : Header), Text.trim line = line → line.head? ≠ some '@' →
      Header.read? line = some header →
      (∀ (scan : Scan) (number : Nat), scan.takeOutside number line
        = if header.count < Header.countLimit then .ok (scan.closeIfFull ⟨header, []⟩)
          else .error .countTooLarge) ∧
        Header.looksLike line = true ∧
        ∀ (scan : Scan) (block : Block),
          scan.takeInside block line = .error (missingRows block) := by
  refine ⟨?_, ?_, ?_⟩
  · intro dictionary layout record hd row
    have hline := Row.isLine_render hd layout record
    exact ⟨Row.isUnbroken_render hd layout record,
      Text.isBlankText_eq_false hline.tight hline.ne_nil, hline.noDirective, hline.noHeader,
      fun scan => takeInside_row scan hline.noDirective hline.noHeader⟩
  · intro header hname
    have hread := Header.read?_render hname
    refine ⟨Header.looksLike_render hname, hread, ?_⟩
    intro hcount scan number
    rw [takeOutside_header scan (Header.head?_render_ne hname) hread, if_pos hcount]
  · intro line header htrim hhead hread
    have htight : Text.IsTight line := htrim ▸ Text.isTight_trim line
    have hlooks := Header.looksLike_of_read? htight hhead hread
    exact ⟨fun scan => takeOutside_header scan hhead hread, hlooks,
      fun scan => takeInside_header scan hlooks⟩

/-- A text that looks like a header stands in a row, behind an empty slot; and a count that is too
large, by one, ends what still looks like a header. -/
theorem rows_headers_apart_sample :
    let layout : Layout := ⟨[("a", .str), ("b", .str)], SortedMap.ofList [("a", .string "")]⟩
    let row := Row.render .empty layout [("a", .string ""), ("b", .string "@t+(1):")]
    let header : Header := ⟨"t", 2 ^ 64, false⟩
    row = ", \"@t+(1):\"".toList ∧ Header.looksLike row = false ∧
      header.render = "t(18446744073709551616):".toList ∧ Header.looksLike header.render = true ∧
      ∀ (scan : Scan) (block : Block),
        scan.takeOutside 1 header.render = .error .countTooLarge ∧
          scan.takeInside block header.render = .error (missingRows block) := by
  intro layout row header
  have hrow : row = ", \"@t+(1):\"".toList := by decide +kernel
  have hheader : header.render = "t(18446744073709551616):".toList := by decide +kernel
  obtain ⟨hrows, hheaders, hlines⟩ := rows_headers_apart
  obtain ⟨_, _, _, hshape, _⟩ := hrows .empty layout [("a", .string ""), ("b", .string "@t+(1):")]
    Dictionary.hasReferences_empty
  obtain ⟨hlooks, hread, _⟩ := hheaders header (by decide)
  obtain ⟨houtside, _, hinside⟩ := hlines header.render header (by rw [hheader]; decide +kernel)
    (by rw [hheader]; decide) hread
  refine ⟨hrow, hshape, hheader, hlooks, fun scan block => ⟨?_, hinside scan block⟩⟩
  rw [houtside]
  rfl

end Scan
end TableNotation
