import Mathlib
import TableNotation.Proofs.Document.Acceptance
import TableNotation.Proofs.Text.Lines
/-!
# Edits that change nothing

A reader of a text cares neither for blanks around lines nor for blank lines, and it passes
over directives of names that it does not know, between tables as well as among rows.  So a
text may be indented, spaced out, commented on in such directives and given other line ends,
any number of times and at any place: it stays a document and the same one, or stays none.

* `IsCosmetic`: the edits.
* `filledLines_joined`, `filledLines_carriage`: the filled lines of a text put together.
* `Scan.reads_foreign`: a line that is passed over.
* `decodeChars_of_isCosmetic`: one edit.
* `decode_cosmetic_iff`: any number of them.
-/

namespace TableNotation

/-- A line that begins with `@`, but not like a dictionary, a schema or defaults. -/
structure Directive.IsForeign (line : List Char) : Prop where
  head : line.head? = some '@'
  dictionary : ¬ dictionaryMark <+: line
  schema : ¬ schemaMark <+: line
  defaults : ¬ defaultsMark <+: line

/-- An edit of a text, which is put together from lines: a blank line or a foreign directive is
inserted, a line is given blanks around it, or all line ends are given a carriage return. -/
inductive IsCosmetic : List Char → List Char → Prop
  | blankLine (before after : List (List Char)) {line : List Char} (hline : '\n' ∉ line)
      (hblank : ∀ c ∈ line, isBlank c = true) :
      IsCosmetic (Text.joined ['\n'] (before ++ after))
        (Text.joined ['\n'] (before ++ line :: after))
  | directive (before after : List (List Char)) {line : List Char} (hline : '\n' ∉ line)
      (hforeign : Directive.IsForeign line) :
      IsCosmetic (Text.joined ['\n'] (before ++ after))
        (Text.joined ['\n'] (before ++ line :: after))
  | blanks (before after : List (List Char)) {left line right : List Char}
      (hline : '\n' ∉ left ++ (line ++ right)) (hleft : ∀ c ∈ left, isBlank c = true)
      (hright : ∀ c ∈ right, isBlank c = true) :
      IsCosmetic (Text.joined ['\n'] (before ++ line :: after))
        (Text.joined ['\n'] (before ++ (left ++ (line ++ right)) :: after))
  | lineEnds {lines : List (List Char)} (hlines : ∀ line ∈ lines, '\n' ∉ line) :
      IsCosmetic (Text.joined ['\n'] lines) (Text.joined ['\r', '\n'] lines)

/-! ### Filled lines -/

theorem filledLines_append (s t : List Char) :
    filledLines (s ++ '\n' :: t) = filledLines s ++ filledLines t := by
  rw [filledLines, Text.lines_append, List.map_append, List.filter_append]
  rfl

/-- The filled lines of texts one below the other. -/
theorem filledLines_joined (parts : List (List Char)) :
    filledLines (Text.joined ['\n'] parts) = parts.flatMap filledLines := by
  induction parts with
  | nil => rfl
  | cons part more ih =>
    by_cases hmore : more = []
    · rw [hmore, Text.joined, List.flatMap_singleton]
    · rw [Text.joined_cons ['\n'] part hmore, List.singleton_append, filledLines_append, ih,
        List.flatMap_cons]

/-- A line is one filled line unless it is blank. -/
theorem filledLines_line {line : List Char} (h : '\n' ∉ line) :
    filledLines line = [Text.trim line].filter fun line => !line.isEmpty := by
  rw [filledLines, Text.lines_eq_singleton h]
  rfl

/-- Carriage returns at the ends of lines are blanks. -/
theorem filledLines_carriage {lines : List (List Char)} (h : ∀ line ∈ lines, '\n' ∉ line) :
    filledLines (Text.joined ['\r', '\n'] lines) = lines.flatMap filledLines := by
  induction lines with
  | nil => rfl
  | cons line more ih =>
    obtain ⟨hline, hothers⟩ := List.forall_mem_cons.1 h
    by_cases hmore : more = []
    · rw [hmore, Text.joined, List.flatMap_singleton]
    · have hends : line ++ (['\r', '\n'] ++ Text.joined ['\r', '\n'] more)
          = (line ++ ['\r']) ++ '\n' :: Text.joined ['\r', '\n'] more := by
        rw [List.append_assoc]
        rfl
      have hfeed : '\n' ∉ line ++ ['\r'] := by simp [hline]
      have htrim : Text.trim (line ++ ['\r']) = Text.trim line :=
        Text.trim_append_blank (List.forall_mem_singleton.2 (by decide)) line
      rw [Text.joined_cons _ line hmore, hends, filledLines_append, ih hothers,
        filledLines_line hfeed, htrim, ← filledLines_line hline, List.flatMap_cons]

/-! ### Foreign directives -/

theorem Directive.IsForeign.ne_nil {line : List Char} (h : IsForeign line) : line ≠ [] := by
  rintro rfl
  exact absurd h.head nofun

/-- A foreign directive is foreign without the blanks around it. -/
theorem Directive.IsForeign.trim {line : List Char} (h : IsForeign line) :
    IsForeign (Text.trim line) := by
  have hblank : isBlank '@' = false := by decide
  have hprefix : Text.trim line <+: line := by
    apply Text.trim_prefix
    intro c hc
    obtain rfl := Option.some.inj (h.head.symm.trans hc)
    exact hblank
  have hne : Text.trim line ≠ [] := by
    intro hnil
    rw [Text.trim_eq_nil_iff.1 hnil '@' (List.mem_of_head? h.head)] at hblank
    cases hblank
  refine ⟨?_, fun hmark => h.dictionary (hmark.trans hprefix),
    fun hmark => h.schema (hmark.trans hprefix), fun hmark => h.defaults (hmark.trans hprefix)⟩
  obtain ⟨c, rest, hcons⟩ := List.exists_cons_of_ne_nil hne
  obtain ⟨behind, hbehind⟩ := hprefix
  rw [← hbehind, hcons] at h
  rw [hcons]
  exact h.head

namespace Scan

/-- A foreign directive leaves every state alone. -/
theorem take_foreign {line : List Char} (h : Directive.IsForeign line) (scan : Scan)
    (number : Nat) : scan.take (number, line) = .ok scan := by
  obtain ⟨directives, document, block⟩ := scan
  cases block with
  | none =>
    have happly : directives.apply number line = .ok directives := by
      rw [Directives.apply, if_neg (by simpa using h.dictionary), if_neg (by simpa using h.schema),
        if_neg (by simpa using h.defaults)]
    rw [take_outside h.ne_nil, takeOutside, if_pos h.head, happly]
    rfl
  | some block =>
    rw [take_inside h.ne_nil, takeInside_eq_ok_iff]
    exact .inl ⟨h.head, rfl⟩

/-- So it can be left out, wherever it stands. -/
theorem reads_foreign {line : List Char} (h : Directive.IsForeign line) {scan next : Scan}
    (front behind : List (List Char)) :
    scan.Reads (front ++ line :: behind) next ↔ scan.Reads (front ++ behind) next := by
  induction front generalizing scan with
  | nil =>
    rw [List.nil_append, List.nil_append, reads_cons_iff, take_foreign h.trim]
    exact ⟨fun ⟨mid, hline, hrest⟩ => Except.ok.inj hline ▸ hrest, fun hrest => ⟨scan, rfl, hrest⟩⟩
  | cons first rest ih => simp only [List.cons_append, reads_cons_iff, ih]

end Scan

/-! ### Texts -/

/-- The filled lines of a text with a line in it are those of the text, and among them the line
unless it is blank. -/
theorem filledLines_insert (before after : List (List Char)) {line : List Char}
    (hline : '\n' ∉ line) : filledLines (Text.joined ['\n'] (before ++ line :: after))
      = before.flatMap filledLines ++ (([Text.trim line].filter fun line => !line.isEmpty)
        ++ after.flatMap filledLines) := by
  rw [filledLines_joined, List.flatMap_append, List.flatMap_cons, filledLines_line hline]

/-- An edit changes neither the document that a text is nor whether it is one. -/
theorem decodeChars_of_isCosmetic {text edited : List Char} (h : IsCosmetic text edited)
    (document : Document) :
    decodeChars text = .ok document ↔ decodeChars edited = .ok document := by
  rw [Scan.decodeChars_eq_ok_iff, Scan.decodeChars_eq_ok_iff]
  cases h with
  | blankLine before after hline hblank =>
    rw [filledLines_insert before after hline, Text.trim_eq_nil_iff.2 hblank, filledLines_joined,
      List.flatMap_append]
    rfl
  | @directive before after line hline hforeign =>
    have hfilled : [Text.trim line].filter (fun line => !line.isEmpty) = [Text.trim line] :=
      List.filter_cons_of_pos (by simpa using hforeign.trim.ne_nil)
    rw [filledLines_insert before after hline, hfilled, filledLines_joined, List.flatMap_append]
    apply exists_congr
    intro directives
    exact (Scan.reads_foreign hforeign.trim _ _).symm
  | @blanks before after left line right hline hleft hright =>
    have htrim : Text.trim (left ++ (line ++ right)) = Text.trim line := by
      rw [Text.trim_blank_append hleft, Text.trim_append_blank hright]
    have hinner : '\n' ∉ line := by
      intro hmem
      exact hline (List.mem_append_right _ (List.mem_append_left _ hmem))
    rw [filledLines_insert before after hline, htrim, filledLines_insert before after hinner]
  | lineEnds hlines => rw [filledLines_carriage hlines, filledLines_joined]

/-- Nor do any number of edits. -/
theorem decodeChars_of_edits {text edited : List Char} (h : Relation.EqvGen IsCosmetic text edited)
    (document : Document) :
    decodeChars text = .ok document ↔ decodeChars edited = .ok document := by
  induction h with
  | rel _ _ hedit => exact decodeChars_of_isCosmetic hedit document
  | refl _ => rfl
  | symm _ _ _ ih => exact ih.symm
  | trans _ _ _ _ _ first second => exact first.trans second

/-- However often a text is edited in these ways, and however often such an edit is taken back, it
stays a document and the same one, or it stays none. -/
theorem decode_cosmetic_iff {text edited : String}
    (h : Relation.EqvGen IsCosmetic text.toList edited.toList) :
    (∀ document, decode text = .ok document ↔ decode edited = .ok document) ∧
      ((∃ e, decode text = .error e) ↔ ∃ e, decode edited = .error e) := by
  have hdocument : ∀ document, decode text = .ok document ↔ decode edited = .ok document :=
    fun document => decodeChars_of_edits h document
  refine ⟨hdocument, ?_⟩
  rw [exists_eq_error_iff, exists_eq_error_iff]
  exact forall_congr' fun document => not_congr (hdocument document)

/-- Two rows with a blank line and a directive between them, the first of them indented and the
line ends with carriage returns. -/
theorem decode_cosmetic_iff_sample :
    let text := "@schema[a:int]\nt(2):\n1\n2"
    let edited := "@schema[a:int]\r\nt(2):\r\n \t1\r\n\r\n@query[t]\r\n2"
    let document : Document :=
      [("t", .array [.object [("a", .number (.integer 1 (by decide)))],
        .object [("a", .number (.integer 2 (by decide)))]])]
    Relation.EqvGen IsCosmetic text.toList edited.toList ∧
      (∀ document, decode text = .ok document ↔ decode edited = .ok document) ∧
      ((∃ e, decode text = .error e) ↔ ∃ e, decode edited = .error e) ∧
      decode text = .ok document ∧ decode edited = .ok document := by
  intro text edited document
  let schema := "@schema[a:int]".toList
  let header := "t(2):".toList
  have hrows : IsCosmetic (Text.joined ['\n'] [schema, header, ['1'], ['2']])
      (Text.joined ['\n'] [schema, header, [' ', '\t', '1'], ['2']]) :=
    @IsCosmetic.blanks [schema, header] [['2']] [' ', '\t'] ['1'] [] (by decide)
      (List.forall_mem_cons.2 ⟨by decide, List.forall_mem_singleton.2 (by decide)⟩)
      (List.forall_mem_nil _)
  have hblank : IsCosmetic (Text.joined ['\n'] [schema, header, [' ', '\t', '1'], ['2']])
      (Text.joined ['\n'] [schema, header, [' ', '\t', '1'], [], ['2']]) :=
    .blankLine [schema, header, [' ', '\t', '1']] [['2']] (by decide) (List.forall_mem_nil _)
  have hdirective : IsCosmetic (Text.joined ['\n'] [schema, header, [' ', '\t', '1'], [], ['2']])
      (Text.joined ['\n']
        [schema, header, [' ', '\t', '1'], [], "@query[t]".toList, ['2']]) :=
    .directive [schema, header, [' ', '\t', '1'], []] [['2']] (by decide)
      ⟨by decide, by decide, by decide, by decide⟩
  have hends : IsCosmetic
      (Text.joined ['\n'] [schema, header, [' ', '\t', '1'], [], "@query[t]".toList, ['2']])
      (Text.joined ['\r', '\n']
        [schema, header, [' ', '\t', '1'], [], "@query[t]".toList, ['2']]) :=
    .lineEnds (by decide)
  have htext : Text.joined ['\n'] [schema, header, ['1'], ['2']] = text.toList := by decide
  have hedited : Text.joined ['\r', '\n']
      [schema, header, [' ', '\t', '1'], [], "@query[t]".toList, ['2']] = edited.toList := by decide
  have hedits : Relation.EqvGen IsCosmetic text.toList edited.toList := by
    rw [← htext, ← hedited]
    exact .trans _ _ _ (.rel _ _ hrows) (.trans _ _ _ (.rel _ _ hblank)
      (.trans _ _ _ (.rel _ _ hdirective) (.rel _ _ hends)))
  obtain ⟨hdocument, herror⟩ := decode_cosmetic_iff hedits
  have htable : decode text = .ok document := by cbv
  exact ⟨hedits, hdocument, herror, htable, (hdocument document).1 htable⟩

end TableNotation
