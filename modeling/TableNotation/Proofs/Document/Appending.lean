import Mathlib
import TableNotation.Proofs.Document.Tables
/-!
# Texts of documents appended to other texts

The text of a document can be appended to any text at all.  If the other text can be
read, the appended one is read as if it stood alone, whatever dictionary, schema and
defaults are in force behind the other one: every table begins with a schema, which
clears the defaults, and references are written only behind a dictionary of their own.
If the other text leaves a table open, then no line that is appended is taken for one of
the missing rows: quiet lines are skipped, and the first header ends the reading.

* `run_of_open`: a table that is open stays incomplete.
* `decode_append`: reading both texts is reading the one and laying the other over it.
-/

namespace TableNotation

namespace Scan

variable {directives : Directives} {document : Document}

/-- A text behind a line feed is read from the state that the text in front leads to. -/
theorem decodeChars_append (a b : List Char) : decodeChars (a ++ '\n' :: b)
    = (numberedLines 1 (Text.lines a)).foldlM take initial >>= fun scan =>
      scan.run (1 + (Text.lines a).length) (Text.lines b) := by
  rw [decodeChars_eq_run, run, Text.lines_append, numberedLines_append, List.foldlM_append]
  cases (numberedLines 1 (Text.lines a)).foldlM take initial with
  | error e => rfl
  | ok scan => rfl

/-- A header ends the reading of an open table. -/
theorem run_of_open_header {header : Header} (hname : Header.isReadable header.name.toList = true)
    {lines : List (List Char)} (hlines : ∀ line ∈ lines, IsQuiet line) (block : Block)
    (more : List (List Char)) (first : Nat) :
    run ⟨directives, document, some block⟩ first (lines ++ header.render :: more)
      = .error (missingRows block) := by
  have hquiet := @reads_quiet_inside directives document lines hlines block first
  have hheader : take ⟨directives, document, some block⟩
      (first + lines.length, Text.trim header.render) = .error (missingRows block) := by
    rw [Text.trim_eq_self (Header.isTight_render hname),
      take_inside (Header.render_ne_nil header),
      takeInside_header _ (Header.looksLike_render hname)]
  unfold run
  rw [numberedLines_append, List.foldlM_append, hquiet, numberedLines]
  have hstep : ∀ rest : List (Nat × List Char),
      ((first + lines.length, Text.trim header.render) :: rest).foldlM take
          ⟨directives, document, some block⟩ = .error (missingRows block) := by
    intro rest
    rw [List.foldlM_cons, hheader]
    rfl
  show (List.foldlM take _ _ >>= finish) = _
  rw [hstep]
  rfl

/-- A table that is open in front of the lines of a document stays incomplete. -/
theorem run_of_open {settings : Settings} {compress : Bool} {written : Document}
    (h : written.IsReadable) (block : Block) (first : Nat) :
    run ⟨directives, document, some block⟩ first (Encoding.lines settings compress written)
      = .error (missingRows block) := by
  have hd := @Encoding.hasReferences_writer settings compress written
  have hdictionary : ∀ line ∈ Encoding.dictionaryLines (Encoding.writer settings compress written),
      IsQuiet line :=
    fun _ hline => Encoding.isQuiet_of_mem_dictionaryLines hd hline
  rw [Encoding.lines_eq]
  cases hall : Encoding.written settings compress written with
  | nil =>
    rw [List.flatMap_nil, List.append_nil, run_of_reads (reads_quiet_inside hdictionary block)]
    rfl
  | cons table rest =>
    have htable : table.IsReadable :=
      Encoding.isReadable_of_mem_written h (hall ▸ List.mem_cons_self)
    have hlead : ∀ line ∈ Encoding.dictionaryLines (Encoding.writer settings compress written)
        ++ table.leadLines settings (Encoding.writer settings compress written),
        IsQuiet line := by
      intro line hline
      rcases List.mem_append.1 hline with hline | hline
      · exact hdictionary line hline
      · exact Table.isQuiet_of_mem_leadLines htable hd hline
    have hopen := fun more => @run_of_open_header directives document table.header htable.name _
      hlead block more first
    rw [List.flatMap_cons, Table.lines, List.append_assoc, ← List.append_assoc]
    exact hopen _

end Scan

/-- The text of a document behind any other text, as characters. -/
theorem decodeChars_append_lines {settings : Settings} {compress : Bool} {document : Document}
    (h : document.IsReadable) (a : List Char) :
    decodeChars (a ++ '\n' :: Text.joined ['\n'] (Encoding.lines settings compress document))
      = (decodeChars a).map fun before =>
        before.overlay (Encoding.readBack settings compress document) := by
  have hlines : ∀ line ∈ Encoding.lines settings compress document, '\n' ∉ line :=
    fun _ hline => Encoding.newline_not_mem_of_mem_lines h hline
  rw [Scan.decodeChars_append, Scan.decodeChars_eq_run, Scan.run]
  cases (numberedLines 1 (Text.lines a)).foldlM Scan.take Scan.initial with
  | error e => rfl
  | ok scan =>
    obtain ⟨directives, before, block⟩ := scan
    cases block with
    | none =>
      obtain ⟨after, hafter⟩ := @Encoding.reads_lines settings compress document h directives before
      exact Scan.run_of_reads (hafter.joined hlines) _
    | some block =>
      by_cases hnil : Encoding.lines settings compress document = []
      · rw [hnil]
        rfl
      · have hopen := @Scan.run_of_open directives before settings compress document h block
          (1 + (Text.lines a).length)
        rw [Text.lines_joined hnil hlines]
        exact hopen

/-- A document that is appended to a text is read as if it stood alone, and laid over what
the text says; and the whole is read if and only if the text is. -/
theorem decode_append {document : Document} (h : document.IsReadable)
    (hvalid : document.validate = .ok ()) (settings : Settings) (compress : Bool) :
    ∃ text back, encode settings compress document = .ok text ∧ decode text = .ok back ∧
      ∀ front : String,
        decode (front ++ "\n" ++ text) = (decode front).map fun before => before.overlay back := by
  refine ⟨_, Encoding.readBack settings compress document,
    encode_of_validate hvalid settings compress, ?_, ?_⟩
  · rw [decode, String.toList_ofList]
    exact Encoding.decodeChars_lines h
  · intro front
    have hfeed : "\n".toList = ['\n'] := by decide
    rw [decode, decode, String.toList_append, String.toList_append, hfeed, String.toList_ofList,
      List.append_assoc, List.singleton_append]
    exact decodeChars_append_lines h front.toList

/-- The text in front has directives of its own, which would change every row, and a table of the
name of the first table behind it, which takes its place. -/
theorem decode_append_sample :
    let front := "@dict[#1:\"x\"]\n@schema[load:int]\n@defaults[load:5]\nlog(1):\n7"
    let log : Record := [("load", .number (.integer 7 (by decide)))]
    let row : Value → Value → Record := fun tag path =>
      [("level", .string "warning"), ("load", .number (.float (.zero false))), ("tag", tag),
        ("path", path)]
    let rows : List Record :=
      [row (.string "#0") (.array [.string "a, b", .null]), row .null .null,
        row (.string "#0") .null]
    let back : Document :=
      [("log", .array (rows.map .object)), ("none", .array []), ("bare", .array [.object []])]
    Document.sample.IsReadable ∧ Document.sample.validate = .ok () ∧
      decode front = .ok [("log", .array [.object log])] ∧
      ∃ text, encode .standard true Document.sample = .ok text ∧ decode text = .ok back ∧
        decode (front ++ "\n" ++ text) = (decode front).map (fun before => before.overlay back) ∧
        decode (front ++ "\n" ++ text) = .ok back := by
  intro front log row rows back
  have hreadable : Document.sample.IsReadable := by decide
  have hfront : decode front = .ok [("log", .array [.object log])] := by cbv
  obtain ⟨text, found, hencode, hdecode, happend⟩ := decode_append hreadable rfl .standard true
  have hread : decode text = .ok (Encoding.readBack .standard true Document.sample) := by
    rw [decode, toList_of_encode hencode]
    exact Encoding.decodeChars_lines hreadable
  have hback : Encoding.readBack .standard true Document.sample = back := rfl
  obtain rfl : found = back := Except.ok.inj (hdecode.symm.trans (hread.trans (congrArg _ hback)))
  refine ⟨hreadable, rfl, hfront, text, hencode, hdecode, happend front, ?_⟩
  rw [happend front, hfront]
  rfl

end TableNotation
