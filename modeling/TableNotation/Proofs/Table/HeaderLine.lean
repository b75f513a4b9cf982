import TableNotation.Table.Header
import TableNotation.Proofs.Literal.Shape
/-!
# Header lines read back

A header is read back from its line if its name can be read, that is, if it is not
empty, has no parenthesis, plus sign or blank, and does not begin with `@`.  Such a
line looks like a header too, so it ends the rows of a table above it; a line that
does not end with a colon never does.

* `read?_render`: reading undoes writing.
* `looksLike_render`, `looksLike_of_read?`, `looksLike_of_getLast_ne`: what looks like a header.
-/

namespace TableNotation.Header

variable {header : Header}

/-- What a name has to be so that a reader finds it in a header. -/
theorem isReadable_iff {name : List Char} : isReadable name = true ↔
    name ≠ [] ∧ (∀ c ∈ name, isNameChar c = true) ∧ name.head? ≠ some '@' := by
  simp [isReadable, and_assoc]

/-- What stands behind the name in the line of a header. -/
theorem render_eq (header : Header) : header.render = header.name.toList ++
    ((if header.continuation then ['+'] else []) ++
      '(' :: (Decimal.digitsOf header.count ++ [')', ':'])) := by
  rw [render, List.append_assoc]

/-- No character of a name is blank. -/
theorem isBlank_of_isNameChar {c : Char} (h : isNameChar c = true) : isBlank c = false := by
  simp only [isNameChar, Bool.and_eq_true, Bool.not_eq_true'] at h
  exact h.2

/-- A header has no blanks around it. -/
theorem isTight_render (h : isReadable header.name.toList = true) :
    Text.IsTight header.render := by
  obtain ⟨hne, hname, _⟩ := isReadable_iff.1 h
  have htail : header.render = header.name.toList ++
      (((if header.continuation then ['+'] else []) ++ '(' :: (Decimal.digitsOf header.count ++
        [')'])) ++ [':']) := by
    rw [render_eq]
    simp
  have hcolon : Text.IsTight [':'] := by
    apply Text.isTight_of_forall
    intro c hc
    rw [List.mem_singleton.1 hc]
    decide
  have htight := Text.isTight_of_forall fun c hc => isBlank_of_isNameChar (hname c hc)
  rw [htail]
  exact htight.around hcolon hne (List.cons_ne_nil _ _) _

/-- A header is not empty. -/
theorem render_ne_nil (header : Header) : header.render ≠ [] := by
  rw [render_eq]
  simp

/-- It does not look like a directive. -/
theorem head?_render_ne (h : isReadable header.name.toList = true) :
    header.render.head? ≠ some '@' := by
  obtain ⟨hne, _, hhead⟩ := isReadable_iff.1 h
  rw [render_eq, List.head?_append, List.head?_eq_some_head hne, Option.some_or,
    ← List.head?_eq_some_head hne]
  exact hhead

/-- A header is one line. -/
theorem newline_not_mem_render (h : isReadable header.name.toList = true) :
    '\n' ∉ header.render := by
  obtain ⟨_, hname, _⟩ := isReadable_iff.1 h
  rw [render_eq]
  intro hmem
  rcases List.mem_append.1 hmem with hmem | hmem
  · exact absurd (hname _ hmem) (by decide)
  rcases List.mem_append.1 hmem with hmem | hmem
  · split at hmem <;> simp at hmem
  rcases List.mem_cons.1 hmem with hmem | hmem
  · exact absurd hmem (by decide)
  rcases List.mem_append.1 hmem with hmem | hmem
  · exact absurd (isDigit_of_mem_digitsOf hmem) (by decide)
  · exact absurd hmem (by decide)

/-- The digits of a count are found between its parentheses. -/
theorem countDigits?_count (n : Nat) :
    countDigits? ('(' :: (Decimal.digitsOf n ++ [')', ':'])) = some (Decimal.digitsOf n) := by
  have hdigits : ∀ c ∈ Decimal.digitsOf n, c.isDigit = true :=
    fun c hc => isDigit_of_mem_digitsOf hc
  have htake : (Decimal.digitsOf n ++ [')', ':']).takeWhile Char.isDigit
      = Decimal.digitsOf n := by
    rw [List.takeWhile_append_of_pos hdigits, List.takeWhile_cons_of_neg (by decide),
      List.append_nil]
  have hdrop : (Decimal.digitsOf n ++ [')', ':']).dropWhile Char.isDigit = [')', ':'] := by
    rw [List.dropWhile_append_of_pos hdigits, List.dropWhile_cons_of_neg (by decide)]
  have hne : (Decimal.digitsOf n).isEmpty = false := List.isEmpty_eq_false_iff.2 (digitsOf_ne_nil n)
  simp only [countDigits?, htake, hdrop, hne]
  simp

/-- Reading undoes writing. -/
theorem read?_render (h : isReadable header.name.toList = true) :
    read? header.render = some header := by
  obtain ⟨hne, hname, _⟩ := isReadable_iff.1 h
  have hparen : isNameChar '(' = false := by decide
  have hplus : isNameChar '+' = false := by decide
  -- neither mark behind the name belongs to it
  have htake : header.render.takeWhile isNameChar = header.name.toList := by
    rw [render_eq, List.takeWhile_append_of_pos hname]
    cases header.continuation <;> simp [hparen, hplus]
  have hdrop : header.render.dropWhile isNameChar
      = (if header.continuation then ['+'] else []) ++
        '(' :: (Decimal.digitsOf header.count ++ [')', ':']) := by
    rw [render_eq, List.dropWhile_append_of_pos hname]
    cases header.continuation <;> simp [hparen, hplus]
  have hempty : header.name.toList.isEmpty = false := List.isEmpty_eq_false_iff.2 hne
  have hread : ∀ continuation, header.continuation = continuation →
      read? header.render = some ⟨header.name, header.count, continuation⟩ := by
    intro continuation hcontinuation
    rw [read?, Text.trim_eq_self (isTight_render h)]
    simp only [htake, hdrop, hempty, hcontinuation]
    cases continuation <;>
      simp [countDigits?_count, naturalOf_digitsOf, String.ofList_toList]
  exact hread _ rfl

/-- What stands between parentheses in front of the colon that ends a header. -/
theorem eq_of_countDigits? {s digits : List Char} (h : countDigits? s = some digits) :
    s = '(' :: (digits ++ [')', ':']) := by
  unfold countDigits? at h
  split at h
  · rename_i rest
    simp only [Option.ite_none_right_eq_some, Bool.and_eq_true, decide_eq_true_eq,
      Option.some.injEq] at h
    obtain ⟨⟨_, hend⟩, rfl⟩ := h
    rw [← hend, List.takeWhile_append_dropWhile]
  · exact absurd h (by simp)

/-- A line that is read as a header ends with its count. -/
theorem exists_count_of_read? {line : List Char} (htight : Text.IsTight line)
    (h : read? line = some header) :
    ∃ front digits, line = front ++ '(' :: (digits ++ [')', ':']) := by
  have hline : line.takeWhile isNameChar ++ line.dropWhile isNameChar = line :=
    List.takeWhile_append_dropWhile
  rw [read?, Text.trim_eq_self htight] at h
  simp only at h
  split at h
  · exact absurd h (by simp)
  · obtain ⟨digits, hdigits, _⟩ := Option.map_eq_some_iff.1 h
    have hcount := eq_of_countDigits? hdigits
    split at hcount
    · rename_i rest hplus
      refine ⟨line.takeWhile isNameChar ++ ['+'], digits, ?_⟩
      rw [List.append_assoc, List.singleton_append, ← hcount, ← hplus, hline]
    · refine ⟨line.takeWhile isNameChar, digits, ?_⟩
      rw [← hcount, hline]

/-- A line that ends with a count looks like a header. -/
theorem looksLike_of_count {line front digits : List Char}
    (hline : line = front ++ '(' :: (digits ++ [')', ':'])) (hhead : line.head? ≠ some '@') :
    looksLike line = true := by
  have hcontains : line.contains '(' = true := by
    rw [hline]
    simp
  have hsuffix : [')', ':'] <:+ line := ⟨front ++ '(' :: digits, by simp [hline]⟩
  rw [looksLike, bne_iff_ne.2 hhead, hcontains, List.isSuffixOf_iff_suffix.2 hsuffix]
  rfl

/-- The line of a header looks like a header. -/
theorem looksLike_render (h : isReadable header.name.toList = true) :
    looksLike header.render = true :=
  looksLike_of_count rfl (head?_render_ne h)

/-- A line that is read as a header looks like one, unless it is a directive. -/
theorem looksLike_of_read? {line : List Char} (htight : Text.IsTight line)
    (hhead : line.head? ≠ some '@') (h : read? line = some header) : looksLike line = true := by
  obtain ⟨front, digits, hline⟩ := exists_count_of_read? htight h
  exact looksLike_of_count hline hhead

/-- A line that does not end with a colon does not look like a header. -/
theorem looksLike_of_getLast_ne {line : List Char} (h : line.getLast? ≠ some ':') :
    looksLike line = false := by
  have hsuffix : [')', ':'].isSuffixOf line = false := by
    rw [Bool.eq_false_iff, Ne, List.isSuffixOf_iff_suffix]
    rintro ⟨start, rfl⟩
    exact h (by simp)
  rw [looksLike, hsuffix, Bool.and_false]

end TableNotation.Header
