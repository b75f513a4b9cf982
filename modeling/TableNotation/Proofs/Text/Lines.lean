import TableNotation.Text.Pieces
/-!
# Lines of texts put together

The lines of two texts with a line feed between them are the lines of the one and
then those of the other, whatever the texts are.  And to put pieces together that
were themselves put together from lines is to put all the lines together.

* `lines_append`, `joined_map_joined`
-/

namespace TableNotation.Text

/-- A character in front of a text lengthens the first line. -/
theorem lines_cons {c : Char} (hc : c ≠ '\n') {rest line : List Char} {more : List (List Char)}
    (h : lines rest = line :: more) : lines (c :: rest) = (c :: line) :: more := by
  rw [lines, if_neg hc, h]

/-- A line feed between two texts ends the last line of the first one. -/
theorem lines_append (s t : List Char) : lines (s ++ '\n' :: t) = lines s ++ lines t := by
  induction s with
  | nil =>
    have hfeed : lines ('\n' :: t) = [] :: lines t := by rw [lines, if_pos rfl]
    exact hfeed
  | cons c rest ih =>
    by_cases hc : c = '\n'
    · rw [List.cons_append, lines, if_pos hc, ih, lines, if_pos hc, List.cons_append]
    · obtain ⟨line, more, hlines⟩ := List.exists_cons_of_ne_nil (lines_ne_nil rest)
      rw [hlines, List.cons_append] at ih
      rw [List.cons_append, lines_cons hc ih, lines_cons hc hlines, List.cons_append]

variable (separator : List Char)

/-- A part in front of others is followed by the separator. -/
theorem joined_cons (part : List Char) {more : List (List Char)} (h : more ≠ []) :
    joined separator (part :: more) = part ++ (separator ++ joined separator more) := by
  cases more with
  | nil => exact absurd rfl h
  | cons next others => rfl

/-- Parts can be put together in two groups. -/
theorem joined_append {parts more : List (List Char)} (hparts : parts ≠ []) (hmore : more ≠ []) :
    joined separator (parts ++ more)
      = joined separator parts ++ (separator ++ joined separator more) := by
  induction parts with
  | nil => exact absurd rfl hparts
  | cons part rest ih =>
    have hne : rest ++ more ≠ [] := by simp [hmore]
    rw [List.cons_append, joined_cons separator part hne]
    by_cases hrest : rest = []
    · rw [hrest, List.nil_append, joined]
    · rw [ih hrest, joined_cons separator part hrest]
      simp only [List.append_assoc]

/-- Groups of parts can be put together group by group. -/
theorem joined_map_joined {groups : List (List (List Char))} (h : ∀ group ∈ groups, group ≠ []) :
    joined separator (groups.map (joined separator)) = joined separator groups.flatten := by
  induction groups with
  | nil => rfl
  | cons group rest ih =>
    obtain ⟨hgroup, hrest⟩ := List.forall_mem_cons.1 h
    by_cases hnil : rest = []
    · rw [hnil, List.flatten_cons, List.flatten_nil, List.append_nil]
      rfl
    · have hmap : rest.map (joined separator) ≠ [] := by simp [hnil]
      have hflatten : rest.flatten ≠ [] := by
        obtain ⟨next, others, rfl⟩ := List.exists_cons_of_ne_nil hnil
        have hnext := hrest next List.mem_cons_self
        simp [hnext]
      rw [List.map_cons, joined_cons separator _ hmap, ih hrest, List.flatten_cons,
        joined_append separator hgroup hflatten]

end TableNotation.Text
