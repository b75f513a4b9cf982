/-!
# Cutting texts and putting them together

* `lines` cuts a text at its line feeds, and `joined` is its inverse:
  `joined_lines` says that the pieces with line feeds between them are the
  text again, and `lines_joined` that pieces without line feeds come out as
  they went in.
* `enclosed?` looks inside a pair of delimiters, `after?` behind a fixed
  beginning.
-/

namespace TableNotation.Text

/-- The pieces of a text between its line feeds; a text without a line feed
is one line. -/
def lines : List Char → List (List Char)
  | [] => [[]]
  | c :: rest =>
    if c = '\n' then [] :: lines rest
    else match lines rest with
      | [] => [[c]]
      | line :: more => (c :: line) :: more

/-- Texts put together with `separator` between any two. -/
def joined (separator : List Char) : List (List Char) → List Char
  | [] => []
  | [part] => part
  | part :: more => part ++ (separator ++ joined separator more)

/-- What stands between `left` and `right` in a text of at least two
characters that begins with the one and ends with the other. -/
def enclosed? (left right : Char) : List Char → Option (List Char)
  | [] => none
  | c :: rest =>
    if c = left ∧ rest.getLast? = some right then some rest.dropLast else none

/-- What follows `start` in a text that begins with it. -/
def after? : List Char → List Char → Option (List Char)
  | [], s => some s
  | _ :: _, [] => none
  | a :: start, c :: s => if a = c then after? start s else none

theorem lines_ne_nil (s : List Char) : lines s ≠ [] := by
  cases s with
  | nil => simp [lines]
  | cons c rest =>
    rw [lines]
    split
    · simp
    · split <;> simp

/-- The lines of a text with line feeds between them are the text. -/
theorem joined_lines (s : List Char) : joined ['\n'] (lines s) = s := by
  induction s with
  | nil => rfl
  | cons c rest ih =>
    rw [lines]
    split
    · rename_i hc
      cases hl : lines rest with
      | nil => exact absurd hl (lines_ne_nil rest)
      | cons line more => rw [hl] at ih; simp [joined, ih, hc]
    · cases hl : lines rest with
      | nil => exact absurd hl (lines_ne_nil rest)
      | cons line more =>
        rw [hl] at ih
        cases more with
        | nil => simpa [joined] using ih
        | cons next others => simpa [joined] using ih

/-- A text without a line feed is one line. -/
theorem lines_eq_singleton {line : List Char} (h : '\n' ∉ line) : lines line = [line] := by
  induction line with
  | nil => rfl
  | cons c rest ih =>
    rw [lines, if_neg (Ne.symm (List.ne_of_not_mem_cons h)),
      ih (List.not_mem_of_not_mem_cons h)]

/-- What stands in front of a line feed is the first line. -/
theorem lines_append_newline {line : List Char} (h : '\n' ∉ line) (rest : List Char) :
    lines (line ++ '\n' :: rest) = line :: lines rest := by
  induction line with
  | nil => simp [lines]
  | cons c more ih =>
    rw [List.cons_append, lines, if_neg (Ne.symm (List.ne_of_not_mem_cons h)),
      ih (List.not_mem_of_not_mem_cons h)]

/-- Texts without line feeds, put together with line feeds between them, are the
lines of the whole. -/
theorem lines_joined {parts : List (List Char)} (hne : parts ≠ [])
    (h : ∀ part ∈ parts, '\n' ∉ part) : lines (joined ['\n'] parts) = parts := by
  induction parts with
  | nil => exact absurd rfl hne
  | cons part more ih =>
    obtain ⟨hpart, hmore⟩ := List.forall_mem_cons.1 h
    cases more with
    | nil => exact lines_eq_singleton hpart
    | cons next others =>
      rw [joined, List.singleton_append, lines_append_newline hpart,
        ih (List.cons_ne_nil _ _) hmore]
      exact List.cons_ne_nil _ _

/-- A text that begins with `start` is `start` and what follows it. -/
theorem after?_eq_some_iff {start s rest : List Char} :
    after? start s = some rest ↔ s = start ++ rest := by
  induction start generalizing s with
  | nil => simp [after?, eq_comm]
  | cons a start ih =>
    cases s with
    | nil => simp [after?]
    | cons c s =>
      by_cases h : a = c
      · subst h; simp [after?, ih]
      · simp [after?, h, Ne.symm h]

end TableNotation.Text
