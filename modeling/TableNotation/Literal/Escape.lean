/-!
# Quoted text

Inside double quotes a backslash, a quote, a line feed and a carriage return are
written with a backslash in front, so a quoted text stays on its line.

* `unescape_escape`: reading undoes writing;
* `newline_not_mem_escape`: an escaped text has no line feed.
-/

namespace TableNotation.Literal

/-- One character inside quotes. -/
def escapeChar (c : Char) : List Char :=
  match c with
  | '\\' => ['\\', '\\']
  | '"' => ['\\', '"']
  | '\n' => ['\\', 'n']
  | '\r' => ['\\', 'r']
  | c => [c]

/-- A text as it stands inside quotes. -/
def escape (s : List Char) : List Char := s.flatMap escapeChar

/-- The text that an escaped text stands for; a backslash in front of any other
character, or at the end, stands for itself. -/
def unescape : List Char → List Char
  | [] => []
  | '\\' :: '\\' :: rest => '\\' :: unescape rest
  | '\\' :: '"' :: rest => '"' :: unescape rest
  | '\\' :: 'n' :: rest => '\n' :: unescape rest
  | '\\' :: 'r' :: rest => '\r' :: unescape rest
  | '\\' :: c :: rest => '\\' :: c :: unescape rest
  | c :: rest => c :: unescape rest

/-- A text between quotes. -/
def quote (s : List Char) : List Char := '"' :: (escape s ++ ['"'])

/-- Reading undoes writing. -/
theorem unescape_escape (s : List Char) : unescape (escape s) = s := by
  induction s with
  | nil => rfl
  | cons c rest ih =>
    have hcons : escape (c :: rest) = escapeChar c ++ escape rest := rfl
    rw [hcons]
    by_cases h1 : c = '\\'
    · subst h1; simp [escapeChar, unescape, ih]
    · by_cases h2 : c = '"'
      · subst h2; simp [escapeChar, unescape, ih]
      · by_cases h3 : c = '\n'
        · subst h3; simp [escapeChar, unescape, ih]
        · by_cases h4 : c = '\r'
          · subst h4; simp [escapeChar, unescape, ih]
          · simp only [escapeChar, List.singleton_append]
            rw [unescape, ih]
            all_goals simp [h1]

/-- An escaped text stays on its line. -/
theorem newline_not_mem_escape (s : List Char) : '\n' ∉ escape s := by
  simp only [escape, List.mem_flatMap, not_exists, not_and]
  intro c _
  simp only [escapeChar]
  split <;> simp
  rename_i h _
  exact fun h' => h h'.symm

end TableNotation.Literal
