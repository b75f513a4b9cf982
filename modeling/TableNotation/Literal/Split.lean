import TableNotation.Text.Blank
/-!
# Cutting a line into slots

A line of literals is cut at its commas, an entry at its first colon.  Commas and
colons inside double quotes do not count, and commas inside brackets do not
count either.  Brackets need not match: a closing one too many is ignored.

* `Literal.slots` are the parts between the commas, trimmed;
* `Literal.pair?` are the parts before and after the first colon, trimmed;
* `length_le_of_mem_slots` and `length_lt_of_pair?` bound the parts by the whole.
-/

namespace TableNotation.Literal

/-- Where a character stands with respect to double quotes. -/
inductive Quoting where
  | outside
  | inside
  | escaped
  deriving DecidableEq

/-- How a character changes that: a quote opens or closes, and a backslash inside
quotes takes the next character out of the game. -/
def Quoting.next : Quoting → Char → Quoting
  | .outside, c => if c = '"' then .inside else .outside
  | .inside, c => if c = '\\' then .escaped else if c = '"' then .outside else .inside
  | .escaped, _ => .inside

/-- Where a character stands with respect to quotes and brackets. -/
structure Position where
  quoting : Quoting
  depth : Nat
  deriving DecidableEq

namespace Position

/-- The position in front of a text. -/
def start : Position := ⟨.outside, 0⟩

/-- Outside quotes and brackets. -/
def isTop (p : Position) : Bool := p.quoting = .outside && p.depth = 0

/-- How a character changes the depth of brackets outside quotes. -/
def nextDepth (depth : Nat) (c : Char) : Nat :=
  if c = '[' ∨ c = '\x7b' then depth + 1
  else if c = ']' ∨ c = '\x7d' then depth - 1
  else depth

/-- The position behind a character. -/
def next (p : Position) (c : Char) : Position :=
  ⟨p.quoting.next c, if p.quoting = .outside then nextDepth p.depth c else p.depth⟩

end Position

/-- The pieces of a text between its commas outside quotes and brackets, as they
stand. -/
def pieces : Position → List Char → List (List Char)
  | _, [] => [[]]
  | p, c :: rest =>
    if c = ',' ∧ p.isTop then [] :: pieces p rest
    else match pieces (p.next c) rest with
      | [] => [[c]]
      | piece :: more => (c :: piece) :: more

/-- The slots of a line: its pieces without the blanks around them.  A blank line
has no slots. -/
def slots (s : List Char) : List (List Char) :=
  if Text.isBlankText s then [] else (pieces .start s).map Text.trim

/-- The parts of a text around its first colon outside quotes, as they stand. -/
def colonParts? : Quoting → List Char → Option (List Char × List Char)
  | _, [] => none
  | q, c :: rest =>
    if c = ':' ∧ q = .outside then some ([], rest)
    else match colonParts? (q.next c) rest with
      | none => none
      | some (before, after) => some (c :: before, after)

/-- The parts of an entry around its first colon, without the blanks around
them. -/
def pair? (s : List Char) : Option (List Char × List Char) :=
  match colonParts? .outside s with
  | none => none
  | some (before, after) => some (Text.trim before, Text.trim after)

theorem length_trim_le (s : List Char) : (Text.trim s).length ≤ s.length := by
  have h (t : List Char) : (t.dropWhile isBlank).length ≤ t.length :=
    (List.dropWhile_sublist _).length_le
  simp only [Text.trim, Text.trimEnd, Text.trimStart, List.length_reverse]
  refine Nat.le_trans (h _) ?_
  rw [List.length_reverse]
  exact h s

theorem length_le_of_mem_pieces {p : Position} {s piece : List Char}
    (h : piece ∈ pieces p s) : piece.length ≤ s.length := by
  induction s generalizing p piece with
  | nil => simp only [pieces, List.mem_singleton] at h; simp [h]
  | cons c rest ih =>
    rw [pieces] at h
    split at h
    · rcases List.mem_cons.1 h with rfl | h
      · simp
      · exact Nat.le_succ_of_le (ih h)
    · split at h
      · simp only [List.mem_singleton] at h; simp [h]
      · rename_i first more hp
        rcases List.mem_cons.1 h with rfl | h
        · exact Nat.succ_le_succ (ih (hp ▸ List.mem_cons_self))
        · exact Nat.le_succ_of_le (ih (hp ▸ List.mem_cons_of_mem _ h))

/-- A slot is no longer than its line. -/
theorem length_le_of_mem_slots {s slot : List Char} (h : slot ∈ slots s) :
    slot.length ≤ s.length := by
  rw [slots] at h
  split at h
  · simp at h
  · obtain ⟨piece, hp, rfl⟩ := List.mem_map.1 h
    exact Nat.le_trans (length_trim_le _) (length_le_of_mem_pieces hp)

theorem length_colonParts? {q : Quoting} {s before after : List Char}
    (h : colonParts? q s = some (before, after)) :
    before.length + after.length < s.length := by
  induction s generalizing q before with
  | nil => simp [colonParts?] at h
  | cons c rest ih =>
    rw [colonParts?] at h
    split at h
    · simp only [Option.some.injEq, Prod.mk.injEq] at h
      obtain ⟨rfl, rfl⟩ := h
      simp
    · split at h
      · simp at h
      · rename_i b a hr
        simp only [Option.some.injEq, Prod.mk.injEq] at h
        obtain ⟨rfl, rfl⟩ := h
        have := ih hr
        simp only [List.length_cons]
        omega

/-- Both parts of an entry are shorter than the entry. -/
theorem length_lt_of_pair? {s key value : List Char} (h : pair? s = some (key, value)) :
    key.length < s.length ∧ value.length < s.length := by
  rw [pair?] at h
  split at h
  · simp at h
  · rename_i before after hp
    simp only [Option.some.injEq, Prod.mk.injEq] at h
    obtain ⟨rfl, rfl⟩ := h
    have := length_colonParts? hp
    have := length_trim_le before
    have := length_trim_le after
    omega

end TableNotation.Literal
