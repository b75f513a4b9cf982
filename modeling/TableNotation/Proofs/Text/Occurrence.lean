import Mathlib.Data.List.Forall2
import TableNotation.Text.Wildcard
/-!
# Patterns that occur in texts

A pattern occurs in a text if some piece of the text can be cut into parts, one for each
character of the pattern, which these characters take in order: `%` takes any characters of one
line, `_` one of them, and every other character takes itself, whatever its case.  There are many
ways to cut a piece, and the table of a search goes through all of them at once: its row for an
end of the text tells for each end of the pattern whether it matches a beginning of that end.
A row follows from the row below it, the text behind the first character.

* `matches_ofPattern_iff`: matching is cutting into parts.
* `isRow_emptyRow`, `isRow_nextRow`, `isRow_search`: the rows of the table.
* `isFound_iff_occurs`: a search finds the patterns that occur.
* `foldCase_eq_iff`: which characters have no other case.
-/

namespace TableNotation.Wildcard

variable {p : List Wildcard} {c : Char} {s : List Char} {row : List Bool}

/-- What a character of a pattern takes. -/
def Takes (c : Char) (part : List Char) : Prop :=
  if c = '%' then '\n' ∉ part
  else if c = '_' then ∃ d, part = [d] ∧ d ≠ '\n'
  else ∃ d, part = [d] ∧ foldCase d = foldCase c

/-- Some piece of the text can be cut into parts that the characters of the pattern take in
order. -/
def Occurs (pattern text : List Char) : Prop :=
  ∃ before parts behind, text = before ++ (parts.flatten ++ behind) ∧
    List.Forall₂ Takes pattern parts

/-! ### Matching -/

/-- The empty pattern matches the empty text. -/
theorem matches_nil_iff : Matches [] s ↔ s = [] := by
  constructor
  · intro h
    cases h
    rfl
  · intro h
    rw [h]
    exact .nil

/-- A run takes a part on one line. -/
theorem matches_run_iff : Matches (.run :: p) s ↔
    ∃ part rest, s = part ++ rest ∧ '\n' ∉ part ∧ Matches p rest := by
  constructor
  · intro h
    induction s with
    | nil =>
      cases h with
      | runEnd h => exact ⟨[], [], rfl, List.not_mem_nil, h⟩
    | cons c s ih =>
      cases h with
      | runEnd h => exact ⟨[], c :: s, rfl, List.not_mem_nil, h⟩
      | runMore hc h =>
        obtain ⟨part, rest, hs, hline, hrest⟩ := ih h
        refine ⟨c :: part, rest, congrArg (c :: ·) hs, ?_, hrest⟩
        exact List.not_mem_cons_of_ne_of_not_mem (Ne.symm hc) hline
  · intro ⟨part, rest, hs, hline, hrest⟩
    rw [hs]
    clear hs
    induction part with
    | nil => exact .runEnd hrest
    | cons c part ih =>
      obtain ⟨hc, hpart⟩ := not_or.1 (mt List.mem_cons.2 hline)
      exact .runMore (Ne.symm hc) (ih hpart)

/-- A single wildcard takes one character that is no line feed. -/
theorem matches_one_iff : Matches (.one :: p) s ↔
    ∃ d rest, s = d :: rest ∧ d ≠ '\n' ∧ Matches p rest := by
  constructor
  · intro h
    cases h with
    | one hd h => exact ⟨_, _, rfl, hd, h⟩
  · intro ⟨d, rest, hs, hd, hrest⟩
    rw [hs]
    exact .one hd hrest

/-- A character takes one character with its folding. -/
theorem matches_folded_iff {x : Char} : Matches (.folded x :: p) s ↔
    ∃ d rest, s = d :: rest ∧ foldCase d = x ∧ Matches p rest := by
  constructor
  · intro h
    cases h with
    | folded h => exact ⟨_, _, rfl, rfl, h⟩
  · intro ⟨d, rest, hs, hd, hrest⟩
    rw [hs, ← hd]
    exact .folded hrest

/-- The first character of a pattern takes a part of the text, and the other ones match what
is left. -/
theorem matches_ofChar_iff : Matches (ofChar c :: p) s ↔
    ∃ part rest, s = part ++ rest ∧ Takes c part ∧ Matches p rest := by
  unfold ofChar Takes
  by_cases hrun : c = '%'
  · simp only [hrun, if_true]
    exact matches_run_iff
  by_cases hone : c = '_'
  · simp only [if_neg hrun, if_pos hone, matches_one_iff]
    constructor
    · intro ⟨d, rest, hs, hd, hrest⟩
      exact ⟨[d], rest, hs, ⟨d, rfl, hd⟩, hrest⟩
    · intro ⟨part, rest, hs, ⟨d, hpart, hd⟩, hrest⟩
      rw [hpart] at hs
      exact ⟨d, rest, hs, hd, hrest⟩
  · simp only [if_neg hrun, if_neg hone, matches_folded_iff]
    constructor
    · intro ⟨d, rest, hs, hd, hrest⟩
      exact ⟨[d], rest, hs, ⟨d, rfl, hd⟩, hrest⟩
    · intro ⟨part, rest, hs, ⟨d, hpart, hd⟩, hrest⟩
      rw [hpart] at hs
      exact ⟨d, rest, hs, hd, hrest⟩

/-- A text matches a pattern if it can be cut into parts for its characters. -/
theorem matches_ofPattern_iff {pattern : List Char} : Matches (ofPattern pattern) s ↔
    ∃ parts, s = parts.flatten ∧ List.Forall₂ Takes pattern parts := by
  induction pattern generalizing s with
  | nil =>
    rw [ofPattern, List.map_nil, matches_nil_iff]
    constructor
    · intro hs
      exact ⟨[], hs, .nil⟩
    · intro ⟨parts, hs, hparts⟩
      cases hparts
      exact hs
  | cons c pattern ih =>
    have hcons : ofPattern (c :: pattern) = ofChar c :: ofPattern pattern := rfl
    rw [hcons, matches_ofChar_iff]
    constructor
    · intro ⟨part, rest, hs, hpart, hrest⟩
      obtain ⟨parts, rfl, hparts⟩ := ih.1 hrest
      exact ⟨part :: parts, hs, .cons hpart hparts⟩
    · intro ⟨parts, hs, hparts⟩
      cases hparts with
      | cons hpart hparts => exact ⟨_, _, hs, hpart, ih.2 ⟨_, rfl, hparts⟩⟩

/-! ### Beginnings -/

/-- Some beginning of the text matches. -/
def Begins (p : List Wildcard) (s : List Char) : Prop :=
  ∃ piece behind, s = piece ++ behind ∧ Matches p piece

/-- Every text begins with the empty pattern. -/
theorem begins_nil (s : List Char) : Begins [] s := ⟨[], s, rfl, .nil⟩

/-- A text begins with a run if it does so with the rest behind a part on one line. -/
theorem begins_run_iff : Begins (.run :: p) s ↔
    ∃ part rest, s = part ++ rest ∧ '\n' ∉ part ∧ Begins p rest := by
  constructor
  · intro ⟨piece, behind, hs, hpiece⟩
    obtain ⟨part, rest, rfl, hline, hrest⟩ := matches_run_iff.1 hpiece
    exact ⟨part, rest ++ behind, by rw [hs, List.append_assoc], hline, rest, behind, rfl, hrest⟩
  · intro ⟨part, rest, hs, hline, piece, behind, hrest, hpiece⟩
    refine ⟨part ++ piece, behind, by rw [hs, hrest, List.append_assoc], ?_⟩
    exact matches_run_iff.2 ⟨part, piece, rfl, hline, hpiece⟩

/-- In the empty text a run takes nothing. -/
theorem begins_run_nil_iff : Begins (.run :: p) [] ↔ Begins p [] := by
  rw [begins_run_iff]
  constructor
  · intro ⟨part, rest, hs, _, hrest⟩
    rwa [(List.append_eq_nil_iff.1 hs.symm).2] at hrest
  · intro h
    exact ⟨[], [], rfl, List.not_mem_nil, h⟩

/-- A run takes no character, or the first one and then goes on as a run. -/
theorem begins_run_cons_iff : Begins (.run :: p) (c :: s) ↔
    Begins p (c :: s) ∨ (c ≠ '\n' ∧ Begins (.run :: p) s) := by
  rw [begins_run_iff, begins_run_iff]
  constructor
  · intro ⟨part, rest, hs, hline, hrest⟩
    cases part with
    | nil =>
      rw [List.nil_append] at hs
      rw [← hs] at hrest
      exact .inl hrest
    | cons d part =>
      obtain ⟨rfl, rfl⟩ := List.cons.inj hs
      obtain ⟨hc, hpart⟩ := not_or.1 (mt List.mem_cons.2 hline)
      exact .inr ⟨Ne.symm hc, part, rest, rfl, hpart, hrest⟩
  · intro h
    rcases h with h | ⟨hc, part, rest, rfl, hline, hrest⟩
    · exact ⟨[], c :: s, rfl, List.not_mem_nil, h⟩
    · refine ⟨c :: part, rest, rfl, ?_, hrest⟩
      exact List.not_mem_cons_of_ne_of_not_mem (Ne.symm hc) hline

/-- A single wildcard needs a character. -/
theorem not_begins_one_nil : ¬ Begins (.one :: p) [] := by
  intro ⟨piece, behind, hs, hpiece⟩
  obtain ⟨d, rest, rfl, _⟩ := matches_one_iff.1 hpiece
  cases hs

/-- It takes the first one. -/
theorem begins_one_cons_iff : Begins (.one :: p) (c :: s) ↔ c ≠ '\n' ∧ Begins p s := by
  constructor
  · intro ⟨piece, behind, hs, hpiece⟩
    obtain ⟨d, rest, rfl, hd, hrest⟩ := matches_one_iff.1 hpiece
    obtain ⟨rfl, rfl⟩ := List.cons.inj hs
    exact ⟨hd, rest, behind, rfl, hrest⟩
  · intro ⟨hc, piece, behind, hs, hpiece⟩
    exact ⟨c :: piece, behind, congrArg (c :: ·) hs, .one hc hpiece⟩

/-- A character of the pattern needs a character. -/
theorem not_begins_folded_nil {x : Char} : ¬ Begins (.folded x :: p) [] := by
  intro ⟨piece, behind, hs, hpiece⟩
  obtain ⟨d, rest, rfl, _⟩ := matches_folded_iff.1 hpiece
  cases hs

/-- It takes the first one if their foldings are the same. -/
theorem begins_folded_cons_iff {x : Char} :
    Begins (.folded x :: p) (c :: s) ↔ foldCase c = x ∧ Begins p s := by
  constructor
  · intro ⟨piece, behind, hs, hpiece⟩
    obtain ⟨d, rest, rfl, hd, hrest⟩ := matches_folded_iff.1 hpiece
    obtain ⟨rfl, rfl⟩ := List.cons.inj hs
    exact ⟨hd, rest, behind, rfl, hrest⟩
  · intro ⟨hc, piece, behind, hs, hpiece⟩
    refine ⟨c :: piece, behind, congrArg (c :: ·) hs, ?_⟩
    rw [← hc]
    exact .folded hpiece

/-! ### The table -/

/-- The row tells for each end of the pattern whether it matches a beginning of the text. -/
def IsRow (p : List Wildcard) (s : List Char) (row : List Bool) : Prop :=
  List.Forall₂ (fun q entry => entry = true ↔ Begins q s) p.tails row

/-- The row of the empty pattern has one entry, which is true. -/
theorem isRow_nil (s : List Char) : IsRow [] s [true] :=
  .cons ⟨fun _ => begins_nil s, fun _ => rfl⟩ .nil

/-- The first entry of a row is about the whole pattern. -/
theorem IsRow.head_iff (h : IsRow p s row) : row.headD false = true ↔ Begins p s := by
  cases p with
  | nil =>
    cases h with
    | cons hentry _ => exact hentry
  | cons w p =>
    cases h with
    | cons hentry _ => exact hentry

/-- The other entries are the row of the rest of the pattern. -/
theorem IsRow.tail {w : Wildcard} (h : IsRow (w :: p) s row) : IsRow p s row.tail := by
  cases h with
  | cons _ hrest => exact hrest

/-- The table starts with the row of the empty text. -/
theorem isRow_emptyRow (p : List Wildcard) : IsRow p [] (emptyRow p) := by
  induction p with
  | nil => exact isRow_nil []
  | cons w p ih =>
    refine .cons ?_ ih
    rw [Bool.and_eq_true, decide_eq_true_iff, ih.head_iff]
    cases w with
    | run => exact ⟨fun h => begins_run_nil_iff.2 h.2, fun h => ⟨rfl, begins_run_nil_iff.1 h⟩⟩
    | one => exact ⟨fun h => (nomatch h.1), fun h => absurd h not_begins_one_nil⟩
    | folded x => exact ⟨fun h => (nomatch h.1), fun h => absurd h not_begins_folded_nil⟩

/-- The row of a text follows from the row of the text behind its first character. -/
theorem isRow_nextRow (c : Char) (h : IsRow p s row) :
    IsRow p (c :: s) (nextRow c (foldCase c) p row) := by
  induction p generalizing row with
  | nil => exact isRow_nil (c :: s)
  | cons w p ih =>
    have hrest := ih h.tail
    refine .cons ?_ hrest
    cases w with
    | run =>
      rw [begins_run_cons_iff, ← hrest.head_iff, ← h.head_iff]
      simp
    | one =>
      rw [begins_one_cons_iff, ← h.tail.head_iff]
      simp
    | folded x =>
      rw [begins_folded_cons_iff, ← h.tail.head_iff]
      simp

/-- Every row that a search makes is the row of its end of the text. -/
theorem isRow_search (p : List Wildcard) (s : List Char) : IsRow p s (search p s).1 := by
  induction s with
  | nil => exact isRow_emptyRow p
  | cons c s ih => exact isRow_nextRow c ih

/-- A search finds a pattern that some end of the text begins with. -/
theorem isFound_iff_begins (p : List Wildcard) (s : List Char) :
    isFound p s = true ↔ ∃ before rest, s = before ++ rest ∧ Begins p rest := by
  induction s with
  | nil =>
    have hrow : isFound p [] = true ↔ Begins p [] := (isRow_emptyRow p).head_iff
    rw [hrow]
    constructor
    · intro h
      exact ⟨[], [], rfl, h⟩
    · intro ⟨before, rest, hs, h⟩
      rwa [(List.append_eq_nil_iff.1 hs.symm).2] at h
  | cons c s ih =>
    have hstep : isFound p (c :: s) = (isFound p s || (search p (c :: s)).1.headD false) := rfl
    rw [hstep, Bool.or_eq_true, ih, (isRow_search p (c :: s)).head_iff]
    constructor
    · intro h
      rcases h with ⟨before, rest, hs, h⟩ | h
      · exact ⟨c :: before, rest, congrArg (c :: ·) hs, h⟩
      · exact ⟨[], c :: s, rfl, h⟩
    · intro ⟨before, rest, hs, h⟩
      cases before with
      | nil =>
        rw [List.nil_append] at hs
        rw [← hs] at h
        exact .inr h
      | cons d before =>
        obtain ⟨rfl, rfl⟩ := List.cons.inj hs
        exact .inl ⟨before, rest, rfl, h⟩

/-- A search finds exactly the patterns that occur. -/
theorem isFound_iff_occurs {pattern text : List Char} :
    isFound (ofPattern pattern) text = true ↔ Occurs pattern text := by
  rw [isFound_iff_begins]
  constructor
  · intro ⟨before, rest, htext, piece, behind, hrest, hpiece⟩
    obtain ⟨parts, rfl, hparts⟩ := matches_ofPattern_iff.1 hpiece
    exact ⟨before, parts, behind, by rw [htext, hrest], hparts⟩
  · intro ⟨before, parts, behind, htext, hparts⟩
    refine ⟨before, parts.flatten ++ behind, htext, parts.flatten, behind, rfl, ?_⟩
    exact matches_ofPattern_iff.2 ⟨parts, rfl, hparts⟩

/-! ### Characters without another case -/

/-- A character that is folded to another one lies in a run of the table, and its folding as far
behind the target of the run. -/
theorem foldCase_cases (d : Char) : foldCase d = d ∨ ∃ run ∈ caseFoldings,
    run.1 ≤ d.toNat ∧ d.toNat ≤ run.2.1 ∧
      (foldCase d).toNat = run.2.2.2 + (d.toNat - run.1) := by
  have hvalid : ∀ run ∈ caseFoldings, run.2.2.2 + (run.2.1 - run.1) < 0xD800 ∨
      (0xDFFF < run.2.2.2 ∧ run.2.2.2 + (run.2.1 - run.1) < 0x110000) := by decide +kernel
  unfold foldCase
  cases hfound : caseFoldings.find? fun run =>
      run.1 ≤ d.toNat && d.toNat ≤ run.2.1 && (d.toNat - run.1) % run.2.2.1 = 0 with
  | none => exact .inl (by simp only [hfound])
  | some run =>
    obtain ⟨first, last, step, target⟩ := run
    have hmem := List.mem_of_find?_eq_some hfound
    have hrange := List.find?_some hfound
    simp only [Bool.and_eq_true, decide_eq_true_eq] at hrange
    have hplace : target + (last - first) < 0xD800 ∨
        (0xDFFF < target ∧ target + (last - first) < 0x110000) := hvalid _ hmem
    have hchar : (target + (d.toNat - first)).isValidChar := by
      simp only [Nat.isValidChar]
      omega
    have hfolding : Char.ofNat (target + (d.toNat - first))
        = Char.ofNatAux (target + (d.toNat - first)) hchar := dif_pos hchar
    refine .inr ⟨_, hmem, hrange.1.1, hrange.1.2, ?_⟩
    simp only [hfound]
    rw [hfolding]
    rfl

/-- In ASCII only capital letters are folded, and characters are only folded to small letters. -/
theorem caseFoldings_ascii : ∀ run ∈ caseFoldings,
    (65 ≤ run.1 ∧ run.2.1 ≤ 90 ∨ 128 ≤ run.1) ∧
      (97 ≤ run.2.2.2 ∧ run.2.2.2 + (run.2.1 - run.1) ≤ 122 ∨ 128 ≤ run.2.2.2) := by
  decide +kernel

/-- The letters of ASCII stand in two runs. -/
theorem not_letter_of_isAlpha_eq_false {c : Char} (h : c.isAlpha = false) :
    ¬ (65 ≤ c.toNat ∧ c.toNat ≤ 90) ∧ ¬ (97 ≤ c.toNat ∧ c.toNat ≤ 122) := by
  obtain ⟨hupper, hlower⟩ := Bool.or_eq_false_iff.1 h
  constructor
  · exact of_decide_eq_false hupper
  · intro ⟨hfirst, hlast⟩
    have hletter : c.isLower = true :=
      Bool.and_eq_true_iff.2 ⟨decide_eq_true hfirst, decide_eq_true hlast⟩
    exact Bool.false_ne_true (hlower.symm.trans hletter)

/-- A character of ASCII that is no letter has no other case. -/
theorem foldCase_eq_iff {c d : Char} (hc : c.toNat < 128) (hletter : c.isAlpha = false) :
    foldCase d = foldCase c ↔ d = c := by
  obtain ⟨hupper, hlower⟩ := not_letter_of_isAlpha_eq_false hletter
  have hself : foldCase c = c := by
    rcases foldCase_cases c with h | ⟨run, hrun, hfirst, hlast, _⟩
    · exact h
    · have hascii := (caseFoldings_ascii run hrun).1
      omega
  rw [hself]
  constructor
  · intro hd
    rcases foldCase_cases d with h | ⟨run, hrun, hfirst, hlast, hfolding⟩
    · rw [← h, hd]
    · have hascii := (caseFoldings_ascii run hrun).2
      rw [hd] at hfolding
      omega
  · intro hd
    rw [hd, hself]

/-- So it takes only itself, unless it is a wildcard. -/
theorem takes_iff_of_not_letter (hc : c.toNat < 128) (hletter : c.isAlpha = false)
    (hrun : c ≠ '%') (hone : c ≠ '_') {part : List Char} : Takes c part ↔ part = [c] := by
  rw [Takes, if_neg hrun, if_neg hone]
  constructor
  · intro ⟨d, hpart, hd⟩
    rw [hpart, (foldCase_eq_iff hc hletter).1 hd]
  · intro hpart
    exact ⟨c, hpart, rfl⟩

end TableNotation.Wildcard
