import TableNotation.Literal.Basic
import TableNotation.Proofs.Text.Lines
import TableNotation.Proofs.Text.Trimming
/-!
# Texts that no separator cuts

A line of literals is cut at its commas by a walk over its characters that keeps
track of quotes and brackets.  A text is *uncut* between two positions if the walk
leads from the one to the other and finds no comma to cut at.  Uncut texts compose,
which reduces every literal to its characters:

* `uncut_append_iff`: a text is uncut if its two parts are;
* `uncut_quote`, `Uncut.bracketed`: so is what stands in quotes or brackets;
* `ArePieces.pieces_joined`: uncut texts with commas between them are cut into these texts
  again, if each but the last ends outside quotes and brackets;
* `ArePieces.slots_joined`, `slots_commaList`: so are tight ones, empty ones included, with
  commas and blanks between them.

Entries are cut at their first colon by a like walk, for which `Uncoloned` plays
the part of `Uncut`; `pair?_entry` takes an entry apart.
-/

namespace TableNotation.Literal

namespace Position

/-- The position behind a text. -/
def after (p : Position) (s : List Char) : Position := s.foldl next p

/-- Outside quotes, inside so many brackets. -/
def atDepth (depth : Nat) : Position := ⟨.outside, depth⟩

/-- Outside quotes and brackets there is one position only. -/
theorem eq_start_of_isTop {p : Position} (h : p.isTop = true) : p = start := by
  obtain ⟨quoting, depth⟩ := p
  simp only [isTop, Bool.and_eq_true, decide_eq_true_eq] at h
  rw [h.1, h.2]
  rfl

end Position

/-- Between the positions `p` and `q` the text is one piece. -/
def Uncut (p : Position) (s : List Char) (q : Position) : Prop :=
  pieces p s = [s] ∧ p.after s = q

/-- Pieces of a text that stands behind another one, which belongs to the first of
them. -/
def extendFirst (s : List Char) : List (List Char) → List (List Char)
  | [] => [s]
  | piece :: more => (s ++ piece) :: more

theorem pieces_ne_nil (p : Position) (s : List Char) : pieces p s ≠ [] := by
  cases s with
  | nil => exact List.cons_ne_nil _ _
  | cons c rest =>
    rw [pieces]
    split
    · exact List.cons_ne_nil _ _
    · split
      · exact List.cons_ne_nil _ _
      · exact List.cons_ne_nil _ _

/-- A character at which nothing is cut belongs to the first piece of what follows it. -/
theorem pieces_of_not_cut {p : Position} {c : Char} (h : ¬ (c = ',' ∧ p.isTop = true))
    (rest : List Char) : pieces p (c :: rest) = extendFirst [c] (pieces (p.next c) rest) := by
  rw [pieces, if_neg h]
  cases pieces (p.next c) rest with
  | nil => rfl
  | cons piece more => rfl

theorem uncut_nil (p : Position) : Uncut p [] p := ⟨rfl, rfl⟩

/-- A text is uncut if nothing is cut at its first character and the rest is uncut. -/
theorem uncut_cons_iff {p q : Position} {c : Char} {rest : List Char} :
    Uncut p (c :: rest) q ↔ ¬ (c = ',' ∧ p.isTop = true) ∧ Uncut (p.next c) rest q := by
  by_cases hcut : c = ',' ∧ p.isTop = true
  · constructor
    · intro h
      -- a cut would leave an empty first piece
      have hpieces := h.1
      rw [pieces, if_pos hcut, List.cons.injEq] at hpieces
      exact absurd hpieces.1 (by simp)
    · intro h
      exact absurd hcut h.1
  · obtain ⟨piece, more, hrest⟩ := List.exists_cons_of_ne_nil (pieces_ne_nil (p.next c) rest)
    have hpieces : pieces p (c :: rest) = (c :: piece) :: more := by
      rw [pieces_of_not_cut hcut, hrest]
      rfl
    have hafter : p.after (c :: rest) = (p.next c).after rest := rfl
    unfold Uncut
    rw [hpieces, hrest, hafter]
    simp [hcut]

/-- A text is uncut if its two parts are. -/
theorem uncut_append_iff {p q : Position} {s t : List Char} :
    Uncut p (s ++ t) q ↔ Uncut p s (p.after s) ∧ Uncut (p.after s) t q := by
  induction s generalizing p with
  | nil =>
    have hafter : p.after [] = p := rfl
    rw [List.nil_append, hafter]
    exact ⟨fun h => ⟨uncut_nil p, h⟩, fun h => h.2⟩
  | cons c rest ih =>
    have hafter : p.after (c :: rest) = (p.next c).after rest := rfl
    rw [List.cons_append, uncut_cons_iff, ih, hafter, uncut_cons_iff, and_assoc]

/-- Uncut texts compose. -/
theorem Uncut.append {p q r : Position} {s t : List Char} (hs : Uncut p s q)
    (ht : Uncut q t r) : Uncut p (s ++ t) r := by
  obtain ⟨hpieces, rfl⟩ := hs
  exact uncut_append_iff.2 ⟨⟨hpieces, rfl⟩, ht⟩

/-- An uncut text belongs to the first piece of what follows it. -/
theorem Uncut.pieces_append {p q : Position} {s : List Char} (h : Uncut p s q)
    (t : List Char) : pieces p (s ++ t) = extendFirst s (pieces q t) := by
  induction s generalizing p with
  | nil =>
    obtain ⟨_, rfl⟩ := h
    have hafter : p.after [] = p := rfl
    obtain ⟨piece, more, ht⟩ := List.exists_cons_of_ne_nil (pieces_ne_nil p t)
    rw [List.nil_append, hafter, ht]
    rfl
  | cons c rest ih =>
    obtain ⟨hcut, hrest⟩ := uncut_cons_iff.1 h
    obtain ⟨piece, more, ht⟩ := List.exists_cons_of_ne_nil (pieces_ne_nil q t)
    rw [List.cons_append, pieces_of_not_cut hcut, ih hrest, ht]
    rfl

/-- A character that is no comma, or a comma in quotes or brackets, cuts nothing. -/
theorem uncut_char {p : Position} {c : Char} (h : ¬ (c = ',' ∧ p.isTop = true)) :
    Uncut p [c] (p.next c) := uncut_cons_iff.2 ⟨h, uncut_nil _⟩

/-- Whether a character has no part in the cutting of lines and entries. -/
def isPlain (c : Char) : Bool :=
  !([',', '"', '[', ']', '\x7b', '\x7d', ':'].contains c)

theorem isPlain_of_forall_not {p : Char → Bool} {c : Char} (hc : p c = true)
    (hmarks : [',', '"', '[', ']', '\x7b', '\x7d', ':'].all (fun mark => !p mark) = true) :
    isPlain c = true := by
  rw [isPlain, Bool.not_eq_true', ← Bool.not_eq_true, List.contains_iff_mem]
  intro hmem
  have hnot := List.all_eq_true.1 hmarks c hmem
  rw [hc] at hnot
  exact Bool.noConfusion hnot

theorem uncut_plainChar {c : Char} (h : isPlain c = true) (depth : Nat) :
    Uncut (.atDepth depth) [c] (.atDepth depth) := by
  simp only [isPlain, List.contains_cons, List.contains_nil, Bool.or_false, Bool.not_eq_true',
    Bool.or_eq_false_iff, beq_eq_false_iff_ne, ne_eq] at h
  obtain ⟨hcomma, hquote, hopen, hclose, hopen', hclose', _⟩ := h
  have hnext : (Position.atDepth depth).next c = Position.atDepth depth := by
    simp [Position.atDepth, Position.next, Quoting.next, Position.nextDepth, hquote, hopen,
      hclose, hopen', hclose']
  have hcut := uncut_char (p := .atDepth depth) (c := c) fun hc => hcomma hc.1
  rw [hnext] at hcut
  exact hcut

/-- A text of plain characters is uncut. -/
theorem uncut_plain {s : List Char} (h : ∀ c ∈ s, isPlain c = true) (depth : Nat) :
    Uncut (.atDepth depth) s (.atDepth depth) := by
  induction s with
  | nil => exact uncut_nil _
  | cons c rest ih =>
    obtain ⟨hc, hrest⟩ := List.forall_mem_cons.1 h
    exact (uncut_plainChar hc depth).append (ih hrest)

theorem isPlain_of_isBlank {c : Char} (h : isBlank c = true) : isPlain c = true :=
  isPlain_of_forall_not h (by decide)

theorem uncut_blanks {blanks : List Char} (h : ∀ c ∈ blanks, isBlank c = true) :
    Uncut .start blanks .start := uncut_plain (fun c hc => isPlain_of_isBlank (h c hc)) 0

/-- The two characters of an escape, or any other one, stay inside the quotes. -/
theorem uncut_escapeChar (c : Char) (depth : Nat) :
    Uncut ⟨.inside, depth⟩ (escapeChar c) ⟨.inside, depth⟩ := by
  have hescaped : ∀ d, Uncut ⟨.inside, depth⟩ ['\\', d] ⟨.inside, depth⟩ := by
    intro d
    have hfirst : Uncut ⟨.inside, depth⟩ ['\\'] ⟨.escaped, depth⟩ :=
      uncut_char (by simp [Position.isTop])
    have hsecond : Uncut ⟨.escaped, depth⟩ [d] ⟨.inside, depth⟩ :=
      uncut_char (by simp [Position.isTop])
    exact hfirst.append hsecond
  unfold escapeChar
  split
  · exact hescaped _
  · exact hescaped _
  · exact hescaped _
  · exact hescaped _
  · rename_i hback hquote _ _
    have hnext : Position.next ⟨.inside, depth⟩ c = ⟨.inside, depth⟩ := by
      have hback' : c ≠ '\\' := hback
      have hquote' : c ≠ '"' := hquote
      simp [Position.next, Quoting.next, hback', hquote']
    have hcut := uncut_char (p := ⟨.inside, depth⟩) (c := c) (by simp [Position.isTop])
    rw [hnext] at hcut
    exact hcut

theorem uncut_escape (s : List Char) (depth : Nat) :
    Uncut ⟨.inside, depth⟩ (escape s) ⟨.inside, depth⟩ := by
  induction s with
  | nil => exact uncut_nil _
  | cons c rest ih => exact (uncut_escapeChar c depth).append ih

/-- A quoted text is uncut. -/
theorem uncut_quote (s : List Char) (depth : Nat) :
    Uncut (.atDepth depth) (quote s) (.atDepth depth) := by
  have hopen : Uncut (.atDepth depth) ['"'] ⟨.inside, depth⟩ := uncut_char (by simp)
  have hclose : Uncut ⟨.inside, depth⟩ ['"'] (.atDepth depth) := uncut_char (by simp)
  exact hopen.append ((uncut_escape s depth).append hclose)

/-- What is uncut inside brackets is uncut with the brackets around it. -/
theorem Uncut.bracketed {s : List Char} {depth : Nat} {left right : Char}
    (hbrackets : (left = '[' ∧ right = ']') ∨ (left = '\x7b' ∧ right = '\x7d'))
    (h : Uncut (.atDepth (depth + 1)) s (.atDepth (depth + 1))) :
    Uncut (.atDepth depth) (left :: (s ++ [right])) (.atDepth depth) := by
  have hopen : Uncut (.atDepth depth) [left] (.atDepth (depth + 1)) := by
    rcases hbrackets with ⟨rfl, _⟩ | ⟨rfl, _⟩
    · exact uncut_char (by simp)
    · exact uncut_char (by simp)
  have hclose : Uncut (.atDepth (depth + 1)) [right] (.atDepth depth) := by
    rcases hbrackets with ⟨_, rfl⟩ | ⟨_, rfl⟩
    · exact uncut_char (by simp)
    · exact uncut_char (by simp)
  exact hopen.append (h.append hclose)

/-- Inside brackets the commas between texts cut nothing either. -/
theorem uncut_commaList {parts : List (List Char)} {depth : Nat}
    (h : ∀ part ∈ parts, Uncut (.atDepth (depth + 1)) part (.atDepth (depth + 1))) :
    Uncut (.atDepth (depth + 1)) (commaList parts) (.atDepth (depth + 1)) := by
  have hcomma : Uncut (.atDepth (depth + 1)) [',', ' '] (.atDepth (depth + 1)) := by
    have hfirst : Uncut (.atDepth (depth + 1)) [','] (.atDepth (depth + 1)) :=
      uncut_char (by simp [Position.isTop, Position.atDepth])
    exact hfirst.append (uncut_plainChar (by decide) _)
  induction parts with
  | nil => exact uncut_nil _
  | cons part more ih =>
    obtain ⟨hpart, hmore⟩ := List.forall_mem_cons.1 h
    cases more with
    | nil => exact hpart
    | cons next others => exact hpart.append (hcomma.append (ih hmore))

/-! ### Pieces with commas between them -/

/-- Uncut texts one after the other, of which each but the last leads back to the start of a
line. -/
inductive ArePieces : Position → List (List Char) → Prop
  | last {p q : Position} {piece : List Char} (h : Uncut p piece q) : ArePieces p [piece]
  | cons {p : Position} {piece : List Char} {more : List (List Char)}
      (h : Uncut p piece .start) (hmore : ArePieces .start more) : ArePieces p (piece :: more)

namespace ArePieces

variable {p : Position} {parts : List (List Char)}

theorem ne_nil (h : ArePieces p parts) : parts ≠ [] := by
  cases h with
  | last _ => exact List.cons_ne_nil _ _
  | cons _ _ => exact List.cons_ne_nil _ _

/-- Pieces with commas between them are cut into these pieces again. -/
theorem pieces_joined (h : ArePieces p parts) : pieces p (Text.joined [','] parts) = parts := by
  induction h with
  | last hpiece => exact hpiece.1
  | @cons p piece more hpiece hmore ih =>
    have hcomma : pieces .start (',' :: Text.joined [','] more) = [] :: more := by
      rw [pieces, if_pos ⟨rfl, rfl⟩, ih]
    rw [Text.joined_cons _ _ hmore.ne_nil, hpiece.pieces_append, List.singleton_append, hcomma,
      extendFirst, List.append_nil]

/-- Texts that all lead back to the start of a line are pieces. -/
theorem of_forall (hne : parts ≠ []) (h : ∀ part ∈ parts, Uncut .start part .start) :
    ArePieces .start parts := by
  induction parts with
  | nil => exact absurd rfl hne
  | cons part more ih =>
    obtain ⟨hpart, hmore⟩ := List.forall_mem_cons.1 h
    by_cases hnil : more = []
    · rw [hnil]
      exact .last hpart
    · exact .cons hpart (ih hnil hmore)

/-- A map that keeps texts uncut, and keeps them leading back to the start of a line, keeps
pieces. -/
theorem map {f : List Char → List Char} (hf : ∀ piece q, Uncut .start piece q →
      ∃ r, Uncut .start (f piece) r ∧ (q = .start → r = .start))
    (h : ArePieces .start parts) : ArePieces .start (parts.map f) := by
  generalize hp : Position.start = p at h
  induction h with
  | last hpiece =>
    subst hp
    obtain ⟨_, hnew, _⟩ := hf _ _ hpiece
    exact .last hnew
  | cons hpiece _ ih =>
    subst hp
    obtain ⟨_, hnew, hstart⟩ := hf _ _ hpiece
    rw [hstart rfl] at hnew
    exact .cons hnew (ih rfl)

/-- Blanks behind the commas leave pieces. -/
theorem blanks {blanks piece : List Char} (hblanks : ∀ c ∈ blanks, isBlank c = true)
    (h : ArePieces .start (piece :: parts)) :
    ArePieces .start (piece :: parts.map (blanks ++ ·)) := by
  cases h with
  | last hpiece => exact .last hpiece
  | cons hpiece hmore =>
    have hmap := hmore.map fun _ q hnext => ⟨q, (uncut_blanks hblanks).append hnext, id⟩
    exact .cons hpiece hmap

end ArePieces

theorem joined_extendFirst (s : List Char) {parts : List (List Char)} (hne : parts ≠ []) :
    Text.joined [','] (extendFirst s parts) = s ++ Text.joined [','] parts := by
  obtain ⟨piece, more, rfl⟩ := List.exists_cons_of_ne_nil hne
  cases more with
  | nil => rfl
  | cons next others => exact List.append_assoc _ _ _

/-- Each comma leaves the blanks behind it to the next piece. -/
theorem joined_blanks (blanks part : List Char) (more : List (List Char)) :
    Text.joined (',' :: blanks) (part :: more)
      = Text.joined [','] (part :: more.map (blanks ++ ·)) := by
  induction more generalizing part with
  | nil => rfl
  | cons next others ih =>
    have hrest : Text.joined [','] ((next :: others).map (blanks ++ ·))
        = blanks ++ Text.joined (',' :: blanks) (next :: others) := by
      rw [ih next, ← joined_extendFirst blanks (List.cons_ne_nil next (others.map (blanks ++ ·)))]
      rfl
    rw [List.map_cons] at hrest
    rw [List.map_cons, Text.joined_cons _ _ (List.cons_ne_nil _ _),
      Text.joined_cons _ _ (List.cons_ne_nil _ _), hrest]
    rfl

/-- Tight texts with commas between them are not blank, unless there is no text or only the empty
one. -/
theorem isBlankText_joined (blanks : List Char) {parts : List (List Char)}
    (h : ∀ part ∈ parts, Text.IsTight part) (hne : parts ≠ []) (hne' : parts ≠ [[]]) :
    Text.isBlankText (Text.joined (',' :: blanks) parts) = false := by
  cases parts with
  | nil => exact absurd rfl hne
  | cons part more =>
    cases more with
    | nil =>
      have hpart : part ≠ [] := by
        intro hnil
        exact hne' (by rw [hnil])
      exact Text.isBlankText_eq_false (h part List.mem_cons_self) hpart
    | cons next others =>
      have hcomma : isBlank ',' = false := by decide
      simp [Text.joined, Text.isBlankText, hcomma]

/-- Tight pieces with commas between them, and perhaps blanks behind the commas, are cut into
these slots again.  Only the list of one empty text looks like the empty list. -/
theorem ArePieces.slots_joined {blanks : List Char} (hblanks : ∀ c ∈ blanks, isBlank c = true)
    {parts : List (List Char)} (h : ArePieces .start parts)
    (htight : ∀ part ∈ parts, Text.IsTight part) (hne : parts ≠ [[]]) :
    slots (Text.joined (',' :: blanks) parts) = parts := by
  have hfilled := isBlankText_joined blanks htight h.ne_nil hne
  obtain ⟨part, more, rfl⟩ := List.exists_cons_of_ne_nil h.ne_nil
  obtain ⟨hpart, hmore⟩ := List.forall_mem_cons.1 htight
  have hpieces : pieces .start (Text.joined (',' :: blanks) (part :: more))
      = part :: more.map (blanks ++ ·) := by
    rw [joined_blanks]
    exact (h.blanks hblanks).pieces_joined
  have htrim : ∀ s ∈ more, (Text.trim ∘ (blanks ++ ·)) s = s := by
    intro s hs
    rw [Function.comp, Text.trim_blank_append hblanks, Text.trim_eq_self (hmore s hs)]
  rw [slots, hfilled, if_neg Bool.false_ne_true, hpieces, List.map_cons, List.map_map,
    List.map_congr_left htrim, List.map_id', Text.trim_eq_self hpart]

/-- A list of uncut, tight texts is cut into these texts again. -/
theorem slots_commaList {parts : List (List Char)}
    (h : ∀ part ∈ parts, Uncut .start part .start ∧ Text.IsTight part) (hne : parts ≠ [[]]) :
    slots (commaList parts) = parts := by
  by_cases hnil : parts = []
  · rw [hnil]
    rfl
  · have hpieces := ArePieces.of_forall hnil fun part hp => (h part hp).1
    have hblank : ∀ c ∈ [' '], isBlank c = true := List.forall_mem_singleton.2 (by decide)
    exact hpieces.slots_joined hblank (fun part hp => (h part hp).2) hne

/-- Between two states of quoting the text has no colon to cut at. -/
def Uncoloned (q : Quoting) (s : List Char) (r : Quoting) : Prop :=
  ∀ t, colonParts? q (s ++ t) = (colonParts? r t).map fun parts => (s ++ parts.1, parts.2)

theorem uncoloned_nil (q : Quoting) : Uncoloned q [] q := by
  intro t
  cases h : colonParts? q t <;> simp [h]

theorem Uncoloned.append {q r u : Quoting} {s t : List Char} (hs : Uncoloned q s r)
    (ht : Uncoloned r t u) : Uncoloned q (s ++ t) u := by
  intro rest
  rw [List.append_assoc, hs, ht]
  cases colonParts? u rest <;> simp

/-- A character that is no colon, or a colon in quotes, cuts nothing. -/
theorem uncoloned_char {q : Quoting} {c : Char} (h : ¬ (c = ':' ∧ q = .outside)) :
    Uncoloned q [c] (q.next c) := by
  intro t
  rw [List.singleton_append, colonParts?, if_neg h]
  cases colonParts? (q.next c) t <;> rfl

theorem uncoloned_plainChar {c : Char} (h : isPlain c = true) :
    Uncoloned .outside [c] .outside := by
  simp only [isPlain, List.contains_cons, List.contains_nil, Bool.or_false, Bool.not_eq_true',
    Bool.or_eq_false_iff, beq_eq_false_iff_ne, ne_eq] at h
  obtain ⟨_, hquote, _, _, _, _, hcolon⟩ := h
  have hnext : Quoting.next .outside c = .outside := by simp [Quoting.next, hquote]
  have hchar := uncoloned_char (q := .outside) (c := c) fun hc => hcolon hc.1
  rw [hnext] at hchar
  exact hchar

/-- A text of plain characters has no colon. -/
theorem uncoloned_plain {s : List Char} (h : ∀ c ∈ s, isPlain c = true) :
    Uncoloned .outside s .outside := by
  induction s with
  | nil => exact uncoloned_nil _
  | cons c rest ih =>
    obtain ⟨hc, hrest⟩ := List.forall_mem_cons.1 h
    exact (uncoloned_plainChar hc).append (ih hrest)

theorem uncoloned_escapeChar (c : Char) : Uncoloned .inside (escapeChar c) .inside := by
  have hescaped : ∀ d, Uncoloned .inside ['\\', d] .inside := by
    intro d
    have hfirst : Uncoloned .inside ['\\'] .escaped := uncoloned_char (by simp)
    have hsecond : Uncoloned .escaped [d] .inside := uncoloned_char (by simp)
    exact hfirst.append hsecond
  unfold escapeChar
  split
  · exact hescaped _
  · exact hescaped _
  · exact hescaped _
  · exact hescaped _
  · rename_i hback hquote _ _
    have hnext : Quoting.next .inside c = .inside := by
      have hback' : c ≠ '\\' := hback
      have hquote' : c ≠ '"' := hquote
      simp [Quoting.next, hback', hquote']
    have hchar := uncoloned_char (q := .inside) (c := c) (by simp)
    rw [hnext] at hchar
    exact hchar

/-- A quoted text has no colon outside its quotes. -/
theorem uncoloned_quote (s : List Char) : Uncoloned .outside (quote s) .outside := by
  have hopen : Uncoloned .outside ['"'] .inside := uncoloned_char (by simp)
  have hclose : Uncoloned .inside ['"'] .outside := uncoloned_char (by simp)
  have hinside : Uncoloned .inside (escape s) .inside := by
    induction s with
    | nil => exact uncoloned_nil _
    | cons c rest ih => exact (uncoloned_escapeChar c).append ih
  exact hopen.append (hinside.append hclose)

/-- An entry is cut at the colon behind its name. -/
theorem pair?_entry {name : List Char} (hname : Uncoloned .outside name .outside)
    (value : List Char) :
    pair? (name ++ ':' :: value) = some (Text.trim name, Text.trim value) := by
  have hcolon : colonParts? .outside (':' :: value) = some ([], value) := by
    rw [colonParts?, if_pos ⟨rfl, rfl⟩]
  rw [pair?, hname, hcolon]
  simp

end TableNotation.Literal
