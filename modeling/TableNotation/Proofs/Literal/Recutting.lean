import TableNotation.Proofs.Literal.Shape
/-!
# Lines cut again

Any text can be cut into slots, also one whose brackets do not match, whose last quote is never
closed or which ends with a backslash.  It is cut only outside quotes and brackets, so whatever
stands between two cuts leads from the start of a line to the start of a line, and so do the slots,
because blanks change nothing there.  Hence nothing but blanks is lost, and what was cut once is not
cut otherwise a second time.

* `joined_pieces`, `arePieces_pieces`: the pieces of a text, as they stand, are the text with cuts
  in it.
* `ArePieces.map_trim`: they may be trimmed.
* `slots_of_mem_slots`, `slots_joined_slots`: slots cut again, each alone and all together.
* `slots_cut_again`: both, and what the writer of a line puts into its slots.
-/

namespace TableNotation.Literal

/-- The pieces of a text with commas between them are the text. -/
theorem joined_pieces (p : Position) (s : List Char) : Text.joined [','] (pieces p s) = s := by
  induction s generalizing p with
  | nil => rfl
  | cons c rest ih =>
    by_cases hcut : c = ',' ∧ p.isTop = true
    · rw [pieces, if_pos hcut, Text.joined_cons _ _ (pieces_ne_nil p rest), ih, hcut.1]
      rfl
    · rw [pieces_of_not_cut hcut, joined_extendFirst [c] (pieces_ne_nil _ rest), ih]
      rfl

/-- A character at which nothing is cut may stand in front of the first piece. -/
theorem ArePieces.extendFirst {p : Position} {c : Char} (hcut : ¬ (c = ',' ∧ p.isTop = true))
    {parts : List (List Char)} (h : ArePieces (p.next c) parts) :
    ArePieces p (Literal.extendFirst [c] parts) := by
  cases h with
  | last hpiece => exact .last (uncut_cons_iff.2 ⟨hcut, hpiece⟩)
  | cons hpiece hmore => exact .cons (uncut_cons_iff.2 ⟨hcut, hpiece⟩) hmore

/-- Whatever a text is, each of its pieces is uncut, and each but the last leads back to the start
of a line. -/
theorem arePieces_pieces (p : Position) (s : List Char) : ArePieces p (pieces p s) := by
  induction s generalizing p with
  | nil => exact .last (uncut_nil p)
  | cons c rest ih =>
    by_cases hcut : c = ',' ∧ p.isTop = true
    · obtain rfl := Position.eq_start_of_isTop hcut.2
      rw [pieces, if_pos hcut]
      exact .cons (uncut_nil _) (ih _)
    · rw [pieces_of_not_cut hcut]
      exact (ih _).extendFirst hcut

/-! ### Blanks around pieces -/

/-- A blank leads to the start of a line from there only: outside quotes it changes nothing, and
inside quotes it leads inside. -/
theorem eq_start_of_next_blank {p : Position} {c : Char} (hc : isBlank c = true)
    (h : p.next c = .start) : p = .start := by
  obtain ⟨quoting, depth⟩ := p
  have houtside := congrArg Position.quoting h
  cases quoting with
  | outside =>
    have hnext : Position.next (.atDepth depth) c = .atDepth depth :=
      (uncut_plainChar (isPlain_of_isBlank hc) depth).2
    exact hnext.symm.trans h
  | inside =>
    have hquote : c ≠ '"' := by
      intro heq
      subst heq
      exact absurd hc (by decide)
    by_cases hslash : c = '\\' <;>
      simp [Position.next, Quoting.next, hslash, hquote, Position.start] at houtside
  | escaped => simp [Position.next, Quoting.next, Position.start] at houtside

theorem eq_start_of_after_blanks {p : Position} {blanks : List Char}
    (hblanks : ∀ c ∈ blanks, isBlank c = true) (h : p.after blanks = .start) : p = .start := by
  induction blanks generalizing p with
  | nil => exact h
  | cons c rest ih =>
    obtain ⟨hc, hrest⟩ := List.forall_mem_cons.1 hblanks
    exact eq_start_of_next_blank hc (ih hrest h)

/-- An uncut text stays uncut without the blanks around it, and where it led back to the start of a
line it still does. -/
theorem Uncut.trim {s : List Char} {q : Position} (h : Uncut .start s q) :
    ∃ r, Uncut .start (Text.trim s) r ∧ (q = .start → r = .start) := by
  obtain ⟨front, back, hfront, hback, hs⟩ := Text.exists_blanks_trim s
  have hrest : Uncut .start (Text.trim s ++ back) q := by
    rw [hs, uncut_append_iff, (uncut_blanks hfront).2] at h
    exact h.2
  obtain ⟨htrim, hend⟩ := uncut_append_iff.1 hrest
  refine ⟨_, htrim, fun hq => ?_⟩
  subst hq
  exact eq_start_of_after_blanks hback hend.2

variable {parts : List (List Char)}

/-- Pieces stay pieces without the blanks around them. -/
theorem ArePieces.map_trim (h : ArePieces .start parts) :
    ArePieces .start (parts.map Text.trim) := h.map fun _ _ hpiece => hpiece.trim

/-- Each of the pieces is uncut. -/
theorem ArePieces.exists_uncut_of_mem (h : ArePieces .start parts) {part : List Char}
    (hpart : part ∈ parts) : ∃ q, Uncut .start part q := by
  generalize hp : Position.start = p at h
  induction h with
  | last hpiece =>
    rw [List.mem_singleton.1 hpart]
    exact ⟨_, hpiece⟩
  | cons hpiece _ ih =>
    subst hp
    rcases List.mem_cons.1 hpart with hpart | hpart
    · rw [hpart]
      exact ⟨_, hpiece⟩
    · exact ih hpart rfl

/-! ### Slots -/

/-- A tight text that is not empty and that nothing cuts is its only slot. -/
theorem slots_of_uncut {s : List Char} {q : Position} (h : Uncut .start s q)
    (htight : Text.IsTight s) (hne : s ≠ []) : slots s = [s] := by
  have hsingle : ∀ part ∈ [s], Text.IsTight part := by
    intro part hpart
    rw [List.mem_singleton.1 hpart]
    exact htight
  exact (ArePieces.last h).slots_joined (List.forall_mem_nil _) hsingle (by simpa using hne)

variable {s : List Char}

theorem slots_eq_map_trim (h : Text.isBlankText s = false) :
    slots s = (pieces .start s).map Text.trim := by
  rw [slots, h, if_neg Bool.false_ne_true]

theorem isBlankText_of_mem_slots {part : List Char} (hpart : part ∈ slots s) :
    Text.isBlankText s = false := by
  rw [Bool.eq_false_iff]
  intro hblank
  rw [slots, if_pos hblank] at hpart
  exact List.not_mem_nil hpart

theorem isTight_of_mem_slots {part : List Char} (hpart : part ∈ slots s) : Text.IsTight part := by
  rw [slots_eq_map_trim (isBlankText_of_mem_slots hpart)] at hpart
  obtain ⟨piece, _, rfl⟩ := List.mem_map.1 hpart
  exact Text.isTight_trim piece

theorem arePieces_slots (h : Text.isBlankText s = false) : ArePieces .start (slots s) := by
  rw [slots_eq_map_trim h]
  exact (arePieces_pieces .start s).map_trim

/-- A text that is not blank has a slot that is not empty, or several slots. -/
theorem slots_ne_singleton_nil (h : Text.isBlankText s = false) : slots s ≠ [[]] := by
  intro hslots
  rw [slots_eq_map_trim h] at hslots
  obtain ⟨piece, hpieces, hpiece⟩ := List.map_eq_singleton_iff.1 hslots
  have hs : piece = s := by
    have hjoined := joined_pieces .start s
    rw [hpieces] at hjoined
    exact hjoined
  have hblank : Text.isBlankText s = true := by
    rw [← hs]
    exact List.all_eq_true.2 (Text.trim_eq_nil_iff.1 hpiece)
  rw [hblank] at h
  exact absurd h (by decide)

/-- A slot is its own only slot. -/
theorem slots_of_mem_slots {part : List Char} (hpart : part ∈ slots s) (hne : part ≠ []) :
    slots part = [part] := by
  have hpieces := arePieces_slots (isBlankText_of_mem_slots hpart)
  obtain ⟨_, huncut⟩ := hpieces.exists_uncut_of_mem hpart
  exact slots_of_uncut huncut (isTight_of_mem_slots hpart) hne

/-- The slots of a text with commas between them have the same slots. -/
theorem slots_joined_slots (h : Text.isBlankText s = false) {blanks : List Char}
    (hblanks : ∀ c ∈ blanks, isBlank c = true) :
    slots (Text.joined (',' :: blanks) (slots s)) = slots s :=
  (arePieces_slots h).slots_joined hblanks (fun _ hpart => isTight_of_mem_slots hpart)
    (slots_ne_singleton_nil h)

/-- Whatever a text is, if it is not blank: it consists of pieces with commas between them whose
trims are its slots, each slot that is not empty is its own only slot, and the slots with commas
between them, whether or not blanks stand behind the commas, are cut into the same slots.  And two
or more slots that are empty or literals, written by whatever dictionaries of references, are the
slots of their list. -/
theorem slots_cut_again :
    (∀ s, Text.isBlankText s = false →
      (∃ parts, Text.joined [','] parts = s ∧ parts.map Text.trim = slots s) ∧
      (∀ part ∈ slots s, part ≠ [] → slots part = [part]) ∧
      ∀ blanks, (∀ c ∈ blanks, isBlank c = true) →
        slots (Text.joined (',' :: blanks) (slots s)) = slots s) ∧
    ∀ parts : List (List Char), 2 ≤ parts.length →
      (∀ part ∈ parts, part = [] ∨ ∃ (dictionary : Dictionary) (v : Value),
        dictionary.HasReferences ∧ part = render dictionary v) →
      slots (commaList parts) = parts := by
  constructor
  · intro s hs
    exact ⟨⟨pieces .start s, joined_pieces .start s, (slots_eq_map_trim hs).symm⟩,
      fun _ hpart hne => slots_of_mem_slots hpart hne,
      fun _ hblanks => slots_joined_slots hs hblanks⟩
  · intro parts hlength hparts
    apply slots_commaList
    · intro part hpart
      rcases hparts part hpart with hnil | hliteral
      · rw [hnil]
        exact ⟨uncut_nil _, Text.isTight_nil⟩
      · obtain ⟨dictionary, v, hd, hrender⟩ := hliteral
        have hshape := isLiteral_render hd v
        rw [hrender]
        exact ⟨hshape.uncut 0, hshape.tight⟩
    · intro hsingle
      rw [hsingle] at hlength
      exact absurd hlength (by decide)

/-- A text with a bracket that closes nothing, one that is not closed, a quote that is not closed
and a backslash at its end; and a list between two empty slots. -/
theorem slots_cut_again_sample :
    let s := " a], \"x,y\" ,, [b, \"c\\".toList
    let parts := [[], render .empty (.array [.string "a, b", .null]), []]
    Text.isBlankText s = false ∧
      slots s = ["a]".toList, "\"x,y\"".toList, [], "[b, \"c\\".toList] ∧
      slots "[b, \"c\\".toList = ["[b, \"c\\".toList] ∧
      slots (Text.joined [','] (slots s)) = slots s ∧ slots (commaList parts) = parts := by
  intro s parts
  have hs : Text.isBlankText s = false := by decide +kernel
  have hslots : slots s = ["a]".toList, "\"x,y\"".toList, [], "[b, \"c\\".toList] := by
    decide +kernel
  have hlast : "[b, \"c\\".toList ∈ slots s := by
    rw [hslots]
    simp
  have hparts : ∀ part ∈ parts, part = [] ∨ ∃ (dictionary : Dictionary) (v : Value),
      dictionary.HasReferences ∧ part = render dictionary v := by
    intro part hpart
    rcases List.mem_cons.1 hpart with hpart | hpart
    · exact .inl hpart
    rcases List.mem_cons.1 hpart with hpart | hpart
    · exact .inr ⟨.empty, _, Dictionary.hasReferences_empty, hpart⟩
    · exact .inl (List.mem_singleton.1 hpart)
  obtain ⟨_, hatomic, hagain⟩ := slots_cut_again.1 s hs
  exact ⟨hs, hslots, hatomic _ hlast (by decide), hagain [] (List.forall_mem_nil _),
    slots_cut_again.2 parts (by decide) hparts⟩

end TableNotation.Literal
