import TableNotation.Proofs.Document.LineGrammar
import TableNotation.Proofs.Success
/-!
# Directives that can be obeyed

A directive is refused for its form alone: neither the state in which it is met nor the
number of its line plays a part.  So there is a predicate on lines which says what can be
obeyed, and a state behind each line that fulfils it.

* `exists_apply_iff`: exactly well-formed directives can be obeyed.
* `apply_eq_ok_iff`: and what is in force behind them is the same whatever their number is.
-/

namespace TableNotation

namespace Directives

variable {state next : Directives} {number : Nat} {line : List Char}

/-- A body is read if the line has one. -/
theorem body_eq_ok_iff {part : DirectivePart} {mark inner : List Char} :
    body number part mark line = .ok inner ↔ Directive.body? mark line = some inner := by
  unfold body
  cases Directive.body? mark line with
  | none => simp
  | some found => simp

/-- Entries are cut if each has a colon. -/
theorem exists_entries_iff {part : DirectivePart} {inner : List Char} :
    (∃ pairs, entries number part inner = .ok pairs) ↔
      ∀ entry ∈ Literal.slots inner, Directive.IsPair entry := by
  unfold entries
  rw [exists_mapM_eq_ok]
  apply forall₂_congr
  intro entry _
  unfold Directive.IsPair
  cases Literal.pair? entry with
  | none => simp
  | some pair => simp

/-- The number of the line has no part in the entries. -/
theorem entries_number {part : DirectivePart} {inner : List Char}
    {pairs : List (List Char × List Char)} (h : entries number part inner = .ok pairs)
    (other : Nat) : entries other part inner = .ok pairs := by
  refine mapM_eq_ok_of_imp (fun entry pair hpair => ?_) h
  cases hcut : Literal.pair? entry with
  | none => simp [hcut] at hpair
  | some cut => simpa [hcut] using hpair

/-- A column is read if its entry has a colon and names a kind. -/
theorem exists_readColumn_iff {entry : List Char} :
    (∃ column, readColumn number entry = .ok column) ↔ Directive.IsColumn entry := by
  unfold readColumn Directive.IsColumn
  cases Literal.pair? entry with
  | none => simp
  | some pair =>
    obtain ⟨name, word⟩ := pair
    cases hkind : Kind.ofName? (String.ofList word) with
    | none => simp [hkind]
    | some kind =>
      exact ⟨fun _ => ⟨name, word, kind, rfl, hkind⟩,
        fun _ => ⟨(String.ofList (FieldName.parse name), kind), by simp only [hkind]⟩⟩

/-- The number of the line has no part in a column. -/
theorem readColumn_number {entry : List Char} {column : String × Kind}
    (h : readColumn number entry = .ok column) (other : Nat) :
    readColumn other entry = .ok column := by
  unfold readColumn at h ⊢
  cases hcut : Literal.pair? entry with
  | none => simp [hcut] at h
  | some pair =>
    cases hkind : Kind.ofName? (String.ofList pair.2) with
    | none => simp [hcut, hkind] at h
    | some kind => simpa [hcut, hkind] using h

variable {α : Type} {part : DirectivePart} {mark : List Char}

/-- A directive sets its part of the state if its body can be read. -/
theorem exists_set_iff {read : List Char → Except DecodingError α} {set : α → Directives}
    {IsEntry : List Char → Prop} (hread : ∀ inner, (∃ a, read inner = .ok a) ↔
      ∀ entry ∈ Literal.slots inner, IsEntry entry) :
    (∃ next, (do
      let inner ← body number part mark line
      let a ← read inner
      return set a) = .ok next) ↔ Directive.HasEntries mark IsEntry line := by
  constructor
  · intro h
    obtain ⟨next, h⟩ := h
    obtain ⟨inner, hinner, h⟩ := bind_eq_ok.1 h
    obtain ⟨a, ha, _⟩ := bind_eq_ok.1 h
    exact ⟨inner, body_eq_ok_iff.1 hinner, (hread inner).1 ⟨a, ha⟩⟩
  · intro h
    obtain ⟨inner, hinner, hentries⟩ := h
    obtain ⟨a, ha⟩ := (hread inner).2 hentries
    exact ⟨set a, bind_eq_ok.2 ⟨inner, body_eq_ok_iff.2 hinner, bind_eq_ok.2 ⟨a, ha, rfl⟩⟩⟩

/-- The number of the line has no part in what a directive sets. -/
theorem set_number (read : Nat → List Char → Except DecodingError α) {set : α → Directives}
    (hread : ∀ inner a, read number inner = .ok a → ∀ other, read other inner = .ok a)
    (h : (do
      let inner ← body number part mark line
      let a ← read number inner
      return set a) = .ok next) (other : Nat) : (do
        let inner ← body other part mark line
        let a ← read other inner
        return set a) = .ok next := by
  obtain ⟨inner, hinner, h⟩ := bind_eq_ok.1 h
  obtain ⟨a, ha, h⟩ := bind_eq_ok.1 h
  exact bind_eq_ok.2 ⟨inner, body_eq_ok_iff.2 (body_eq_ok_iff.1 hinner),
    bind_eq_ok.2 ⟨a, hread inner a ha other, h⟩⟩

/-- A dictionary is read if each of its entries has a colon. -/
theorem exists_readDictionary_iff (inner : List Char) :
    (∃ dictionary, readDictionary number inner = .ok dictionary) ↔
      ∀ entry ∈ Literal.slots inner, Directive.IsPair entry := by
  rw [← @exists_entries_iff number .dictionaryEntry]
  constructor
  · intro h
    obtain ⟨dictionary, h⟩ := h
    obtain ⟨pairs, hpairs, _⟩ := bind_eq_ok.1 h
    exact ⟨pairs, hpairs⟩
  · intro h
    obtain ⟨pairs, hpairs⟩ := h
    exact ⟨_, bind_eq_ok.2 ⟨pairs, hpairs, rfl⟩⟩

/-- So are defaults, whatever the dictionary. -/
theorem exists_readDefaults_iff (dictionary : Dictionary) (inner : List Char) :
    (∃ defaults, readDefaults number dictionary inner = .ok defaults) ↔
      ∀ entry ∈ Literal.slots inner, Directive.IsPair entry := by
  rw [← @exists_entries_iff number .defaultsEntry]
  constructor
  · intro h
    obtain ⟨defaults, h⟩ := h
    obtain ⟨pairs, hpairs, _⟩ := bind_eq_ok.1 h
    exact ⟨pairs, hpairs⟩
  · intro h
    obtain ⟨pairs, hpairs⟩ := h
    exact ⟨_, bind_eq_ok.2 ⟨pairs, hpairs, rfl⟩⟩

/-- A schema is read if each of its columns is. -/
theorem exists_readSchema_iff (inner : List Char) :
    (∃ schema, readSchema number inner = .ok schema) ↔
      ∀ entry ∈ Literal.slots inner, Directive.IsColumn entry := by
  unfold readSchema
  rw [exists_mapM_eq_ok]
  exact forall₂_congr fun entry _ => exists_readColumn_iff

/-- A line that begins with one mark does not begin with another. -/
theorem not_prefix {mark other : List Char} (h : mark <+: line)
    (hne : ¬ mark <+: other ∧ ¬ other <+: mark) : ¬ other <+: line :=
  fun hother => (List.prefix_or_prefix_of_prefix h hother).elim hne.1 hne.2

open Directive in
/-- A directive is obeyed if it is well-formed. -/
theorem exists_apply_iff :
    (∃ next, state.apply number line = .ok next) ↔ IsWellFormed line := by
  unfold apply
  simp only [List.isPrefixOf_iff_prefix]
  by_cases hdictionary : dictionaryMark <+: line
  · have hschema : ¬ schemaMark <+: line := not_prefix hdictionary (by decide)
    have hdefaults : ¬ defaultsMark <+: line := not_prefix hdictionary (by decide)
    rw [if_pos hdictionary]
    exact (exists_set_iff exists_readDictionary_iff).trans
      ⟨fun h => ⟨fun _ => h, fun hno => absurd hno hschema, fun hno => absurd hno hdefaults⟩,
        fun h => h.dictionary hdictionary⟩
  rw [if_neg hdictionary]
  by_cases hschema : schemaMark <+: line
  · have hdefaults : ¬ defaultsMark <+: line := not_prefix hschema (by decide)
    rw [if_pos hschema]
    exact (exists_set_iff exists_readSchema_iff).trans
      ⟨fun h => ⟨fun hno => absurd hno hdictionary, fun _ => h, fun hno => absurd hno hdefaults⟩,
        fun h => h.schema hschema⟩
  rw [if_neg hschema]
  by_cases hdefaults : defaultsMark <+: line
  · rw [if_pos hdefaults]
    exact (exists_set_iff (exists_readDefaults_iff state.dictionary)).trans
      ⟨fun h => ⟨fun hno => absurd hno hdictionary, fun hno => absurd hno hschema, fun _ => h⟩,
        fun h => h.defaults hdefaults⟩
  · rw [if_neg hdefaults]
    exact ⟨fun _ => ⟨fun hno => absurd hno hdictionary, fun hno => absurd hno hschema,
      fun hno => absurd hno hdefaults⟩, fun _ => ⟨state, rfl⟩⟩

/-- The number of a directive has no part in its effect. -/
theorem apply_number (h : state.apply number line = .ok next) (other : Nat) :
    state.apply other line = .ok next := by
  unfold apply at h ⊢
  split at h
  · rename_i hmark
    rw [if_pos hmark]
    refine set_number readDictionary (fun inner dictionary hread other => ?_) h other
    obtain ⟨pairs, hpairs, hread⟩ := bind_eq_ok.1 hread
    exact bind_eq_ok.2 ⟨pairs, entries_number hpairs other, hread⟩
  rename_i hmark
  rw [if_neg hmark]
  split at h
  · rename_i hmark
    rw [if_pos hmark]
    refine set_number readSchema (fun inner schema hread other => ?_) h other
    exact mapM_eq_ok_of_imp (fun _ _ hcolumn => readColumn_number hcolumn other) hread
  rename_i hmark
  rw [if_neg hmark]
  split at h
  · rename_i hmark
    rw [if_pos hmark]
    have hread : ∀ inner defaults, readDefaults number state.dictionary inner = .ok defaults →
        ∀ other, readDefaults other state.dictionary inner = .ok defaults := by
      intro inner defaults hread other
      obtain ⟨pairs, hpairs, hread⟩ := bind_eq_ok.1 hread
      exact bind_eq_ok.2 ⟨pairs, entries_number hpairs other, hread⟩
    exact set_number (fun number => readDefaults number state.dictionary) hread h other
  · rename_i hmark
    rw [if_neg hmark]
    exact h

/-- A directive is obeyed exactly if it is well-formed, and what is in force behind it does
not depend on its number. -/
theorem apply_eq_ok_iff : state.apply number line = .ok next ↔
    Directive.IsWellFormed line ∧ next = state.after line := by
  have hafter : ∀ {found}, state.apply number line = .ok found → state.after line = found := by
    intro found h
    rw [after, apply_number h 0]
  constructor
  · exact fun h => ⟨exists_apply_iff.1 ⟨next, h⟩, (hafter h).symm⟩
  · intro h
    obtain ⟨found, hfound⟩ := (@exists_apply_iff state number line).2 h.1
    rw [h.2, hafter hfound, hfound]

end Directives
end TableNotation
