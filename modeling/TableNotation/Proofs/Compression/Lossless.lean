import TableNotation.Compression.Algorithm
import TableNotation.Proofs.Literal.Shape
import TableNotation.Proofs.SortedMap
import TableNotation.Proofs.Value.Mapping
/-!
# Compression loses nothing

The references of a dictionary are no leaves of the document that it was built for,
so the reference that stands for a text can be told from every text that was left
alone: looking up all leaves undoes the abbreviating.  Whatever a mode chooses to do,
in the end the document has been abbreviated by the dictionary in force, which is
that of the document or the empty one.

* `resolveString_abbreviateString`, `resolve_abbreviate`: looking up undoes
  abbreviating.
* `Compression.run_eq`: what every mode does.
* `Compression.resolve_run`: no mode loses anything, and no reference was there before.
-/

namespace TableNotation

namespace Dictionary

variable {t : Thresholds} {document : Document}

/-- A dictionary without entries abbreviates nothing. -/
theorem abbreviateString_empty (s : String) : abbreviateString .empty s = s := rfl

/-- A reference begins with the mark. -/
theorem isMarked_reference (n : Nat) : isMarked (reference n) = true := by
  unfold isMarked reference
  rw [String.toList_ofList]
  rfl

/-- A key of the dictionary is a reference, and not a leaf of the document. -/
theorem key_of_get? {key text : String} (h : (ofDocument t document).get? key = some text) :
    (∃ n, key = reference n) ∧ key ∉ document.strings := by
  have hpair := SortedMap.mem_of_get?_ofList h
  have hkey : key ∈ references (frequent t document.strings).length document.strings :=
    (List.of_mem_zip hpair).1
  have hfree := List.mem_filter.1 (List.mem_of_mem_take hkey)
  obtain ⟨n, _, rfl⟩ := List.mem_map.1 hfree.1
  refine ⟨⟨n, rfl⟩, ?_⟩
  intro hleaf
  have htaken : reference n ∈ document.strings.filter isMarked :=
    List.mem_filter.2 ⟨hleaf, isMarked_reference n⟩
  have hnot := hfree.2
  rw [Bool.not_eq_true', List.contains_eq_mem, decide_eq_false_iff_not] at hnot
  exact hnot htaken

/-- The dictionary of a document has references for keys. -/
theorem hasReferences_ofDocument (t : Thresholds) (document : Document) :
    (ofDocument t document).HasReferences := by
  intro key h
  obtain ⟨text, htext⟩ := Option.isSome_iff_exists.1 h
  obtain ⟨⟨n, rfl⟩, _⟩ := key_of_get? htext
  exact isReference_reference n

/-- Looking up undoes abbreviating on the leaves of the document. -/
theorem resolveString_abbreviateString {s : String} (h : s ∈ document.strings) :
    (ofDocument t document).resolveString ((ofDocument t document).abbreviateString s) = s := by
  unfold resolveString abbreviateString
  cases hfound : (ofDocument t document).entries.find? fun e => e.2 = s with
  | some e =>
    have htext := List.find?_some hfound
    simp only [decide_eq_true_eq] at htext
    have hget : (ofDocument t document).get? e.1 = some e.2 :=
      SortedMap.get?_eq_some_iff.2 (List.mem_of_find?_eq_some hfound)
    rw [hget, Option.getD_some, htext]
  | none =>
    have hnone : (ofDocument t document).get? s = none := by
      cases hget : (ofDocument t document).get? s with
      | none => rfl
      | some text => exact absurd h (key_of_get? hget).2
    rw [hnone, Option.getD_none]

/-- Without entries the document stays as it is. -/
theorem abbreviate_empty (document : Document) : abbreviate .empty document = document :=
  Value.mapFields_eq_self _ document fun s _ => abbreviateString_empty s

/-- The empty dictionary and the one of a document serve the document. -/
def Serves (dictionary : Dictionary) (t : Thresholds) (document : Document) : Prop :=
  dictionary = ofDocument t document ∨ dictionary = .empty

/-- A dictionary that serves a document has references for keys. -/
theorem Serves.hasReferences {dictionary : Dictionary} (h : dictionary.Serves t document) :
    dictionary.HasReferences := by
  rcases h with rfl | rfl
  · exact hasReferences_ofDocument t document
  · exact hasReferences_empty

/-- Looking up undoes abbreviating on the leaves of a document that is served. -/
theorem Serves.resolveString_abbreviateString {dictionary : Dictionary}
    (h : dictionary.Serves t document) {s : String} (hs : s ∈ document.strings) :
    dictionary.resolveString (dictionary.abbreviateString s) = s := by
  rcases h with rfl | rfl
  · exact Dictionary.resolveString_abbreviateString hs
  · rfl

/-- Looking up all leaves undoes the abbreviating. -/
theorem resolve_abbreviate {dictionary : Dictionary} (h : dictionary.Serves t document) :
    Value.mapFields dictionary.resolveString (dictionary.abbreviate document) = document := by
  unfold abbreviate
  rw [Value.mapFields_mapFields]
  exact Value.mapFields_eq_self _ document fun _ hs => h.resolveString_abbreviateString hs

end Dictionary

namespace Compression

open Dictionary

/-- One algorithm alone leaves a dictionary in force that serves the document, and abbreviates with
it. -/
theorem applyAll_single (t : Thresholds) (document : Document) (algorithm : Algorithm) :
    ∃ dictionary : Dictionary, dictionary.Serves t document ∧
      (applyAll t (document, .empty) [algorithm]).1 = dictionary.abbreviate document ∧
      (applyAll t (document, .empty) [algorithm]).2.activeDictionary = dictionary := by
  cases algorithm with
  | dictionary => exact ⟨ofDocument t document, .inl rfl, rfl, rfl⟩
  | delta => exact ⟨.empty, .inr rfl, (abbreviate_empty document).symm, rfl⟩
  | pattern => exact ⟨.empty, .inr rfl, (abbreviate_empty document).symm, rfl⟩

/-- What every mode does: it abbreviates the document by the dictionary that is then in
force. -/
theorem run_eq (t : Thresholds) (mode : Mode) (document : Document) :
    ∃ dictionary : Dictionary, dictionary.Serves t document ∧
      (run t mode document).1 = dictionary.abbreviate document ∧
      (run t mode document).2.activeDictionary = dictionary := by
  unfold run algorithms
  cases mode with
  | fast => exact applyAll_single t document .dictionary
  | balanced => exact applyAll_single t document .dictionary
  | ultra => exact ⟨ofDocument t document, .inl rfl, rfl, rfl⟩
  | adaptive =>
    simp only
    split
    · exact applyAll_single t document .dictionary
    · exact applyAll_single t document (best t document)

/-- Whatever a mode does to a document, looking up the dictionary that is then in force gives
the document back, and no reference of this dictionary is a leaf of the document. -/
theorem resolve_run (t : Thresholds) (mode : Mode) (document : Document) :
    (run t mode document).2.activeDictionary.resolve (.object (run t mode document).1)
        = .object document ∧
      ∀ key ∈ (run t mode document).2.activeDictionary.keys, key ∉ document.strings := by
  obtain ⟨dictionary, hserves, hdocument, hdictionary⟩ := run_eq t mode document
  rw [hdocument, hdictionary]
  refine ⟨congrArg Value.object (resolve_abbreviate hserves), ?_⟩
  intro key hkey
  obtain ⟨⟨_, text⟩, hentry, rfl⟩ := List.mem_map.1 hkey
  rcases hserves with rfl | rfl
  · exact (key_of_get? (SortedMap.get?_eq_some_iff.2 hentry)).2
  · exact absurd hentry List.not_mem_nil

end Compression
end TableNotation
