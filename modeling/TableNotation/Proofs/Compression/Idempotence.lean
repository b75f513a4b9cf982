import TableNotation.Proofs.Compression.Contents
/-!
# Compressing twice

A document that was abbreviated by its own dictionary has nothing left to abbreviate.  The texts
of the dictionary are gone from it, the references that stand for them begin with `#`, and every
other leaf occurs as often as before, because it is nobody's reference.  So its dictionary is
empty.

* `abbreviateString_cases`: what becomes of a leaf.
* `count_abbreviate`: how often a leaf occurs that does not begin with `#`.
* `ofDocument_abbreviate`: the dictionary of an abbreviated document.
* `compress_twice`: compressing twice is compressing once.
-/

namespace TableNotation

namespace Dictionary

variable {t : Thresholds} {document : Document}

/-- A text of a dictionary becomes its reference, and any other text stays. -/
theorem abbreviateString_cases (dictionary : Dictionary) (s : String) :
    (∃ r, dictionary.get? r = some s ∧ dictionary.abbreviateString s = r) ∨
      (∀ r, dictionary.get? r ≠ some s) ∧ dictionary.abbreviateString s = s := by
  unfold abbreviateString
  cases hfound : dictionary.entries.find? fun e => e.2 = s with
  | some e =>
    have htext : e.2 = s := by simpa using List.find?_some hfound
    refine .inl ⟨e.1, SortedMap.get?_eq_some_iff.2 ?_, rfl⟩
    rw [← htext]
    exact List.mem_of_find?_eq_some hfound
  | none =>
    refine .inr ⟨fun r hr => ?_, rfl⟩
    have hother := List.find?_eq_none.1 hfound _ (SortedMap.get?_eq_some_iff.1 hr)
    simp at hother

/-- The leaves of an abbreviated document. -/
theorem strings_abbreviate (dictionary : Dictionary) (document : Document) :
    Document.strings (dictionary.abbreviate document)
      = document.strings.map dictionary.abbreviateString :=
  Value.fieldStrings_mapFields _ document

/-- What does not begin with `#` after abbreviating was not abbreviated. -/
theorem of_abbreviateString_eq {u s : String} (hplain : s.toList.head? ≠ some '#')
    (h : (ofDocument t document).abbreviateString u = s) :
    u = s ∧ ∀ r, (ofDocument t document).get? r ≠ some s := by
  rcases abbreviateString_cases (ofDocument t document) u with ⟨r, hr, hu⟩ | ⟨hnone, hu⟩
  · obtain ⟨n, rfl⟩ := (key_of_get? hr).1
    have hmarked := isMarked_reference n
    rw [← hu, h] at hmarked
    exact absurd (of_decide_eq_true hmarked) hplain
  · obtain rfl : u = s := hu.symm.trans h
    exact ⟨rfl, hnone⟩

/-- Such a text occurs as often as before. -/
theorem count_abbreviate {s : String} (hplain : s.toList.head? ≠ some '#')
    (hnone : ∀ r, (ofDocument t document).get? r ≠ some s) :
    (Document.strings ((ofDocument t document).abbreviate document)).count s
      = document.strings.count s := by
  rw [strings_abbreviate, List.count, List.countP_map]
  apply List.countP_congr
  intro u _
  rw [Function.comp, beq_iff_eq, beq_iff_eq]
  constructor
  · exact fun h => (of_abbreviateString_eq hplain h).1
  · rintro rfl
    rcases abbreviateString_cases (ofDocument t document) u with ⟨r, hr, _⟩ | ⟨_, hu⟩
    · exact absurd hr (hnone r)
    · exact hu

/-- No text of the dictionary is left. -/
theorem not_mem_strings_abbreviate {r s : String} (h : (ofDocument t document).get? r = some s) :
    s ∉ Document.strings ((ofDocument t document).abbreviate document) := by
  intro hs
  rw [strings_abbreviate] at hs
  obtain ⟨u, _, hu⟩ := List.mem_map.1 hs
  have hplain := (exists_get?_ofDocument_iff.1 ⟨r, h⟩).plain
  exact (of_abbreviateString_eq hplain hu).2 r h

/-- Its reference stands in its place. -/
theorem mem_strings_abbreviate {r s : String} (h : (ofDocument t document).get? r = some s) :
    r ∈ Document.strings ((ofDocument t document).abbreviate document) := by
  rw [strings_abbreviate]
  rcases abbreviateString_cases (ofDocument t document) s with ⟨r', hr', hs⟩ | ⟨hnone, _⟩
  · obtain rfl := eq_of_get?_ofDocument hr' h
    exact List.mem_map.2 ⟨s, (exists_get?_ofDocument_iff.1 ⟨r', h⟩).leaf, hs⟩
  · exact absurd h (hnone r)

/-- An abbreviated document has no texts for a dictionary. -/
theorem not_isFrequent_abbreviate (t : Thresholds) (document : Document) (s : String) :
    ¬ IsFrequent t (Document.strings ((ofDocument t document).abbreviate document)) s := by
  intro h
  have hleaf := h.leaf
  rw [strings_abbreviate] at hleaf
  obtain ⟨u, hu, habbreviated⟩ := List.mem_map.1 hleaf
  obtain ⟨rfl, hnone⟩ := of_abbreviateString_eq h.plain habbreviated
  have hoften := h.often
  rw [count_abbreviate h.plain hnone] at hoften
  obtain ⟨r, hr⟩ := exists_get?_ofDocument_iff.2 ⟨hu, h.long, hoften, h.plain⟩
  exact hnone r hr

theorem ofDocument_abbreviate (t : Thresholds) (document : Document) :
    ofDocument t ((ofDocument t document).abbreviate document) = .empty := by
  apply SortedMap.ext
  intro r
  rw [SortedMap.get?_empty, Option.eq_none_iff_forall_ne_some]
  intro s hs
  exact not_isFrequent_abbreviate t document s (exists_get?_ofDocument_iff.1 ⟨r, hs⟩)

end Dictionary

namespace Algorithm

open Dictionary

/-- What the dictionary algorithm makes of a document it leaves as it is: it finds no texts for
another dictionary.  For every text of the first dictionary is gone, and its reference is
there. -/
theorem compress_twice (t : Thresholds) (document : Document) :
    let once := (compress t .dictionary document).1
    (compress t .dictionary once).2.dictionary = some .empty ∧
      (compress t .dictionary once).1 = once ∧
      ∀ dictionary, (compress t .dictionary document).2.dictionary = some dictionary →
        ∀ r s, dictionary.get? r = some s → s ∉ once.strings ∧ r ∈ once.strings := by
  intro once
  have hempty : ofDocument t once = .empty := ofDocument_abbreviate t document
  refine ⟨congrArg some hempty, ?_, ?_⟩
  · show (ofDocument t once).abbreviate once = once
    rw [hempty, abbreviate_empty]
  · rintro dictionary hdictionary r s hs
    obtain rfl := Option.some.inj hdictionary
    exact ⟨not_mem_strings_abbreviate hs, mem_strings_abbreviate hs⟩

/-- A text that occurs twice, beside leaves that look like references, one of them twice. -/
theorem compress_twice_sample :
    let document : Document := [("t", .array [.string "second", .string "#0", .string "second"]),
      ("u", .object [("a", .string "#tags"), ("b", .array [.string "#tags"])])]
    let once := (compress ⟨5, 2⟩ .dictionary document).1
    (compress ⟨5, 2⟩ .dictionary once).2.dictionary = some .empty ∧
      (compress ⟨5, 2⟩ .dictionary once).1 = once ∧
      "second" ∉ once.strings ∧ "#1" ∈ once.strings := by
  intro document once
  have hfound : (ofDocument ⟨5, 2⟩ document).get? "#1" = some "second" := by decide +kernel
  obtain ⟨hempty, hunchanged, hleaves⟩ := compress_twice ⟨5, 2⟩ document
  exact ⟨hempty, hunchanged, hleaves _ rfl "#1" "second" hfound⟩

end Algorithm
end TableNotation
