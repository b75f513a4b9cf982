import TableNotation.Compression.Algorithm
import TableNotation.Proofs.Compression.Contents
import TableNotation.Proofs.Number.Quotient
/-!
# What the estimate of a dictionary counts

The estimate looks at every text that is long and frequent enough, but the dictionary is built
without the texts that begin like a reference.  So the estimate is the share of characters that
the dictionary really saves, and that it would save if it had these texts too.  It lies between
zero and one, and it is the real share exactly if no text that begins with `#` would save anything.

* `sum_entries_ofDocument`: what a dictionary saves, text by text.
* `ofDictionary_eq`: what the estimate counts.
* `best_eq_dictionary_iff`: when the dictionary is preferred to differences.
* `ofDictionary_counts`: the estimate and the dictionary.
* `ofDictionary_marked`: a document for which they differ.
-/

namespace TableNotation

namespace Savings

variable {t : Thresholds} {strings : List String} {document : Document}

/-- The characters that are saved of a text: each of its occurrences but the first shrinks to
three characters. -/
def ofText (strings : List String) (s : String) : Nat := (s.length - 3) * (strings.count s - 1)

/-- The characters that a dictionary saves. -/
def ofEntries (dictionary : Dictionary) (strings : List String) : Nat :=
  (dictionary.entries.map fun e => ofText strings e.2).sum

/-- The characters that would be saved of texts that begin like a reference, if these could go
into the dictionary. -/
def ofMarked (t : Thresholds) (strings : List String) : Nat :=
  ((strings.eraseDups.filter fun s =>
    t.admits s (strings.count s) && Dictionary.isMarked s).map (ofText strings)).sum

/-- The characters of all texts. -/
def characters (strings : List String) : Nat := (strings.map String.length).sum

/-! ### The dictionary -/

/-- The dictionary of a document saves what it saves of the texts that are frequent. -/
theorem sum_entries_ofDocument (t : Thresholds) (document : Document) :
    ofEntries (Dictionary.ofDocument t document) document.strings
      = ((Dictionary.frequent t document.strings).map (ofText document.strings)).sum := by
  have hperm : (Dictionary.ofDocument t document).entries.Perm
      (Dictionary.pairs t document.strings) :=
    SortedMap.perm_entries_ofList (Dictionary.nodup_keys_pairs t document.strings)
  have htexts : (Dictionary.pairs t document.strings).map Prod.snd
      = Dictionary.frequent t document.strings := by
    rw [Dictionary.pairs, Dictionary.references_eq_map]
    apply List.map_snd_zip
    rw [List.length_map, List.length_range]
  rw [← htexts, List.map_map]
  exact (hperm.map _).sum_nat

/-- What the texts of a dictionary save and what marked texts would save is what all texts that
are long and frequent enough would save. -/
theorem ofEntries_add_ofMarked (t : Thresholds) (document : Document) :
    ofEntries (Dictionary.ofDocument t document) document.strings + ofMarked t document.strings
      = ((document.strings.eraseDups.filter fun s =>
        t.admits s (document.strings.count s)).map (ofText document.strings)).sum := by
  have hsplit := sum_map_filter_add Dictionary.isMarked (ofText document.strings)
    (document.strings.eraseDups.filter fun s => t.admits s (document.strings.count s))
  simp only [List.filter_filter] at hsplit
  rw [sum_entries_ofDocument, Dictionary.frequent, ofMarked, Nat.add_comm]
  simpa only [Bool.and_comm] using hsplit

/-! ### The estimate -/

theorem ofText_le (strings : List String) (s : String) :
    ofText strings s ≤ s.length * strings.count s :=
  Nat.mul_le_mul (Nat.sub_le _ _) (Nat.sub_le _ _)

/-- No more is saved than there is. -/
theorem ofEntries_add_ofMarked_le (t : Thresholds) (document : Document) :
    ofEntries (Dictionary.ofDocument t document) document.strings + ofMarked t document.strings
      ≤ characters document.strings := by
  rw [ofEntries_add_ofMarked, characters, ← sum_map_count_eraseDups String.length]
  exact sum_map_filter_le _ (ofText_le document.strings) _

/-- The estimate is the share of the characters that would be saved of all texts that are long
and frequent enough. -/
theorem ofDictionary_eq (t : Thresholds) (document : Document) : ofDictionary t document
    = Double.quotient (ofEntries (Dictionary.ofDocument t document) document.strings
        + ofMarked t document.strings) (characters document.strings) := by
  rw [ofEntries_add_ofMarked, characters, ← sum_map_count_eraseDups String.length]
  unfold ofDictionary
  simp only [List.map_map, List.filter_map]
  rfl

/-- Marked texts would save nothing if each of them is short, rare or not admitted. -/
theorem ofMarked_eq_zero_iff : ofMarked t strings = 0 ↔
    ∀ s ∈ strings, Dictionary.isMarked s = true → t.admits s (strings.count s) = true →
      s.length ≤ 3 ∨ strings.count s ≤ 1 := by
  have htext : ∀ s, ofText strings s = 0 ↔ s.length ≤ 3 ∨ strings.count s ≤ 1 := by
    intro s
    rw [ofText, Nat.mul_eq_zero]
    omega
  rw [ofMarked, List.sum_eq_zero_iff_forall_eq_nat]
  simp only [List.forall_mem_map, List.mem_filter, List.mem_eraseDups, Bool.and_eq_true, htext]
  constructor
  · intro h s hs hmarked hadmits
    exact h s ⟨hs, hadmits, hmarked⟩
  · intro h s ⟨hs, hadmits, hmarked⟩
    exact h s hs hmarked hadmits

/-- The share of the characters of a document that its dictionary saves. -/
def share (t : Thresholds) (document : Document) : Double :=
  Double.quotient (ofEntries (Dictionary.ofDocument t document) document.strings)
    (characters document.strings)

/-- An empty dictionary saves nothing. -/
theorem share_eq_zero (h : (Dictionary.ofDocument t document).entries = []) :
    share t document = .zero false := by
  have hnone : ofEntries (Dictionary.ofDocument t document) document.strings = 0 := by
    rw [ofEntries, h]
    rfl
  rw [share, hnone, Double.quotient_zero]

/-- The estimate is the share that the dictionary saves exactly if marked texts would save
nothing, unless the document is very large. -/
theorem ofDictionary_eq_share_iff (t : Thresholds) (document : Document)
    (hsize : characters document.strings < 2 ^ 52) :
    ofDictionary t document = share t document ↔ ofMarked t document.strings = 0 := by
  have hle := ofEntries_add_ofMarked_le t document
  rw [ofDictionary_eq, share, Double.quotient_left_inj hsize hle (by omega)]
  omega

end Savings

namespace Compression

/-- No estimate is below zero, which is that of the patterns. -/
theorem compare_savings_pattern (t : Thresholds) (algorithm : Algorithm) (document : Document) :
    (algorithm.savings t document).compare (Algorithm.pattern.savings t document) ≠ .lt := by
  have hle : 0 ≤ (algorithm.savings t document).units := by
    cases algorithm with
    | dictionary => exact Double.units_quotient_nonneg _ _
    | delta => exact Double.units_quotient_nonneg _ _
    | pattern => exact Int.le_refl 0
  rw [Double.compare, Ne, Int.compare_eq_lt]
  exact Int.not_lt.2 hle

/-- The dictionary is the best algorithm exactly if its estimate is not below that of the
deltas. -/
theorem best_eq_dictionary_iff (t : Thresholds) (document : Document) :
    best t document = .dictionary ↔
      (Savings.ofDeltas document).units ≤ (Savings.ofDictionary t document).units := by
  have hcompare : (Algorithm.dictionary.savings t document).compare
      (Algorithm.delta.savings t document) = .lt ↔
      (Savings.ofDictionary t document).units < (Savings.ofDeltas document).units :=
    Int.compare_eq_lt
  by_cases hlt : (Savings.ofDictionary t document).units < (Savings.ofDeltas document).units
  · have hbest : best t document = .delta := by
      simp [best, hcompare.2 hlt, compare_savings_pattern]
    simp [hbest, hlt]
  · have hbest : best t document = .dictionary := by
      simp [best, hcompare.not.2 hlt, compare_savings_pattern]
    simp [hbest, Int.not_lt.1 hlt]

/-- The adaptive mode applies the dictionary to small documents, and to those for which its
estimate is not below that of the deltas. -/
theorem algorithms_adaptive (t : Thresholds) (document : Document) :
    algorithms t .adaptive document = [.dictionary] ↔ jsonSize document < comparisonSize ∨
      (Savings.ofDeltas document).units ≤ (Savings.ofDictionary t document).units := by
  rw [← best_eq_dictionary_iff, algorithms]
  by_cases hsmall : jsonSize document < comparisonSize
  · simp [hsmall]
  · simp [hsmall]

end Compression

namespace Savings

/-- The estimate of a dictionary is the share of characters that it saves, together with what
marked texts would save if they could go into it; it lies between zero and one.  If each marked
text is short, rare or not admitted, it is what the dictionary saves, and unless the document is
very large, only then.  What an empty dictionary saves is zero.  The adaptive mode applies the
dictionary to small documents, and to those for which this estimate is not below that of the
deltas. -/
theorem ofDictionary_counts (t : Thresholds) (document : Document) :
    ofDictionary t document = Double.quotient
        (ofEntries (Dictionary.ofDocument t document) document.strings
          + ofMarked t document.strings) (characters document.strings) ∧
      ofEntries (Dictionary.ofDocument t document) document.strings
        + ofMarked t document.strings ≤ characters document.strings ∧
      0 ≤ (ofDictionary t document).units ∧
      (ofDictionary t document).units ≤ Double.unitsPerOne ∧
      ((∀ s ∈ document.strings, Dictionary.isMarked s = true →
        t.admits s (document.strings.count s) = true →
          s.length ≤ 3 ∨ document.strings.count s ≤ 1) →
        ofDictionary t document = share t document) ∧
      (characters document.strings < 2 ^ 52 → ofDictionary t document = share t document →
        ∀ s ∈ document.strings, Dictionary.isMarked s = true →
          t.admits s (document.strings.count s) = true →
            s.length ≤ 3 ∨ document.strings.count s ≤ 1) ∧
      ((Dictionary.ofDocument t document).entries = [] → share t document = .zero false) ∧
      (Compression.algorithms t .adaptive document = [.dictionary] ↔
        Compression.jsonSize document < Compression.comparisonSize ∨
          (ofDeltas document).units ≤ (ofDictionary t document).units) := by
  have hle := ofEntries_add_ofMarked_le t document
  refine ⟨ofDictionary_eq t document, hle, Double.units_quotient_nonneg _ _, ?_, ?_, ?_,
    share_eq_zero, Compression.algorithms_adaptive t document⟩
  · rw [ofDictionary_eq]
    exact Double.units_quotient_le_unitsPerOne hle
  · intro hmarked
    rw [ofDictionary_eq, ofMarked_eq_zero_iff.2 hmarked, Nat.add_zero, share]
  · intro hsize hshare
    exact ofMarked_eq_zero_iff.1 ((ofDictionary_eq_share_iff t document hsize).1 hshare)

/-- A dictionary of one text, which occurs three times, and a marked text that is rare. -/
theorem ofDictionary_counts_sample :
    let document : Document := [("t", .array [.object [("a", .string "alpha")],
      .object [("a", .string "alpha"), ("b", .string "#marked")],
      .object [("a", .array [.string "alpha"])]])]
    ofDictionary .standard document = share .standard document ∧
      share .standard document = Double.quotient 4 22 := by
  intro document
  have hrare : ∀ s ∈ document.strings, Dictionary.isMarked s = true →
      Thresholds.standard.admits s (document.strings.count s) = true →
        s.length ≤ 3 ∨ document.strings.count s ≤ 1 := by decide +kernel
  exact ⟨(ofDictionary_counts .standard document).2.2.2.2.1 hrare, by decide +kernel⟩

/-- A text that occurs four times, but begins with `#`, does not go into the dictionary, and yet
the estimate counts it.  So the dictionary is preferred to differences that would save a half,
although it is empty. -/
theorem ofDictionary_marked :
    let document : Document := [("t", .array (List.replicate 4 <|
        .object [("tag", .string "#urgent-customer")])),
      ("u", .array [.number (.integer 7 (by decide)), .number (.integer 8 (by decide))])]
    (Dictionary.ofDocument .standard document).entries = [] ∧
      share .standard document = .zero false ∧
      ofDictionary .standard document = Double.quotient 39 64 ∧
      ofDictionary .standard document ≠ share .standard document ∧
      ofDeltas document = Double.quotient 1 2 ∧
      Compression.best .standard document = .dictionary := by
  intro document
  decide +kernel

end Savings

end TableNotation
