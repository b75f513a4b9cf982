import Mathlib.Data.List.Perm.Subperm
import TableNotation.Proofs.Compression.Lossless
import TableNotation.Proofs.Lists
/-!
# What a dictionary holds

The dictionary of a document holds exactly the texts that are long and frequent enough and do
not begin like a reference, each under one reference.  In the order of their first occurrence
they get the numbers that are free, that is those whose references are no leaves of the document,
from the least one on.  Only finitely many numbers are taken, so there is always a free one; and
among the first numbers, as many as there are texts and marked leaves together, enough are free.

* `exists_isFree_ge`, `le_count_isFree`: there are free numbers enough.
* `references_eq_map`: which reference comes when; `pairs_eq_numbered`: it is the one that a
  search finds.
* `get?_ofDocument_iff`: what is found in a dictionary.
* `ofDocument_holds`: what a dictionary holds.
-/

namespace TableNotation

namespace Dictionary

variable {t : Thresholds} {strings : List String} {document : Document}

/-! ### Free numbers -/

/-- The reference with this number is none of the texts. -/
def IsFree (strings : List String) (n : Nat) : Prop := reference n ∉ strings

instance (strings : List String) : DecidablePred (IsFree strings) :=
  fun _ => inferInstanceAs (Decidable (¬ _))

theorem reference_injective : Function.Injective reference := by
  intro m n h
  have hchars := congrArg String.toList h
  rw [reference, reference, String.toList_ofList, String.toList_ofList] at hchars
  have hdigits := (List.cons.inj hchars).2
  rw [← naturalOf_digitsOf m, hdigits, naturalOf_digitsOf]

/-- Only finitely many numbers are taken. -/
theorem infinite_isFree (strings : List String) : {n | IsFree strings n}.Infinite := by
  have htaken : (Set.preimage reference {s | s ∈ strings}).Finite :=
    (List.finite_toSet strings).preimage reference_injective.injOn
  exact htaken.infinite_compl

/-- The search for a free number ends, wherever it starts. -/
theorem exists_isFree_ge (strings : List String) (n : Nat) : ∃ m, n ≤ m ∧ IsFree strings m := by
  obtain ⟨m, hfree, hlt⟩ := (infinite_isFree strings).exists_gt n
  exact ⟨m, hlt.le, hfree⟩

/-- Below a bound no more numbers are taken than there are marked texts. -/
theorem length_taken_le (bound : Nat) (strings : List String) :
    ((List.range bound).filter fun n => !decide (IsFree strings n)).length
      ≤ (strings.filter isMarked).length := by
  have hnodup : (((List.range bound).filter fun n => !decide (IsFree strings n)).map
      reference).Nodup :=
    (List.nodup_range.filter _).map reference_injective
  have hsubset : ((List.range bound).filter fun n => !decide (IsFree strings n)).map reference
      ⊆ strings.filter isMarked := by
    intro r hr
    obtain ⟨n, hn, rfl⟩ := List.mem_map.1 hr
    have htaken : ¬ IsFree strings n := by simpa using (List.mem_filter.1 hn).2
    exact List.mem_filter.2 ⟨not_not.1 htaken, isMarked_reference n⟩
  have hlength := (List.subperm_of_subset hnodup hsubset).length_le
  rwa [List.length_map] at hlength

/-- So enough numbers are free below a bound that exceeds the marked texts by as many. -/
theorem le_count_isFree (count : Nat) (strings : List String) :
    count ≤ Nat.count (IsFree strings) (count + (strings.filter isMarked).length) := by
  have hall := @List.length_eq_length_filter_add Nat
    (List.range (count + (strings.filter isMarked).length)) fun n => decide (IsFree strings n)
  have htaken := length_taken_le (count + (strings.filter isMarked).length) strings
  rw [filter_range_eq_map_nth, List.length_map, List.length_range, List.length_range] at hall
  omega

/-- The references in question are those of the least free numbers. -/
theorem references_eq_map (count : Nat) (strings : List String) : references count strings
    = (List.range count).map fun k => reference (Nat.nth (IsFree strings) k) := by
  have hfree : (fun r => !(strings.filter isMarked).contains r) ∘ reference
      = fun n => decide (IsFree strings n) := by
    funext n
    rw [Bool.eq_iff_iff, decide_eq_true_iff]
    simp [IsFree, isMarked_reference]
  rw [references, List.filter_map, hfree, filter_range_eq_map_nth, List.map_map, ← List.map_take,
    List.take_range, Nat.min_eq_left (le_count_isFree count strings)]
  rfl

theorem nodup_references (count : Nat) (strings : List String) :
    (references count strings).Nodup := by
  rw [references_eq_map]
  exact List.nodup_range.map
    (reference_injective.comp (Nat.nth_injective (infinite_isFree strings)))

/-- The least free number from a number on. -/
def nextFree (strings : List String) (start : Nat) : Nat :=
  Nat.find (exists_isFree_ge strings start)

theorem isFree_nextFree (strings : List String) (start : Nat) :
    IsFree strings (nextFree strings start) :=
  (Nat.find_spec (exists_isFree_ge strings start)).2

/-- No number in between is free. -/
theorem count_nextFree (strings : List String) (start : Nat) :
    Nat.count (IsFree strings) (nextFree strings start) = Nat.count (IsFree strings) start := by
  obtain ⟨distance, hdistance⟩ :=
    Nat.exists_eq_add_of_le (Nat.find_spec (exists_isFree_ge strings start)).1
  have hbetween : Nat.count (fun n => IsFree strings (start + n)) distance = 0 := by
    apply Nat.count_of_forall_not
    intro n hn hfree
    exact Nat.find_min (exists_isFree_ge strings start) (by omega) ⟨Nat.le_add_right _ _, hfree⟩
  rw [nextFree, hdistance, Nat.count_add, hbetween, Nat.add_zero]

/-- Texts with references, each text getting the next free number. -/
def numbered (strings : List String) : (start : Nat) → List String → List (String × String)
  | _, [] => []
  | start, s :: rest =>
    (reference (nextFree strings start), s) :: numbered strings (nextFree strings start + 1) rest

/-- The numbers are those that follow the free numbers below the start. -/
theorem getElem?_numbered (strings : List String) (start : Nat) (texts : List String) (k : Nat) :
    (numbered strings start texts)[k]? = texts[k]?.map fun s =>
      (reference (Nat.nth (IsFree strings) (Nat.count (IsFree strings) start + k)), s) := by
  induction texts generalizing start k with
  | nil => simp [numbered]
  | cons s rest ih =>
    have hfree := isFree_nextFree strings start
    rw [numbered]
    cases k with
    | zero =>
      simp only [Nat.add_zero]
      rw [← count_nextFree, Nat.nth_count hfree]
      rfl
    | succ k =>
      have hnext : Nat.count (IsFree strings) (nextFree strings start + 1)
          = Nat.count (IsFree strings) start + 1 := by
        rw [Nat.count_succ, count_nextFree, if_pos hfree]
      rw [List.getElem?_cons_succ, List.getElem?_cons_succ, ih, hnext, Nat.add_right_comm,
        Nat.add_assoc]

/-! ### Texts -/

/-- A text that goes into the dictionary for given leaves. -/
structure IsFrequent (t : Thresholds) (strings : List String) (s : String) : Prop where
  leaf : s ∈ strings
  long : t.minLength ≤ s.length
  often : t.minOccurrences ≤ strings.count s
  plain : s.toList.head? ≠ some '#'

theorem mem_frequent {s : String} : s ∈ frequent t strings ↔ IsFrequent t strings s := by
  simp only [frequent, List.mem_filter, List.mem_eraseDups, Thresholds.admits, isMarked,
    Bool.and_eq_true, Bool.not_eq_true', decide_eq_true_eq, decide_eq_false_iff_not]
  constructor
  · rintro ⟨hleaf, ⟨hlong, hoften⟩, hplain⟩
    exact ⟨hleaf, hlong, hoften, hplain⟩
  · rintro ⟨hleaf, hlong, hoften, hplain⟩
    exact ⟨hleaf, ⟨hlong, hoften⟩, hplain⟩

/-- The texts stand in the order of their first occurrence. -/
theorem pairwise_frequent (t : Thresholds) (strings : List String) :
    (frequent t strings).Pairwise fun a b => strings.idxOf a < strings.idxOf b :=
  (pairwise_eraseDups strings).filter _

theorem nodup_frequent (t : Thresholds) (strings : List String) :
    (frequent t strings).Nodup :=
  (nodup_eraseDups strings).filter _

/-! ### Entries -/

/-- Each text gets the free number of its place. -/
theorem getElem?_pairs (t : Thresholds) (strings : List String) (k : Nat) :
    (pairs t strings)[k]? = (frequent t strings)[k]?.map fun s =>
      (reference (Nat.nth (IsFree strings) k), s) := by
  rw [pairs, references_eq_map]
  cases hs : (frequent t strings)[k]? with
  | none =>
    rw [Option.map_none, List.getElem?_eq_none_iff, List.length_zip]
    exact (Nat.min_le_right _ _).trans (List.getElem?_eq_none_iff.1 hs)
  | some s =>
    have hk : k < (frequent t strings).length := (List.getElem?_eq_some_iff.1 hs).1
    rw [Option.map_some, List.getElem?_zip_eq_some, List.getElem?_map, List.getElem?_range hk]
    exact ⟨rfl, hs⟩

/-- That is the next one that is free. -/
theorem pairs_eq_numbered (t : Thresholds) (strings : List String) :
    pairs t strings = numbered strings 0 (frequent t strings) := by
  apply List.ext_getElem?
  intro k
  rw [getElem?_pairs, getElem?_numbered, Nat.count_zero, Nat.zero_add]

theorem nodup_keys_pairs (t : Thresholds) (strings : List String) :
    ((pairs t strings).map Prod.fst).Nodup := by
  have hlength : (references (frequent t strings).length strings).length
      ≤ (frequent t strings).length := by
    rw [references_eq_map, List.length_map, List.length_range]
  rw [pairs, List.map_fst_zip hlength]
  exact nodup_references _ _

theorem get?_ofDocument_iff {r s : String} : (ofDocument t document).get? r = some s ↔
    ∃ k, (frequent t document.strings)[k]? = some s ∧
      r = reference (Nat.nth (IsFree document.strings) k) := by
  rw [ofDocument, SortedMap.get?_ofList_iff (nodup_keys_pairs t document.strings),
    List.mem_iff_getElem?]
  apply exists_congr
  intro k
  rw [getElem?_pairs, Option.map_eq_some_iff]
  constructor
  · rintro ⟨_, hs, hpair⟩
    obtain ⟨rfl, rfl⟩ := Prod.mk.inj hpair
    exact ⟨hs, rfl⟩
  · rintro ⟨hs, rfl⟩
    exact ⟨s, hs, rfl⟩

/-- The literals are the texts that are long and frequent enough. -/
theorem exists_get?_ofDocument_iff {s : String} :
    (∃ r, (ofDocument t document).get? r = some s) ↔ IsFrequent t document.strings s := by
  rw [← mem_frequent, List.mem_iff_getElem?]
  constructor
  · rintro ⟨r, hr⟩
    obtain ⟨k, hk, _⟩ := get?_ofDocument_iff.1 hr
    exact ⟨k, hk⟩
  · rintro ⟨k, hk⟩
    exact ⟨_, get?_ofDocument_iff.2 ⟨k, hk, rfl⟩⟩

/-- No text has two references. -/
theorem eq_of_get?_ofDocument {r r' s : String} (h : (ofDocument t document).get? r = some s)
    (h' : (ofDocument t document).get? r' = some s) : r = r' := by
  obtain ⟨k, hk, rfl⟩ := get?_ofDocument_iff.1 h
  obtain ⟨k', hk', rfl⟩ := get?_ofDocument_iff.1 h'
  have hplace : k = k' :=
    (List.getElem?_inj (List.getElem?_eq_some_iff.1 hk).1 (nodup_frequent t document.strings)).1
      (hk.trans hk'.symm)
  rw [hplace]

/-- A dictionary gives different references to different texts, and its texts are the leaves
of the document that are long enough, occur often enough and do not begin with `#`.  In the
order of their first occurrence, the reference of each text has the least free number that was
not given yet, which is what a search finds that goes on from the last number; a number is free
if its reference is no leaf, and above each number there is a free one. -/
theorem ofDocument_holds (t : Thresholds) (document : Document) :
    (∀ r r' s, (ofDocument t document).get? r = some s →
      (ofDocument t document).get? r' = some s → r = r') ∧
    (∀ s, (∃ r, (ofDocument t document).get? r = some s) ↔
      s ∈ document.strings ∧ t.minLength ≤ s.length ∧
        t.minOccurrences ≤ document.strings.count s ∧ s.toList.head? ≠ some '#') ∧
    (∃ texts : List String,
      texts.Pairwise (fun a b => document.strings.idxOf a < document.strings.idxOf b) ∧
      (∀ s, s ∈ texts ↔ ∃ r, (ofDocument t document).get? r = some s) ∧
      (∀ r s, (ofDocument t document).get? r = some s ↔ ∃ k, texts[k]? = some s ∧
        r = reference (Nat.nth (fun n => reference n ∉ document.strings) k)) ∧
      ofDocument t document = SortedMap.ofList (numbered document.strings 0 texts)) ∧
    ∀ n, ∃ m, n ≤ m ∧ reference m ∉ document.strings := by
  refine ⟨fun r r' s => eq_of_get?_ofDocument, fun s => ?_,
    ⟨frequent t document.strings, pairwise_frequent t document.strings, fun s => ?_,
      fun r s => get?_ofDocument_iff, ?_⟩, exists_isFree_ge document.strings⟩
  · rw [exists_get?_ofDocument_iff]
    exact ⟨fun h => ⟨h.leaf, h.long, h.often, h.plain⟩, fun ⟨h₁, h₂, h₃, h₄⟩ => ⟨h₁, h₂, h₃, h₄⟩⟩
  · rw [mem_frequent, exists_get?_ofDocument_iff]
  · rw [ofDocument, pairs_eq_numbered]

/-- Two texts that occur twice, and leaves that look like the references `#0` and `#2`. -/
theorem ofDocument_holds_sample :
    let document : Document := [("t", .array [.string "second", .string "#2", .string "first"]),
      ("u", .object [("a", .array [.string "first", .string "#0"]), ("b", .string "second")])]
    (ofDocument ⟨5, 2⟩ document).get? "#3" = some "first" ∧
      ∀ r, (ofDocument ⟨5, 2⟩ document).get? r = some "first" → r = "#3" := by
  intro document
  have hfound : (ofDocument ⟨5, 2⟩ document).get? "#3" = some "first" := by decide +kernel
  exact ⟨hfound, fun r hr => (ofDocument_holds ⟨5, 2⟩ document).1 r "#3" "first" hr hfound⟩

end Dictionary
end TableNotation
