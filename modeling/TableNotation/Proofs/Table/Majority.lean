import Mathlib.Data.List.MinMax
import TableNotation.Proofs.Lists
import TableNotation.Proofs.Number.Quotient
import TableNotation.Proofs.Table.Inference
import TableNotation.Proofs.Value.Sameness
/-!
# Majorities

The default of a field is the value that more than three fifths of its values are, if all of
them are scalars.  Two different values cannot both be that, so it does not matter in which order
the fields, the values of a field or the candidates for a default are visited: a candidate with
the most votes of all is a default if its share is large enough, and there is no other one then.

* `Value.identical_iff`: identical scalars are equal.
* `IsMajority.unique`, `majority?_eq_some_iff`: there is one majority.
* `elected?_eq_some_iff`: a vote finds it, whatever the order of the candidates.
* `get?_infer_iff`: which defaults there are.
* `elect_eq_infer`, `infer_eq_of_perm`: no order matters.
* `infer_majorities`: the defaults of records are the majorities among the first hundred.
-/

namespace TableNotation

/-- Scalars are identical if they are equal. -/
theorem Value.identical_iff {v w : Value} :
    v.identical w = true ↔ v.isScalar = true ∧ v = w := by
  cases v <;> cases w <;> simp [identical, isScalar]

namespace Defaults

variable {v w : Value} {values candidates : List Value} {records : List Record} {name : String}

/-- The values that vote on the default of a field: those of the first hundred records that have
it. -/
def votes (name : String) (records : List Record) : List Value :=
  (records.take sampleSize).filterMap (Fields.get? name)

/-! ### Majorities -/

/-- All values are scalars, and more than three fifths of them are this one. -/
structure IsMajority (v : Value) (values : List Value) : Prop where
  scalars : ∀ w ∈ values, w.isScalar = true
  share : 3 * values.length < 5 * occurrences v values

theorem IsMajority.mem (h : IsMajority v values) : v ∈ values := by
  have hpos : 0 < values.countP v.identical := by
    have hshare := h.share
    rw [occurrences] at hshare
    omega
  obtain ⟨w, hw, hidentical⟩ := List.countP_pos_iff.1 hpos
  rwa [(Value.identical_iff.1 hidentical).2]

/-- Different values share the number of all values. -/
theorem occurrences_add_le (hne : v ≠ w) (values : List Value) :
    occurrences v values + occurrences w values ≤ values.length := by
  have hother : occurrences w values ≤ values.countP fun x => decide ¬ v.identical x = true := by
    apply List.countP_mono_left
    intro x _ hx
    obtain ⟨_, rfl⟩ := Value.identical_iff.1 hx
    rw [decide_eq_true_iff, Value.identical_iff]
    exact fun h => hne h.2
  rw [List.length_eq_countP_add_countP v.identical]
  exact Nat.add_le_add_left hother _

/-- There is one majority at most. -/
theorem IsMajority.unique (hv : IsMajority v values) (hw : IsMajority w values) : v = w := by
  by_contra hne
  have hle := occurrences_add_le hne values
  have hvshare := hv.share
  have hwshare := hw.share
  omega

theorem majority?_eq_some_iff : majority? values = some v ↔ IsMajority v values := by
  unfold majority?
  constructor
  · intro h
    split at h
    · rename_i hscalars
      exact ⟨List.all_eq_true.1 hscalars, by simpa using List.find?_some h⟩
    · cases h
  · intro h
    rw [if_pos (List.all_eq_true.2 h.scalars)]
    cases hfound : values.find? fun v => 3 * values.length < 5 * occurrences v values with
    | none => exact absurd h.share (by simpa using List.find?_eq_none.1 hfound v h.mem)
    | some w => rw [h.unique ⟨h.scalars, by simpa using List.find?_some hfound⟩]

/-- The order of the values does not matter. -/
theorem IsMajority.perm {others : List Value} (h : IsMajority v values)
    (hperm : values.Perm others) : IsMajority v others where
  scalars := fun w hw => h.scalars w (hperm.mem_iff.2 hw)
  share := by
    have hcount : occurrences v others = occurrences v values := (hperm.countP_eq _).symm
    rw [hcount, ← hperm.length_eq]
    exact h.share

/-! ### Votes -/

/-- The double nearest to three fifths. -/
def threshold : Double := .quotient 3 5

/-- The last candidate of those with the most votes, if its share of all votes, as a double,
exceeds the threshold. -/
def elected? (candidates values : List Value) : Option Value :=
  if values.all Value.isScalar then
    (candidates.reverse.argmax fun v => occurrences v values).filter fun v =>
      threshold.compare (.quotient (occurrences v values) values.length) == .lt
  else none

/-- For a hundred votes at most the threshold is three fifths exactly. -/
theorem exceeds_threshold_iff (hv : v ∈ values) (hlength : values.length ≤ sampleSize) :
    (threshold.compare (.quotient (occurrences v values) values.length) == .lt) = true ↔
      3 * values.length < 5 * occurrences v values := by
  rw [beq_iff_eq]
  exact Double.compare_three_fifths_iff (List.length_pos_of_mem hv) hlength List.countP_le_length

/-- A vote elects the majority, in whatever order the candidates are visited. -/
theorem elected?_eq_some_iff (hlisting : IsListing candidates values)
    (hlength : values.length ≤ sampleSize) :
    elected? candidates values = some v ↔ IsMajority v values := by
  have hmem : ∀ {w}, w ∈ candidates.reverse ↔ w ∈ values :=
    List.mem_reverse.trans (hlisting.mem_iff _)
  unfold elected?
  constructor
  · intro h
    split at h
    · rename_i hscalars
      obtain ⟨hmost, hshare⟩ := Option.filter_eq_some_iff.1 h
      have hv := hmem.1 (List.argmax_mem hmost)
      exact ⟨List.all_eq_true.1 hscalars, (exceeds_threshold_iff hv hlength).1 hshare⟩
    · cases h
  · intro h
    rw [if_pos (List.all_eq_true.2 h.scalars)]
    cases hmost : candidates.reverse.argmax fun v => occurrences v values with
    | none =>
      rw [List.argmax_eq_none] at hmost
      have hv := hmem.2 h.mem
      rw [hmost] at hv
      cases hv
    | some w =>
      have hvotes : occurrences v values ≤ occurrences w values :=
        List.le_of_mem_argmax (hmem.2 h.mem) hmost
      have hw : IsMajority w values := ⟨h.scalars, Nat.lt_of_lt_of_le h.share (by omega)⟩
      obtain rfl := h.unique hw
      exact Option.filter_eq_some_iff.2 ⟨rfl, (exceeds_threshold_iff h.mem hlength).2 h.share⟩

/-! ### Defaults -/

/-- The defaults that the first records elect, the fields and the candidates of each field being
visited in a certain order. -/
def elect (fields : List String) (candidates : String → List Value) (records : List Record) :
    Defaults :=
  SortedMap.ofList (fields.filterMap fun name =>
    (elected? (candidates name) (votes name records)).map fun v => (name, v))

/-- The defaults are the majorities of the values of fields. -/
theorem get?_infer_iff :
    (infer records).get? name = some v ↔ IsMajority v (votes name records) := by
  rw [← majority?_eq_some_iff]
  refine ⟨majority?_of_get?_infer, fun h => ?_⟩
  unfold infer
  rw [SortedMap.get?_ofList_filterMap (nodup_eraseDups _)]
  refine ⟨?_, h⟩
  obtain ⟨record, hrecord, hfound⟩ := List.mem_filterMap.1 (mem_of_majority? h)
  exact List.mem_eraseDups.2 (List.mem_flatMap.2 ⟨record, hrecord, Fields.mem_keys_of_get? hfound⟩)

/-- Whatever the orders are, the elected values are the defaults. -/
theorem elect_eq_infer {fields : List String} {candidates : String → List Value}
    (hfields : IsListing fields ((records.take sampleSize).flatMap Fields.keys))
    (hcandidates : ∀ name, IsListing (candidates name) (votes name records)) :
    elect fields candidates records = infer records := by
  have hlength : ∀ name, (votes name records).length ≤ sampleSize :=
    fun name => (List.length_filterMap_le _ _).trans (List.length_take_le _ _)
  apply SortedMap.ext
  intro name
  apply Option.ext
  intro v
  rw [elect, SortedMap.get?_ofList_filterMap hfields.nodup, hfields.mem_iff,
    elected?_eq_some_iff (hcandidates name) (hlength name), get?_infer_iff]
  refine ⟨And.right, fun h => ⟨?_, h⟩⟩
  obtain ⟨record, hrecord, hfound⟩ := List.mem_filterMap.1 h.mem
  exact List.mem_flatMap.2 ⟨record, hrecord, Fields.mem_keys_of_get? hfound⟩

/-- Only which records are the first hundred matters. -/
theorem infer_eq_of_perm {others : List Record}
    (h : (others.take sampleSize).Perm (records.take sampleSize)) :
    infer others = infer records := by
  apply SortedMap.ext
  intro name
  apply Option.ext
  intro v
  have hvalues : (votes name others).Perm (votes name records) := h.filterMap _
  rw [get?_infer_iff, get?_infer_iff]
  exact ⟨fun hv => hv.perm hvalues, fun hv => hv.perm hvalues.symm⟩

/-- A field has a default if and only if all its values in the first hundred records are scalars
and more than three fifths of them are the default, values of different kinds and the two zeros
of a double being different.  So it has one at most, a vote finds it in whatever order the fields
and the candidates are visited, and neither the order of the first hundred records nor any
later record matters. -/
theorem infer_majorities (records : List Record) :
    (∀ name v, (infer records).get? name = some v ↔
      (∀ w ∈ votes name records, w.isScalar = true) ∧
        3 * (votes name records).length < 5 * (votes name records).countP v.identical) ∧
    (∀ v w : Value, v.identical w = true ↔ v.isScalar = true ∧ v = w) ∧
    (∀ fields candidates, IsListing fields ((records.take sampleSize).flatMap Fields.keys) →
      (∀ name, IsListing (candidates name) (votes name records)) →
        elect fields candidates records = infer records) ∧
    ∀ others, (others.take sampleSize).Perm (records.take sampleSize) →
      infer others = infer records := by
  refine ⟨fun name v => ?_, fun _ _ => Value.identical_iff, fun _ _ => elect_eq_infer,
    fun _ => infer_eq_of_perm⟩
  rw [get?_infer_iff]
  exact ⟨fun h => ⟨h.scalars, h.share⟩, fun h => ⟨h.1, h.2⟩⟩

/-- Two of three records agree. -/
theorem infer_majorities_sample :
    let a : Value := .string "a"
    let b : Value := .string "b"
    let records : List Record := [[("s", a)], [("s", b)], [("s", a)]]
    let candidates : String → List Value := fun name => if "s" = name then [b, a] else []
    (infer records).get? "s" = some a ∧ elect ["s"] candidates records = infer records ∧
      infer [[("s", b)], [("s", a)], [("s", a)]] = infer records := by
  intro a b records candidates
  obtain ⟨hdefaults, _, horders, hrecords⟩ := infer_majorities records
  refine ⟨(hdefaults "s" a).2 (by decide), horders ["s"] candidates ?_ fun name => ?_,
    hrecords _ (.swap _ _ _)⟩
  · exact ⟨List.nodup_singleton _, fun name => by simp [records, sampleSize, Fields.keys]⟩
  · by_cases hname : "s" = name
    · constructor <;> simp [candidates, votes, records, sampleSize, Fields.get?, hname, a, b]
    · constructor <;> simp [candidates, votes, records, sampleSize, Fields.get?, hname]

end Defaults
end TableNotation
