import Mathlib.Data.List.Find
import Mathlib.Data.Set.Function
import TableNotation.Proofs.Table.Inference
import TableNotation.Proofs.Table.RowLine
/-!
# Rows under other texts

Nothing that is decided about a table depends on what its texts are, only on which of them
are equal.  So if different texts are replaced by different ones, the defaults are replaced
with them, the same fields are left out, and a row holds the record that it would have held,
with other texts.

Where the defaults come from tells what a row can hold: each of its values is the value of
the field in some record of the table.

* `identical_mapStrings`, `same_mapStrings`: equality under other texts.
* `Layout.infer_map_mapFields`: layouts under other texts.
* `Row.restored_mapFields`: what a row holds under other texts.
* `Row.exists_of_mem_restored`: where it comes from.
* `Row.mapFields_restored_of_leftInvOn`: texts that are replaced and put back leave no trace.
-/

namespace TableNotation

/-! ### Texts and equality -/

namespace Value

/-- The texts in the value are among these texts. -/
def HasTextsIn (texts : Set String) (v : Value) : Prop := ∀ s ∈ v.strings, s ∈ texts

variable {f : String → String} {texts : Set String}

theorem strings_subset_of_mem {fields : List (String × Value)} {e : String × Value}
    (he : e ∈ fields) : e.2.strings ⊆ fieldStrings fields := by
  induction fields with
  | nil => exact absurd he List.not_mem_nil
  | cons first rest ih =>
    rw [fieldStrings]
    rcases List.mem_cons.1 he with rfl | he
    · exact List.subset_append_left _ _
    · exact List.subset_append_of_subset_right _ (ih he)

theorem strings_subset_of_mem_items {items : List Value} {v : Value} (hv : v ∈ items) :
    v.strings ⊆ itemStrings items := by
  induction items with
  | nil => exact absurd hv List.not_mem_nil
  | cons first rest ih =>
    rw [itemStrings]
    rcases List.mem_cons.1 hv with rfl | hv
    · exact List.subset_append_left _ _
    · exact List.subset_append_of_subset_right _ (ih hv)

/-- The texts of an object are those of its fields. -/
theorem hasTextsIn_object_iff {fields : List (String × Value)} :
    (object fields).HasTextsIn texts ↔ ∀ e ∈ fields, e.2.HasTextsIn texts := by
  constructor
  · intro h e he s hs
    exact h s (strings_subset_of_mem he hs)
  · intro h
    induction fields with
    | nil => exact fun _ hs => absurd hs List.not_mem_nil
    | cons first rest ih =>
      obtain ⟨hfirst, hrest⟩ := List.forall_mem_cons.1 h
      intro s hs
      rcases List.mem_append.1 hs with hs | hs
      · exact hfirst s hs
      · exact ih hrest s hs

theorem hasTextsIn_getOrNull {fields : Fields} (h : (object fields).HasTextsIn texts)
    (name : String) : (Fields.getOrNull name fields).HasTextsIn texts := by
  unfold Fields.getOrNull
  cases hfound : Fields.get? name fields with
  | none => exact fun _ hs => absurd hs List.not_mem_nil
  | some v => exact hasTextsIn_object_iff.1 h _ (Fields.mem_of_get? hfound)

@[simp] theorem isScalar_mapStrings (v : Value) : (v.mapStrings f).isScalar = v.isScalar := by
  cases v <;> rfl

@[simp] theorem kind_mapStrings (v : Value) : (v.mapStrings f).kind = v.kind := by
  cases v <;> rfl

theorem beq_map_eq (hf : Set.InjOn f texts) {s t : String} (hs : s ∈ texts) (ht : t ∈ texts) :
    (f s == f t) = (s == t) := by
  rw [Bool.eq_iff_iff, beq_iff_eq, beq_iff_eq]
  exact hf.eq_iff hs ht

/-- Whether values are identical does not depend on what their texts are. -/
theorem identical_mapStrings (hf : Set.InjOn f texts) {v w : Value} (hv : v.HasTextsIn texts)
    (hw : w.HasTextsIn texts) : (v.mapStrings f).identical (w.mapStrings f) = v.identical w := by
  cases v with
  | string s =>
    cases w with
    | string t => exact beq_map_eq hf (hv s List.mem_cons_self) (hw t List.mem_cons_self)
    | _ => rfl
  | _ => cases w <;> rfl

/-- Nor does it matter for whether a scalar and a value are the same. -/
theorem same_mapStrings (hf : Set.InjOn f texts) {v w : Value} (hscalar : v.isScalar = true)
    (hv : v.HasTextsIn texts) (hw : w.HasTextsIn texts) :
    (v.mapStrings f).same (w.mapStrings f) = v.same w := by
  cases v with
  | string s =>
    cases w with
    | string t => exact beq_map_eq hf (hv s List.mem_cons_self) (hw t List.mem_cons_self)
    | _ => rfl
  | array items => exact absurd hscalar Bool.false_ne_true
  | object fields => exact absurd hscalar Bool.false_ne_true
  | _ => cases w <;> rfl

end Value

variable {f : String → String} {texts : Set String} {records : List Record}

/-! ### Defaults and layouts -/

namespace Defaults

/-- The most frequent scalar is replaced with the others. -/
theorem majority?_map_mapStrings (hf : Set.InjOn f texts) {values : List Value}
    (h : ∀ v ∈ values, v.HasTextsIn texts) :
    majority? (values.map (Value.mapStrings f)) = (majority? values).map (Value.mapStrings f) := by
  have hscalars : (values.map (Value.mapStrings f)).all Value.isScalar
      = values.all Value.isScalar := by
    rw [List.all_map]
    exact congrArg values.all (funext Value.isScalar_mapStrings)
  have hoccurrences : ∀ v ∈ values,
      occurrences (v.mapStrings f) (values.map (Value.mapStrings f)) = occurrences v values := by
    intro v hv
    unfold occurrences
    rw [List.countP_map]
    apply List.countP_congr
    intro w hw
    rw [Function.comp, Value.identical_mapStrings hf (h v hv) (h w hw)]
  unfold majority?
  rw [hscalars, List.find?_map, List.length_map]
  split
  · apply congrArg (Option.map (Value.mapStrings f))
    apply List.find?_congr
    intro v hv
    rw [Function.comp, hoccurrences v hv]
  · rfl

/-- The values of a field in the records that are looked at. -/
theorem filterMap_get?_map_mapFields (name : String) (records : List Record) :
    (records.map (Value.mapFields f)).filterMap (Fields.get? name)
      = (records.filterMap (Fields.get? name)).map (Value.mapStrings f) := by
  rw [List.filterMap_map, List.map_filterMap]
  exact congrArg (records.filterMap ·) (funext fun record => Value.get?_mapFields f name record)

/-- The defaults are replaced with the texts of the records. -/
theorem infer_map_mapFields (hf : Set.InjOn f texts)
    (h : ∀ record ∈ records, (Value.object record).HasTextsIn texts) :
    infer (records.map (Value.mapFields f)) = (infer records).mapValues (Value.mapStrings f) := by
  have hnames : ∀ sample : List Record,
      (sample.map (Value.mapFields f)).flatMap Fields.keys = sample.flatMap Fields.keys := by
    intro sample
    rw [List.flatMap_map]
    exact congrArg (sample.flatMap ·) (funext (Value.keys_mapFields f))
  have hmajority : ∀ name,
      majority? (((records.take sampleSize).filterMap (Fields.get? name)).map (Value.mapStrings f))
        = (majority? ((records.take sampleSize).filterMap (Fields.get? name))).map
          (Value.mapStrings f) := by
    intro name
    apply majority?_map_mapStrings hf
    intro v hv
    obtain ⟨record, hrecord, hfound⟩ := List.mem_filterMap.1 hv
    exact Value.hasTextsIn_object_iff.1 (h record (List.mem_of_mem_take hrecord)) _
      (Fields.mem_of_get? hfound)
  unfold infer
  dsimp only
  rw [← List.map_take, hnames, ← SortedMap.ofList_map, List.map_filterMap]
  congr 2
  funext name
  rw [filterMap_get?_map_mapFields, hmajority, Option.map_map, Option.map_map]
  rfl

end Defaults

namespace Layout

/-- The layout with the texts in its defaults replaced. -/
def mapStrings (f : String → String) (layout : Layout) : Layout :=
  ⟨layout.schema, layout.defaults.mapValues (Value.mapStrings f)⟩

/-- The layout is replaced with the texts of the records. -/
theorem infer_map_mapFields (hf : Set.InjOn f texts) (optimize : Bool)
    (h : ∀ record ∈ records, (Value.object record).HasTextsIn texts) :
    infer optimize (records.map (Value.mapFields f)) = (infer optimize records).mapStrings f := by
  cases records with
  | nil => rfl
  | cons first rest =>
    have hschema : Schema.ofRecord (Value.mapFields f first) = Schema.ofRecord first := by
      rw [Schema.ofRecord, Value.mapFields_eq_map, List.map_map]
      apply List.map_congr_left
      intro e _
      exact congrArg (Prod.mk e.1) (Value.kind_mapStrings e.2)
    have hdefaults := Defaults.infer_map_mapFields hf h
    rw [List.map_cons] at hdefaults ⊢
    unfold infer mapStrings
    dsimp only
    rw [hschema, hdefaults]
    cases optimize <;> rfl

end Layout

/-! ### Rows -/

namespace Row

/-- The defaults of a layout are scalars with texts among these. -/
def HasDefaultsIn (texts : Set String) (layout : Layout) : Prop :=
  ∀ name v, layout.defaults.get? name = some v → v.isScalar = true ∧ v.HasTextsIn texts

theorem hasDefaultsIn_infer (optimize : Bool)
    (h : ∀ record ∈ records, (Value.object record).HasTextsIn texts) :
    HasDefaultsIn texts (Layout.infer optimize records) := by
  intro name v hdefault
  obtain ⟨record, hrecord, hfound⟩ := Defaults.exists_get?_of_get?_infer
    (Layout.get?_defaults_of_infer optimize records hdefault)
  exact ⟨Layout.isScalar_of_get?_infer optimize records hdefault,
    Value.hasTextsIn_object_iff.1 (h record hrecord) _ (Fields.mem_of_get? hfound)⟩

variable {layout : Layout} {record : Record}

/-- Whether a value need not be written does not depend on what its texts are. -/
theorem isDefault_mapStrings (hf : Set.InjOn f texts) (hlayout : HasDefaultsIn texts layout)
    {v : Value} (hv : v.HasTextsIn texts) (name : String) :
    (layout.mapStrings f).isDefault name (v.mapStrings f) = layout.isDefault name v := by
  unfold Layout.isDefault Layout.mapStrings
  dsimp only
  rw [SortedMap.get?_mapValues]
  cases hdefault : layout.defaults.get? name with
  | none => rfl
  | some default =>
    obtain ⟨hscalar, htexts⟩ := hlayout name default hdefault
    exact Value.same_mapStrings hf hscalar htexts hv

theorem isElided_mapFields (hf : Set.InjOn f texts) (hlayout : HasDefaultsIn texts layout)
    (hrecord : (Value.object record).HasTextsIn texts) :
    isElided (layout.mapStrings f) (Value.mapFields f record) = isElided layout record := by
  have hcolumn : ∀ column : String × Kind,
      (layout.mapStrings f).isDefault column.1
          (Fields.getOrNull column.1 (Value.mapFields f record))
        = layout.isDefault column.1 (Fields.getOrNull column.1 record) := by
    intro column
    rw [Value.getOrNull_mapFields]
    exact isDefault_mapStrings hf hlayout (Value.hasTextsIn_getOrNull hrecord column.1) column.1
  exact congrArg layout.schema.all (funext hcolumn)

/-- What is shown in a column is the default or the value. -/
theorem shown_eq_ite (layout : Layout) (record : Record) (name : String) :
    shown layout record name = if layout.isDefault name (Fields.getOrNull name record)
      then (layout.defaults.get? name).getD .null else Fields.getOrNull name record := by
  unfold shown Layout.isDefault
  cases layout.defaults.get? name with
  | none => rfl
  | some default => rfl

theorem shown_mapFields (hf : Set.InjOn f texts) (hlayout : HasDefaultsIn texts layout)
    (hrecord : (Value.object record).HasTextsIn texts) (name : String) :
    shown (layout.mapStrings f) (Value.mapFields f record) name
      = (shown layout record name).mapStrings f := by
  have hdefault := isDefault_mapStrings hf hlayout (Value.hasTextsIn_getOrNull hrecord name) name
  have hget : (layout.mapStrings f).defaults.get? name
      = (layout.defaults.get? name).map (Value.mapStrings f) := SortedMap.get?_mapValues ..
  rw [shown_eq_ite, shown_eq_ite, Value.getOrNull_mapFields, hdefault, hget]
  split
  · cases layout.defaults.get? name <;> rfl
  · rfl

/-- A row holds the record that it would have held, with the texts replaced. -/
theorem restored_mapFields (hf : Set.InjOn f texts) (hlayout : HasDefaultsIn texts layout)
    (hrecord : (Value.object record).HasTextsIn texts) :
    restored (layout.mapStrings f) (Value.mapFields f record)
      = Value.mapFields f (restored layout record) := by
  have hschema : (layout.mapStrings f).schema = layout.schema := rfl
  unfold restored
  rw [hschema, isElided_mapFields hf hlayout hrecord]
  cases layout.schema with
  | nil => rfl
  | cons first rest =>
    have hrest : (rest.map fun column =>
          (column.1, shown (layout.mapStrings f) (Value.mapFields f record) column.1))
        = Value.mapFields f (rest.map fun column => (column.1, shown layout record column.1)) := by
      rw [Value.mapFields_eq_map f (rest.map _), List.map_map]
      apply List.map_congr_left
      intro column _
      exact congrArg (Prod.mk column.1) (shown_mapFields hf hlayout hrecord column.1)
    dsimp only
    rw [Value.mapFields, hrest, shown_mapFields hf hlayout hrecord, Value.getOrNull_mapFields]
    split <;> rfl

/-- What is shown is the value of the column in some record of the table. -/
theorem exists_shown_eq {optimize : Bool} (hrecord : record ∈ records) (name : String) :
    ∃ source ∈ records,
      shown (Layout.infer optimize records) record name = Fields.getOrNull name source := by
  unfold shown
  cases hdefault : (Layout.infer optimize records).defaults.get? name with
  | none => exact ⟨record, hrecord, rfl⟩
  | some default =>
    by_cases hsame : default.same (Fields.getOrNull name record) = true
    · obtain ⟨source, hsource, hfound⟩ := Defaults.exists_get?_of_get?_infer
        (Layout.get?_defaults_of_infer optimize records hdefault)
      refine ⟨source, hsource, ?_⟩
      dsimp only
      rw [if_pos hsame, Fields.getOrNull, hfound, Option.getD_some]
    · refine ⟨record, hrecord, ?_⟩
      dsimp only
      rw [if_neg hsame]

/-- So is every value in a row. -/
theorem exists_of_mem_restored {optimize : Bool} (hrecord : record ∈ records)
    {e : String × Value} (he : e ∈ restored (Layout.infer optimize records) record) :
    ∃ source ∈ records, e.2 = Fields.getOrNull e.1 source := by
  unfold restored at he
  cases hschema : (Layout.infer optimize records).schema with
  | nil =>
    rw [hschema] at he
    exact absurd he List.not_mem_nil
  | cons first rest =>
    rw [hschema] at he
    rcases List.mem_cons.1 he with rfl | he
    · dsimp only
      split
      · exact ⟨record, hrecord, rfl⟩
      · exact exists_shown_eq hrecord first.1
    · obtain ⟨column, _, rfl⟩ := List.mem_map.1 he
      exact exists_shown_eq hrecord column.1

/-- What is read back from a row whose texts were replaced, with the texts put back. -/
theorem mapFields_restored_of_leftInvOn {g : String → String} (optimize : Bool)
    (hg : Set.LeftInvOn g f texts)
    (h : ∀ record ∈ records, (Value.object record).HasTextsIn texts) (hrecord : record ∈ records) :
    Value.mapFields g (restored (Layout.infer optimize (records.map (Value.mapFields f)))
        (Value.mapFields f record))
      = restored (Layout.infer optimize records) record := by
  have hf : Set.InjOn f texts := hg.injOn
  rw [Layout.infer_map_mapFields hf optimize h,
    restored_mapFields hf (hasDefaultsIn_infer optimize h) (h record hrecord),
    Value.mapFields_mapFields]
  apply Value.mapFields_eq_self
  intro s hs
  have htexts :
      (Value.object (restored (Layout.infer optimize records) record)).HasTextsIn texts := by
    rw [Value.hasTextsIn_object_iff]
    intro e he
    obtain ⟨source, hsource, hvalue⟩ := exists_of_mem_restored hrecord he
    rw [hvalue]
    exact Value.hasTextsIn_getOrNull (h source hsource) e.1
  exact hg (htexts s hs)

end Row

end TableNotation
