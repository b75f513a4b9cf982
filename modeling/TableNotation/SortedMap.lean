/-!
# Finite maps with text keys, in key order

A map is the list of its entries with strictly increasing keys, in the order
of code points.  The order is part of the type, so two maps with the same
answers are equal.

* `SortedMap.get?_insert` says what a lookup finds after an insertion;
* `SortedMap.ext` says that lookups determine the map.
-/

namespace TableNotation

/-- A finite map from texts, as its entries in key order. -/
structure SortedMap (α : Type) where
  entries : List (String × α)
  increasing : entries.Pairwise fun a b => a.1 < b.1

namespace SortedMap

variable {α : Type}

/-- The map without entries. -/
def empty : SortedMap α := ⟨[], .nil⟩

instance : Inhabited (SortedMap α) := ⟨empty⟩

/-- The value of the first entry under a key. -/
def find (key : String) : List (String × α) → Option α
  | [] => none
  | (k, v) :: rest => if k = key then some v else find key rest

/-- The entries with `key` set to `value`, in key order. -/
def place (key : String) (value : α) : List (String × α) → List (String × α)
  | [] => [(key, value)]
  | (k, v) :: rest =>
    if key < k then (key, value) :: (k, v) :: rest
    else if k = key then (key, value) :: rest
    else (k, v) :: place key value rest

theorem key_of_mem_place {key : String} {value : α} {entries : List (String × α)}
    {e : String × α} (h : e ∈ place key value entries) : e.1 = key ∨ e ∈ entries := by
  induction entries with
  | nil => simp only [place, List.mem_singleton] at h; simp [h]
  | cons head rest ih =>
    obtain ⟨k, v⟩ := head
    rw [place] at h
    split at h
    · rcases List.mem_cons.1 h with rfl | h
      · exact .inl rfl
      · exact .inr h
    · split at h
      · rcases List.mem_cons.1 h with rfl | h
        · exact .inl rfl
        · exact .inr (List.mem_cons_of_mem _ h)
      · rcases List.mem_cons.1 h with rfl | h
        · exact .inr List.mem_cons_self
        · exact (ih h).imp_right (List.mem_cons_of_mem _)

private theorem lt_of_not_lt_of_ne {a b : String} (h : ¬ b < a) (hne : a ≠ b) : a < b := by
  by_cases hlt : a < b
  · exact hlt
  · exact absurd (String.le_antisymm (String.not_lt.1 h) (String.not_lt.1 hlt)) hne

theorem place_increasing {key : String} {value : α} {entries : List (String × α)}
    (h : entries.Pairwise fun a b => a.1 < b.1) :
    (place key value entries).Pairwise fun a b => a.1 < b.1 := by
  induction entries with
  | nil => simp [place]
  | cons head rest ih =>
    obtain ⟨k, v⟩ := head
    obtain ⟨hk, hrest⟩ := List.pairwise_cons.1 h
    rw [place]
    split
    · rename_i hlt
      refine List.pairwise_cons.2 ⟨fun e he => ?_, h⟩
      rcases List.mem_cons.1 he with rfl | he
      · exact hlt
      · exact String.lt_trans hlt (hk e he)
    · rename_i hlt
      split
      · rename_i heq
        subst heq
        exact List.pairwise_cons.2 ⟨hk, hrest⟩
      · rename_i hne
        refine List.pairwise_cons.2 ⟨fun e he => ?_, ih hrest⟩
        rcases key_of_mem_place he with h' | h'
        · rw [h']; exact lt_of_not_lt_of_ne hlt hne
        · exact hk e h'

/-- The value under a key. -/
def get? (m : SortedMap α) (key : String) : Option α := find key m.entries

/-- The map with `key` set to `value`; an earlier value is replaced. -/
def insert (m : SortedMap α) (key : String) (value : α) : SortedMap α :=
  ⟨place key value m.entries, place_increasing m.increasing⟩

/-- The map of a list of entries, a later one replacing an earlier one with the
same key. -/
def ofList (entries : List (String × α)) : SortedMap α :=
  entries.foldl (fun m e => m.insert e.1 e.2) empty

/-- The keys, in order. -/
def keys (m : SortedMap α) : List String := m.entries.map Prod.fst

/-- Whether the map has no entries. -/
def isEmpty (m : SortedMap α) : Bool := m.entries.isEmpty

/-- The number of entries. -/
def size (m : SortedMap α) : Nat := m.entries.length

@[simp] theorem get?_empty (key : String) : (empty : SortedMap α).get? key = none := rfl

theorem find_place (key k : String) (value : α) (entries : List (String × α)) :
    find k (place key value entries) = if key = k then some value else find k entries := by
  induction entries with
  | nil => simp [place, find]
  | cons head rest ih =>
    obtain ⟨k', v⟩ := head
    rw [place]
    split
    · simp [find]
    · split
      · rename_i heq
        subst heq
        by_cases h : k' = k <;> simp [find, h]
      · rename_i hne
        by_cases h : k' = k
        · subst h; simp [find, Ne.symm hne]
        · simp [find, h, ih]

/-- A lookup after an insertion finds the new value under its key and the old
one elsewhere. -/
@[simp] theorem get?_insert (m : SortedMap α) (key k : String) (value : α) :
    (m.insert key value).get? k = if key = k then some value else m.get? k :=
  find_place key k value m.entries

theorem find_eq_some_iff {entries : List (String × α)}
    (h : entries.Pairwise fun a b => a.1 < b.1) {key : String} {value : α} :
    find key entries = some value ↔ (key, value) ∈ entries := by
  induction entries with
  | nil => simp [find]
  | cons head rest ih =>
    obtain ⟨k, v⟩ := head
    obtain ⟨hk, hrest⟩ := List.pairwise_cons.1 h
    by_cases heq : k = key
    · subst heq
      have : (k, value) ∉ rest := fun hm => String.lt_irrefl k (hk _ hm)
      simp [find, this, eq_comm]
    · simp [find, heq, ih hrest, Ne.symm heq]

/-- A lookup finds exactly the entries of the map. -/
theorem get?_eq_some_iff {m : SortedMap α} {key : String} {value : α} :
    m.get? key = some value ↔ (key, value) ∈ m.entries :=
  find_eq_some_iff m.increasing

private theorem eq_of_mem_iff {xs ys : List (String × α)}
    (hx : xs.Pairwise fun a b => a.1 < b.1) (hy : ys.Pairwise fun a b => a.1 < b.1)
    (h : ∀ e, e ∈ xs ↔ e ∈ ys) : xs = ys := by
  induction xs generalizing ys with
  | nil =>
    cases ys with
    | nil => rfl
    | cons y ys => exact absurd ((h y).2 List.mem_cons_self) (by simp)
  | cons x xs ih =>
    cases ys with
    | nil => exact absurd ((h x).1 List.mem_cons_self) (by simp)
    | cons y ys =>
      obtain ⟨hx1, hx2⟩ := List.pairwise_cons.1 hx
      obtain ⟨hy1, hy2⟩ := List.pairwise_cons.1 hy
      have hxy : x = y := by
        rcases List.mem_cons.1 ((h x).1 List.mem_cons_self) with rfl | hm
        · rfl
        · rcases List.mem_cons.1 ((h y).2 List.mem_cons_self) with rfl | hm'
          · rfl
          · exact absurd (hx1 y hm') (String.lt_asymm (hy1 x hm))
      subst hxy
      congr 1
      refine ih hx2 hy2 fun e => ⟨fun he => ?_, fun he => ?_⟩
      · rcases List.mem_cons.1 ((h e).1 (List.mem_cons_of_mem _ he)) with rfl | h'
        · exact absurd (hx1 _ he) (String.lt_irrefl _)
        · exact h'
      · rcases List.mem_cons.1 ((h e).2 (List.mem_cons_of_mem _ he)) with rfl | h'
        · exact absurd (hy1 _ he) (String.lt_irrefl _)
        · exact h'

/-- Two maps with the same answers are equal. -/
theorem ext {m n : SortedMap α} (h : ∀ key, m.get? key = n.get? key) : m = n := by
  have : m.entries = n.entries := by
    refine eq_of_mem_iff m.increasing n.increasing fun e => ?_
    obtain ⟨k, v⟩ := e
    rw [← get?_eq_some_iff, ← get?_eq_some_iff, h]
  cases m; cases n; simp_all

end SortedMap
end TableNotation
