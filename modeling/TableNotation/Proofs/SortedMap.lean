import TableNotation.SortedMap
/-!
# Maps rebuilt and mapped

A map is the map of its own entries, so what is written entry by entry is read as
the same map; and its values can be replaced without touching the keys.

* `ofList_entries`: a map is rebuilt from its entries.
* `ofList_map`, `ofList_mapped`: and with other values from entries with other values.
* `mem_of_get?_ofList`, `get?_ofList_iff`, `perm_entries_ofList`: what is found in a map that was
  built from entries.
-/

namespace TableNotation.SortedMap

variable {α β : Type}

theorem eq_empty_of_isEmpty {m : SortedMap α} (h : m.isEmpty = true) : m = empty := by
  apply ext
  intro key
  have hentries : m.entries = [] := List.isEmpty_iff.1 h
  rw [get?, hentries]
  rfl

/-- The map with each value replaced. -/
def mapValues (f : α → β) (m : SortedMap α) : SortedMap β :=
  ⟨m.entries.map fun e => (e.1, f e.2), List.pairwise_map.2 m.increasing⟩

theorem find_mapValues (f : α → β) (key : String) (entries : List (String × α)) :
    find key (entries.map fun e => (e.1, f e.2)) = (find key entries).map f := by
  induction entries with
  | nil => rfl
  | cons e rest ih =>
    obtain ⟨k, v⟩ := e
    rw [List.map_cons, find, find]
    split
    · rfl
    · exact ih

/-- A lookup finds the replaced value. -/
@[simp] theorem get?_mapValues (f : α → β) (m : SortedMap α) (key : String) :
    (m.mapValues f).get? key = (m.get? key).map f :=
  find_mapValues f key m.entries

/-- Entries with increasing keys, inserted one after the other, are found like in their
list. -/
theorem get?_foldl_insert {entries : List (String × α)}
    (h : entries.Pairwise fun a b => a.1 < b.1) (start : SortedMap α) (key : String) :
    (entries.foldl (fun m e => m.insert e.1 e.2) start).get? key
      = (find key entries).or (start.get? key) := by
  induction entries generalizing start with
  | nil => rfl
  | cons e rest ih =>
    obtain ⟨hfirst, hrest⟩ := List.pairwise_cons.1 h
    rw [List.foldl_cons, ih hrest, get?_insert, find]
    split
    · rename_i heq
      subst heq
      have hnone : find e.1 rest = none := by
        cases hv : find e.1 rest with
        | none => rfl
        | some v =>
          have hlt := hfirst _ ((find_eq_some_iff hrest).1 hv)
          exact absurd hlt (String.lt_irrefl _)
      rw [hnone]
      rfl
    · rfl

/-- A map is rebuilt from its entries. -/
theorem ofList_entries (m : SortedMap α) : ofList m.entries = m := by
  apply ext
  intro key
  have hfound := get?_foldl_insert m.increasing empty key
  rw [get?_empty, Option.or_none] at hfound
  exact hfound

theorem insert_mapValues (f : α → β) (m : SortedMap α) (key : String) (value : α) :
    (m.mapValues f).insert key (f value) = (m.insert key value).mapValues f := by
  apply ext
  intro k
  rw [get?_insert, get?_mapValues, get?_mapValues, get?_insert]
  split <;> rfl

/-- Values can be replaced before or after a map is built. -/
theorem ofList_map (f : α → β) (entries : List (String × α)) :
    ofList (entries.map fun e => (e.1, f e.2)) = (ofList entries).mapValues f := by
  have hfold : ∀ start : SortedMap α,
      (entries.map fun e => (e.1, f e.2)).foldl (fun m e => m.insert e.1 e.2) (start.mapValues f)
        = (entries.foldl (fun m e => m.insert e.1 e.2) start).mapValues f := by
    induction entries with
    | nil => exact fun _ => rfl
    | cons e rest ih =>
      intro start
      rw [List.map_cons, List.foldl_cons, List.foldl_cons, insert_mapValues, ih]
  exact hfold empty

/-- A map with other values is rebuilt from the entries with these values. -/
theorem ofList_mapped (f : α → β) (m : SortedMap α) :
    ofList (m.entries.map fun e => (e.1, f e.2)) = m.mapValues f := by
  rw [ofList_map, ofList_entries]

/-- What is found in a map was among the entries that it was built from. -/
theorem mem_of_get?_ofList {entries : List (String × α)} {key : String} {value : α}
    (h : (ofList entries).get? key = some value) : (key, value) ∈ entries := by
  have hstep : ∀ (entries : List (String × α)) (start : SortedMap α),
      (entries.foldl (fun m e => m.insert e.1 e.2) start).get? key = some value →
        (key, value) ∈ entries ∨ start.get? key = some value := by
    intro entries
    induction entries with
    | nil => exact fun start h => .inr h
    | cons e rest ih =>
      intro start h
      rcases ih (start.insert e.1 e.2) h with hmem | hstart
      · exact .inl (List.mem_cons_of_mem _ hmem)
      · rw [get?_insert] at hstart
        split at hstart
        · rename_i heq
          obtain rfl := Option.some.inj hstart
          rw [← heq]
          exact .inl List.mem_cons_self
        · exact .inr hstart
  rcases hstep entries empty h with hmem | hempty
  · exact hmem
  · exact absurd hempty (by simp)

/-- If no two entries have the same key, all of them are found. -/
theorem get?_ofList_iff {entries : List (String × α)} (h : (entries.map Prod.fst).Nodup)
    {key : String} {value : α} :
    (ofList entries).get? key = some value ↔ (key, value) ∈ entries := by
  have hkeep : ∀ (entries : List (String × α)) (start : SortedMap α),
      key ∉ entries.map Prod.fst →
        (entries.foldl (fun m e => m.insert e.1 e.2) start).get? key = start.get? key := by
    intro entries
    induction entries with
    | nil => exact fun _ _ => rfl
    | cons e rest ih =>
      intro start hkey
      obtain ⟨hfirst, hrest⟩ := not_or.1 (mt List.mem_cons.2 hkey)
      rw [List.foldl_cons, ih _ hrest, get?_insert, if_neg (Ne.symm hfirst)]
  refine ⟨mem_of_get?_ofList, fun hmem => ?_⟩
  obtain ⟨before, behind, rfl⟩ := List.append_of_mem hmem
  rw [List.map_append, List.map_cons] at h
  have hbehind : key ∉ behind.map Prod.fst :=
    (List.nodup_cons.1 (List.nodup_append.1 h).2.1).1
  rw [ofList, List.foldl_append, List.foldl_cons, hkeep behind _ hbehind, get?_insert, if_pos rfl]

theorem nodup_entries (m : SortedMap α) : m.entries.Nodup := by
  apply m.increasing.imp
  intro a b hlt hab
  rw [hab] at hlt
  exact String.lt_irrefl _ hlt

/-- Then the map has these entries, in another order. -/
theorem perm_entries_ofList {entries : List (String × α)} (h : (entries.map Prod.fst).Nodup) :
    (ofList entries).entries.Perm entries := by
  have hentries : entries.Nodup :=
    List.Pairwise.of_map Prod.fst (fun _ _ hne hab => hne (congrArg Prod.fst hab)) h
  rw [List.perm_ext_iff_of_nodup (nodup_entries _) hentries]
  intro e
  rw [← get?_ofList_iff h, get?_eq_some_iff]

/-- A map of some names with values. -/
theorem get?_ofList_filterMap {names : List String} (h : names.Nodup) (f : String → Option α)
    {name : String} {value : α} :
    (ofList (names.filterMap fun name => (f name).map fun v => (name, v))).get? name = some value ↔
      name ∈ names ∧ f name = some value := by
  have hkeys : ((names.filterMap fun name => (f name).map fun v => (name, v)).map
      Prod.fst).Nodup := by
    have hsublist : ∀ names : List String,
        ((names.filterMap fun name => (f name).map fun v => (name, v)).map Prod.fst).Sublist
          names := by
      intro names
      induction names with
      | nil => exact List.Sublist.refl _
      | cons first rest ih =>
        rw [List.filterMap_cons]
        cases f first with
        | none => exact ih.cons first
        | some v => exact ih.cons_cons first
    exact h.sublist (hsublist names)
  rw [get?_ofList_iff hkeys, List.mem_filterMap]
  constructor
  · rintro ⟨key, hkey, hentry⟩
    obtain ⟨v, hv, hpair⟩ := Option.map_eq_some_iff.1 hentry
    obtain ⟨rfl, rfl⟩ := Prod.mk.inj hpair
    exact ⟨hkey, hv⟩
  · rintro ⟨hname, hvalue⟩
    exact ⟨name, hname, by rw [hvalue, Option.map_some]⟩

end TableNotation.SortedMap
