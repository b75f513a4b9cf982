import TableNotation.Proofs.Literal.Shape
import TableNotation.Proofs.Value.Mapping
/-!
# Literals read back

A literal that is written with one dictionary and read with another becomes the
value in which each text that was a reference for the writer is looked up by the
reader.  If the reader has the writer's dictionary, every reference is resolved.

* `parse_quote`, `parse_number`, `parse_list`, `parse_object`: literals of each kind.
* `parse_render`: reading undoes writing, but for references.
* `parse_render_self`: what a reader with the writer's dictionary finds.
-/

namespace TableNotation

/-- What a text becomes that is written with one dictionary and read with another. -/
def Dictionary.reread (writer reader : Dictionary) (s : String) : String :=
  if (writer.get? s).isSome then reader.resolveString s else s

/-- A reader with the dictionary of the writer resolves every reference. -/
theorem Dictionary.reread_self (dictionary : Dictionary) :
    dictionary.reread dictionary = dictionary.resolveString := by
  funext s
  unfold reread
  split
  · rfl
  · rename_i hs
    have hnone : dictionary.get? s = none := by simpa using hs
    rw [resolveString, hnone, Option.getD_none]

theorem Dictionary.reread_empty (reader : Dictionary) : reread .empty reader = id := by
  funext s
  have hnone : ¬ ((SortedMap.empty : Dictionary).get? s).isSome = true := by simp
  rw [reread, if_neg hnone, id_eq]

namespace Literal

/-- What stands between two signs is found between them. -/
theorem enclosed?_between (left right : Char) (s : List Char) :
    Text.enclosed? left right (left :: (s ++ [right])) = some s := by
  rw [Text.enclosed?, if_pos ⟨rfl, List.getLast?_concat⟩, List.dropLast_concat]

/-- Nothing is enclosed in a text that begins with another sign. -/
theorem enclosed?_of_head_ne {left right : Char} {s : List Char} (h : s.head? ≠ some left) :
    Text.enclosed? left right s = none := by
  cases s with
  | nil => rfl
  | cons c rest =>
    have hc : ¬ (c = left ∧ rest.getLast? = some right) := by
      rintro ⟨rfl, _⟩
      exact h rfl
    rw [Text.enclosed?, if_neg hc]

/-- A literal in a list does not stand in single quotes. -/
theorem withoutSingleQuotes_of_isLiteral {s : List Char} (h : IsLiteral s) :
    withoutSingleQuotes s = s := by
  rw [withoutSingleQuotes, enclosed?_of_head_ne (h.head_ne (by decide)), Option.getD_none]

/-- A literal that begins with none of the letters n, t and f is not a word. -/
theorem word?_of_head {c : Char} {rest : List Char} (hn : c ≠ 'n') (ht : c ≠ 't')
    (hf : c ≠ 'f') : word? (c :: rest) = none := by
  simp [word?, hn, ht, hf]

/-- If every entry can be read, all of them can. -/
theorem allSome_map_some {α : Type} (entries : List α) :
    allSome (entries.map some) = some entries := by
  induction entries with
  | nil => rfl
  | cons e rest ih => rw [List.map_cons, allSome, ih, Option.map_some]

variable (writer reader : Dictionary)

/-- A text in quotes is read as itself, whatever the dictionary. -/
theorem parse_quote (s : List Char) : parse reader (quote s) = .string (String.ofList s) := by
  have hword : word? (quote s) = none := word?_of_head (by decide) (by decide) (by decide)
  have hquote : Text.enclosed? '"' '"' (quote s) = some (escape s) := enclosed?_between _ _ _
  rw [parse_eq]
  simp only [(isLiteral_quote s).trim, hword, hquote, unescape_escape]

/-- A reference is looked up. -/
theorem parse_reference {s : String} (h : Dictionary.isReference s = true) :
    parse reader s.toList = .string (reader.resolveString s) := by
  obtain ⟨digits, hs, _⟩ := Dictionary.toList_of_isReference h
  have htrim : Text.trim ('#' :: digits) = '#' :: digits := hs ▸ (isLiteral_reference h).trim
  have hword : word? ('#' :: digits) = none := word?_of_head (by decide) (by decide) (by decide)
  have hquote : Text.enclosed? '"' '"' ('#' :: digits) = none := enclosed?_of_head_ne (by simp)
  have hback : String.ofList ('#' :: digits) = s := by rw [← hs, String.ofList_toList]
  rw [parse_eq, hs]
  simp only [htrim, hword, hquote, List.head?_cons, if_pos, hback]

/-- A number is read back exactly: its text has no sign that opens another literal. -/
theorem parse_number (n : Number) : parse reader (n.text floatLayout) = .number n := by
  have hhead : ∀ c, Number.isNumeric c = false → (n.text floatLayout).head? ≠ some c := by
    intro c hc heq
    have hmem := List.mem_of_head? heq
    rw [Number.isNumeric_of_mem_text (fun _ => rfl) hmem] at hc
    exact absurd hc (by decide)
  have hword : word? (n.text floatLayout) = none := by
    cases hs : n.text floatLayout with
    | nil => rfl
    | cons c rest =>
      rw [hs] at hhead
      apply word?_of_head
      · rintro rfl
        exact hhead 'n' (by decide) rfl
      · rintro rfl
        exact hhead 't' (by decide) rfl
      · rintro rfl
        exact hhead 'f' (by decide) rfl
  have hread : Number.read? (n.text floatLayout) = some n := Number.read?_text (fun _ => rfl) n
  rw [parse_eq]
  simp only [(isLiteral_number n).trim, hword, enclosed?_of_head_ne (hhead '"' (by decide)),
    if_neg (hhead '#' (by decide)), enclosed?_of_head_ne (hhead '[' (by decide)),
    enclosed?_of_head_ne (hhead '\x7b' (by decide)), parseBare, hread]

/-- A list of literals is read item by item. -/
theorem parse_list {parts : List (List Char)} (h : ∀ part ∈ parts, IsLiteral part) :
    parse reader ('[' :: (commaList parts ++ [']'])) = .array (parts.map (parse reader)) := by
  have hliteral : IsLiteral ('[' :: (commaList parts ++ [']'])) :=
    isLiteral_bracketed (.inl ⟨rfl, rfl⟩) fun part hp => (h part hp).isSlot
  have hslots : slots (commaList parts) = parts :=
    slots_of_isSlot fun part hp => (h part hp).isSlot
  have hitems : parts.map (fun item => parse reader (withoutSingleQuotes item))
      = parts.map (parse reader) := by
    apply List.map_congr_left
    intro part hp
    rw [withoutSingleQuotes_of_isLiteral (h part hp)]
  have hword : word? ('[' :: (commaList parts ++ [']'])) = none :=
    word?_of_head (by decide) (by decide) (by decide)
  have hquote : Text.enclosed? '"' '"' ('[' :: (commaList parts ++ [']'])) = none :=
    enclosed?_of_head_ne (by simp)
  have hhead : ¬ ('[' :: (commaList parts ++ [']'])).head? = some '#' := by simp
  rw [parse_eq]
  simp only [hliteral.trim, hword, hquote, if_neg hhead, enclosed?_between, hslots, hitems]

/-- An object is read entry by entry. -/
theorem parse_object {parts : List (List Char)} {fields : Fields}
    (h : ∀ part ∈ parts, IsSlot part)
    (hfields : parts.map (parseField? reader) = fields.map some)
    (hnames : (Fields.keys fields).Nodup) :
    parse reader ('\x7b' :: (commaList parts ++ ['\x7d'])) = .object fields := by
  have hliteral : IsLiteral ('\x7b' :: (commaList parts ++ ['\x7d'])) :=
    isLiteral_bracketed (.inr ⟨rfl, rfl⟩) h
  have hword : word? ('\x7b' :: (commaList parts ++ ['\x7d'])) = none :=
    word?_of_head (by decide) (by decide) (by decide)
  have hquote : Text.enclosed? '"' '"' ('\x7b' :: (commaList parts ++ ['\x7d'])) = none :=
    enclosed?_of_head_ne (by simp)
  have hlist : Text.enclosed? '[' ']' ('\x7b' :: (commaList parts ++ ['\x7d'])) = none :=
    enclosed?_of_head_ne (by simp)
  have hhead : ¬ ('\x7b' :: (commaList parts ++ ['\x7d'])).head? = some '#' := by simp
  rw [parse_eq]
  simp only [hliteral.trim, hword, hquote, if_neg hhead, hlist, enclosed?_between,
    slots_of_isSlot h, hfields, allSome_map_some, Fields.ofEntries_eq_self hnames]

/-- An entry of an object is read as its name and its value. -/
theorem parseField?_entry (name : String) {value : List Char} (h : IsLiteral value) :
    parseField? reader (quote name.toList ++ ':' :: ' ' :: value)
      = some (name, parse reader value) := by
  have htrim : Text.trim (' ' :: value) = value := by
    rw [Text.trim_blank_cons (by decide), h.trim]
  unfold parseField?
  rw [pair?_entry (uncoloned_quote _), (isLiteral_quote _).trim, htrim]
  simp only [parse_quote, String.ofList_toList]

variable {writer}

/-- A text comes back as itself if it was quoted, and is looked up if it was a reference. -/
theorem parse_renderString (hd : writer.HasReferences) (s : String) :
    parse reader (renderString writer s) = .string (writer.reread reader s) := by
  unfold renderString Dictionary.reread
  split
  · rename_i hs
    exact parse_reference reader (hd s hs)
  · rw [parse_quote, String.ofList_toList]

mutual

/-- Reading undoes writing, but for references: a text that was a reference for the
writer is looked up by the reader. -/
theorem parse_render (hd : writer.HasReferences) : ∀ v : Value, v.hasDistinctKeys →
    parse reader (render writer v) = v.mapStrings (writer.reread reader)
  | .null, _ => by
    rw [render, parse_eq]
    rfl
  | .bool true, _ => by
    rw [render, parse_eq]
    rfl
  | .bool false, _ => by
    rw [render, parse_eq]
    rfl
  | .number n, _ => by
    rw [render, parse_number]
    rfl
  | .string s, _ => by
    rw [render, parse_renderString reader hd]
    rfl
  | .array items, h => by
    rw [render, parse_list reader (isLiteral_renderItems hd items), parse_renderItems hd items h]
    rfl
  | .object fields, h => by
    have hnames : (Fields.keys (Value.mapFields (writer.reread reader) fields)).Nodup := by
      rw [Value.keys_mapFields]
      exact h.1
    rw [render, parse_object reader (isSlot_renderFields hd fields)
      (parse_renderFields hd fields h.2) hnames]
    rfl

/-- The same of the items of a list. -/
theorem parse_renderItems (hd : writer.HasReferences) : ∀ items : List Value,
    Value.itemsHaveDistinctKeys items → (renderItems writer items).map (parse reader)
      = Value.mapItems (writer.reread reader) items
  | [], _ => rfl
  | v :: rest, h => by
    rw [renderItems, List.map_cons, parse_render hd v h.1, parse_renderItems hd rest h.2]
    rfl

/-- The same of the fields of an object. -/
theorem parse_renderFields (hd : writer.HasReferences) : ∀ fields : List (String × Value),
    Value.fieldsHaveDistinctKeys fields → (renderFields writer fields).map (parseField? reader)
      = (Value.mapFields (writer.reread reader) fields).map some
  | [], _ => rfl
  | (k, v) :: rest, h => by
    rw [renderFields, List.map_cons, parseField?_entry reader k (isLiteral_render hd v),
      parse_render hd v h.1, parse_renderFields hd rest h.2]
    rfl

end

/-- A reader with the writer's dictionary resolves the references. -/
theorem parse_render_self (hd : writer.HasReferences) {v : Value} (h : v.hasDistinctKeys) :
    parse writer (render writer v) = writer.resolve v := by
  rw [parse_render writer hd v h, Dictionary.reread_self]
  rfl

end Literal
end TableNotation
