import TableNotation.Dictionary
import TableNotation.Literal.Escape
import TableNotation.Literal.Split
import TableNotation.Number.Reading
import TableNotation.Text.Pieces
/-!
# Literals

A literal is the text of a value in a row: `null`, `true`, `false`, a number, a
text in quotes, a reference of the dictionary, a list `[a, b]` or an object with
quoted names and colons, in braces.

* `Literal.render` writes a value; a text that is a reference of the dictionary
  stands bare, every other text is quoted.
* `Literal.parse` reads a literal and never fails: what is nothing else is a text
  that stands for itself.
-/

namespace TableNotation.Literal

/-- Doubles are always written positionally, with a point. -/
def floatLayout : FloatLayout := ⟨fun _ => true, .up⟩

/-- Texts with a comma and a blank between any two. -/
def commaList (parts : List (List Char)) : List Char := Text.joined [',', ' '] parts

/-- The literal of a text: bare if it is a reference, and quoted otherwise. -/
def renderString (dictionary : Dictionary) (s : String) : List Char :=
  if (dictionary.get? s).isSome then s.toList else quote s.toList

mutual

/-- The literal of a value. -/
def render (dictionary : Dictionary) : Value → List Char
  | .null => ['n', 'u', 'l', 'l']
  | .bool true => ['t', 'r', 'u', 'e']
  | .bool false => ['f', 'a', 'l', 's', 'e']
  | .number n => n.text floatLayout
  | .string s => renderString dictionary s
  | .array items => '[' :: (commaList (renderItems dictionary items) ++ [']'])
  | .object fields => '\x7b' :: (commaList (renderFields dictionary fields) ++ ['\x7d'])

/-- The literals of the items of a list. -/
def renderItems (dictionary : Dictionary) : List Value → List (List Char)
  | [] => []
  | v :: rest => render dictionary v :: renderItems dictionary rest

/-- The entries of an object: quoted names and literals. -/
def renderFields (dictionary : Dictionary) : List (String × Value) → List (List Char)
  | [] => []
  | (k, v) :: rest =>
    (quote k.toList ++ ':' :: ' ' :: render dictionary v) :: renderFields dictionary rest

end

/-- The value of a word. -/
def word? (s : List Char) : Option Value :=
  if s = ['n', 'u', 'l', 'l'] then some .null
  else if s = ['t', 'r', 'u', 'e'] then some (.bool true)
  else if s = ['f', 'a', 'l', 's', 'e'] then some (.bool false)
  else none

/-- A text without the single quotes around it, if there are any. -/
def withoutSingleQuotes (s : List Char) : List Char :=
  (Text.enclosed? '\'' '\'' s).getD s

/-- All values of a list of which none is missing. -/
def allSome {α : Type} : List (Option α) → Option (List α)
  | [] => some []
  | none :: _ => none
  | some a :: rest => (allSome rest).map (a :: ·)

/-- The value of a text that is neither quoted nor bracketed: a number, or the
text itself. -/
def parseBare (s : List Char) : Value :=
  match Number.read? s with
  | some n => .number n
  | none => .string (String.ofList s)

theorem length_enclosed? {left right : Char} {s inner : List Char}
    (h : Text.enclosed? left right s = some inner) : inner.length < s.length := by
  cases s with
  | nil => simp [Text.enclosed?] at h
  | cons c rest =>
    simp only [Text.enclosed?] at h
    split at h
    · simp only [Option.some.injEq] at h
      subst h
      simp only [List.length_dropLast, List.length_cons]
      omega
    · simp at h

theorem length_withoutSingleQuotes_le (s : List Char) :
    (withoutSingleQuotes s).length ≤ s.length := by
  rw [withoutSingleQuotes]
  cases h : Text.enclosed? '\'' '\'' s with
  | none => simp
  | some inner => exact Nat.le_of_lt (length_enclosed? h)

/-- The value of a literal.  The items of a list may stand in single quotes, and
braces around anything but entries with a text as name are not an object. -/
def parse (dictionary : Dictionary) (text : List Char) : Value :=
  let s := Text.trim text
  match word? s with
  | some v => v
  | none =>
    match Text.enclosed? '"' '"' s with
    | some inner => .string (String.ofList (unescape inner))
    | none =>
      if s.head? = some '#' then .string (dictionary.resolveString (String.ofList s))
      else match _hs : Text.enclosed? '[' ']' s with
        | some inner =>
          .array ((slots inner).attach.map fun ⟨item, _hi⟩ =>
            parse dictionary (withoutSingleQuotes item))
        | none =>
          match _hs : Text.enclosed? '\x7b' '\x7d' s with
          | some inner =>
            let entries := (slots inner).attach.map fun ⟨entry, _hi⟩ =>
              match _hp : pair? entry with
              | none => none
              | some (key, value) =>
                match parse dictionary key with
                | .string name => some (name, parse dictionary value)
                | _ => none
            match allSome entries with
            | some entries => .object (Fields.ofEntries entries)
            | none => parseBare s
          | none => parseBare s
termination_by text.length
decreasing_by
  · have := length_withoutSingleQuotes_le item
    have := length_le_of_mem_slots _hi
    have := length_enclosed? _hs
    have : s.length ≤ text.length := length_trim_le text
    omega
  all_goals
    have := length_lt_of_pair? _hp
    have := length_le_of_mem_slots _hi
    have := length_enclosed? _hs
    have : s.length ≤ text.length := length_trim_le text
    omega

/-- The name and the value of an entry of an object, when its name is a text. -/
def parseField? (dictionary : Dictionary) (entry : List Char) : Option (String × Value) :=
  match pair? entry with
  | none => none
  | some (key, value) =>
    match parse dictionary key with
    | .string name => some (name, parse dictionary value)
    | _ => none

/-- The value of a trimmed literal, by its first and last characters. -/
theorem parse_eq (dictionary : Dictionary) (text : List Char) :
    parse dictionary text =
      let s := Text.trim text
      match word? s, Text.enclosed? '"' '"' s with
      | some v, _ => v
      | none, some inner => .string (String.ofList (unescape inner))
      | none, none =>
        if s.head? = some '#' then .string (dictionary.resolveString (String.ofList s))
        else match Text.enclosed? '[' ']' s, Text.enclosed? '\x7b' '\x7d' s with
          | some inner, _ =>
            .array ((slots inner).map fun item => parse dictionary (withoutSingleQuotes item))
          | none, some inner =>
            match allSome ((slots inner).map (parseField? dictionary)) with
            | some entries => .object (Fields.ofEntries entries)
            | none => parseBare s
          | none, none => parseBare s := by
  rw [parse]
  dsimp only
  cases word? (Text.trim text) with
  | some v => rfl
  | none =>
    cases Text.enclosed? '"' '"' (Text.trim text) with
    | some inner => rfl
    | none =>
      dsimp only
      split
      · rfl
      · split
        · rename_i inner h
          rw [h]
          exact congrArg Value.array (List.attach_map_val
            (f := fun item => parse dictionary (withoutSingleQuotes item)))
        · rename_i h
          rw [h]
          split
          · rename_i inner h'
            rw [h']
            have hentries : (slots inner).map (parseField? dictionary)
                = (slots inner).attach.map fun x => match _hp : pair? x.1 with
                  | none => none
                  | some (key, value) =>
                    match parse dictionary key with
                    | .string name => some (name, parse dictionary value)
                    | _ => none := by
              rw [← List.attach_map_val]
              refine List.map_congr_left fun x _ => ?_
              simp only [parseField?]
              split
              · split <;> simp_all
              · repeat' split
                all_goals simp_all
            dsimp only
            rw [hentries]
          · rename_i h'
            rw [h']

end TableNotation.Literal
