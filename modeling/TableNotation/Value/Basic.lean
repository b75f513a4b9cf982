import TableNotation.Number.Basic
/-!
# Values, records and documents

A value is null, a boolean, a number, a text, a list of values or an object.
An object is the list of its fields in order; no two fields of an object have
the same name, which `Value.hasDistinctKeys` states for every object inside a
value.  A record is an object, and a document is an object whose fields are its
tables.

* `Fields.get?` and `Fields.insert` read and write a field; `get?_insert` and
  `keys_insert` say that an insertion changes one field and keeps the place of a
  field that is there already.
* `Kind` is the type of a value as schemas and messages name it.
-/

namespace TableNotation

/-- A value of a document. -/
inductive Value where
  | null
  | bool (value : Bool)
  | number (value : Number)
  | string (value : String)
  | array (items : List Value)
  | object (fields : List (String × Value))

instance : Inhabited Value := ⟨.null⟩

/-- Named values in order. -/
abbrev Fields := List (String × Value)

/-- One row of a table. -/
abbrev Record := Fields

/-- Tables by name. -/
abbrev Document := Fields

namespace Fields

/-- The value of the field of a name. -/
def get? (key : String) : Fields → Option Value
  | [] => none
  | (k, v) :: rest => if k = key then some v else get? key rest

/-- The fields with `key` set to `value`: in its place if it is there, and else
at the end. -/
def insert (key : String) (value : Value) : Fields → Fields
  | [] => [(key, value)]
  | (k, v) :: rest => if k = key then (k, value) :: rest else (k, v) :: insert key value rest

/-- The fields of a list of entries, the last value of a name counting. -/
def ofEntries (entries : List (String × Value)) : Fields :=
  entries.foldl (fun fields e => insert e.1 e.2 fields) []

/-- The names of the fields, in order. -/
def keys (fields : Fields) : List String := fields.map Prod.fst

/-- The value of the field of a name, and null if there is none. -/
def getOrNull (key : String) (fields : Fields) : Value := (get? key fields).getD .null

/-- A lookup after an insertion finds the new value under its name and the old
ones elsewhere. -/
@[simp] theorem get?_insert (key k : String) (value : Value) (fields : Fields) :
    get? k (insert key value fields) = if key = k then some value else get? k fields := by
  induction fields with
  | nil => simp [insert, get?]
  | cons head rest ih =>
    obtain ⟨k', v⟩ := head
    rw [insert]
    split
    · rename_i h; subst h
      by_cases hk : k' = k <;> simp [get?, hk]
    · rename_i h
      by_cases hk : k' = k
      · subst hk; simp [get?, Ne.symm h]
      · simp [get?, hk, ih]

/-- An insertion adds a new name at the end and leaves the names alone
otherwise. -/
theorem keys_insert (key : String) (value : Value) (fields : Fields) :
    keys (insert key value fields)
      = if key ∈ keys fields then keys fields else keys fields ++ [key] := by
  induction fields with
  | nil => simp [insert, keys]
  | cons head rest ih =>
    obtain ⟨k, v⟩ := head
    rw [insert]
    split
    · rename_i h; subst h; simp [keys]
    · rename_i h
      simp only [keys, List.map_cons] at ih ⊢
      rw [ih]
      by_cases hm : key ∈ List.map Prod.fst rest
      · simp [hm]
      · simp [hm, Ne.symm h]

end Fields

/-- The type of a value, as a schema names it. -/
inductive Kind where
  | int
  | float
  | str
  | bool
  | null
  | array
  | object
  deriving DecidableEq

namespace Kind

/-- The word for a kind in schemas and messages. -/
def name : Kind → String
  | .int => "int"
  | .float => "float"
  | .str => "str"
  | .bool => "bool"
  | .null => "null"
  | .array => "array"
  | .object => "object"

/-- All kinds. -/
def all : List Kind := [.int, .float, .str, .bool, .null, .array, .object]

/-- The kind of a word. -/
def ofName? (word : String) : Option Kind := all.find? fun k => k.name = word

theorem ofName?_name (k : Kind) : ofName? k.name = some k := by
  cases k <;> rfl

end Kind

namespace Value

/-- The kind of a value; a number without a fraction part is an `int` only if it
is kept as an integer. -/
def kind : Value → Kind
  | .null => .null
  | .bool _ => .bool
  | .number n => if n.isInteger then .int else .float
  | .string _ => .str
  | .array _ => .array
  | .object _ => .object

/-- Whether a value holds no other values. -/
def isScalar : Value → Bool
  | .array _ => false
  | .object _ => false
  | _ => true

/-- Whether a value is null. -/
def isNull : Value → Bool
  | .null => true
  | _ => false

/-- The fields of an object. -/
def asObject? : Value → Option Fields
  | .object fields => some fields
  | _ => none

/-- The records of a list of items, the first of which stands at position `index`,
or the position and the kind of the first item that is no record. -/
def recordsFrom : (index : Nat) → List Value → Except (Nat × Kind) (List Record)
  | _, [] => .ok []
  | index, item :: rest =>
    match item with
    | .object record => do
      let records ← recordsFrom (index + 1) rest
      return record :: records
    | other => .error (index, other.kind)

mutual

/-- No object inside the value has two fields of one name. -/
def hasDistinctKeys : Value → Prop
  | .array items => itemsHaveDistinctKeys items
  | .object fields => (Fields.keys fields).Nodup ∧ fieldsHaveDistinctKeys fields
  | _ => True

/-- No object inside the values has two fields of one name. -/
def itemsHaveDistinctKeys : List Value → Prop
  | [] => True
  | v :: rest => v.hasDistinctKeys ∧ itemsHaveDistinctKeys rest

/-- No object inside the values of the fields has two fields of one name. -/
def fieldsHaveDistinctKeys : List (String × Value) → Prop
  | [] => True
  | (_, v) :: rest => v.hasDistinctKeys ∧ fieldsHaveDistinctKeys rest

end

end Value
end TableNotation
