import TableNotation.Proofs.Literal.Splitting
import TableNotation.Proofs.Number.ReadBack
/-!
# The shape of literals

Whatever value a literal stands for, it has a few properties in common with all
others, which are all that rows, lists and directives need of it: no comma in it
cuts a line, it has no line feed, and its first and last characters are edges, of
which none is blank and none can be taken for the edge of a header, a directive or
a text in single quotes.

The references of a dictionary are written bare, so they have to look like
references: `#` and digits.

* `HoldsOfLiterals.render`: what holds of the parts of literals holds of all of them.
* `isLiteral_render`: the literal of every value has this shape.
* `isLiteral_quote`, `isLiteral_reference`: so do its parts.
-/

namespace TableNotation

namespace Dictionary

/-- Whether a text is a `#` with digits behind it. -/
def isReference (s : String) : Bool :=
  match s.toList with
  | '#' :: digits => digits.all Char.isDigit
  | _ => false

/-- Every key is a reference. -/
def HasReferences (dictionary : Dictionary) : Prop :=
  ∀ key, (dictionary.get? key).isSome = true → isReference key = true

/-- A dictionary without entries has no key that is not a reference. -/
theorem hasReferences_empty : HasReferences .empty := by
  intro key h
  exact absurd h (by simp)

/-- Every key is a reference if that of every entry is one. -/
theorem hasReferences_of_mem {dictionary : Dictionary}
    (h : ∀ e ∈ dictionary.entries, isReference e.1 = true) : HasReferences dictionary := by
  intro key hkey
  obtain ⟨s, hs⟩ := Option.isSome_iff_exists.1 hkey
  exact h (key, s) (SortedMap.get?_eq_some_iff.1 hs)

/-- The reference with a number is one. -/
theorem isReference_reference (n : Nat) : isReference (reference n) = true := by
  unfold isReference reference
  rw [String.toList_ofList]
  exact all_isDigit_digitsOf n

/-- A reference is a `#` and digits. -/
theorem toList_of_isReference {s : String} (h : isReference s = true) :
    ∃ digits, s.toList = '#' :: digits ∧ ∀ c ∈ digits, c.isDigit = true := by
  unfold isReference at h
  split at h
  · rename_i digits heq
    exact ⟨digits, heq, List.all_eq_true.1 h⟩
  · exact absurd h (by decide)

end Dictionary

/-- A digit is not blank. -/
theorem isBlank_of_isDigit {c : Char} (h : c.isDigit = true) : isBlank c = false := by
  have hrange : 48 ≤ c.toNat ∧ c.toNat ≤ 57 := by
    simp only [Char.isDigit, Bool.and_eq_true, decide_eq_true_eq, ge_iff_le] at h
    exact ⟨h.1, h.2⟩
  simp only [isBlank, blankRanges, List.any_cons, List.any_nil, Bool.or_false,
    Bool.or_eq_false_iff, Bool.and_eq_false_iff, decide_eq_false_iff_not]
  omega

/-- Nor is any character of a number. -/
theorem isBlank_of_isNumeric {c : Char} (h : Number.isNumeric c = true) : isBlank c = false := by
  simp only [Number.isNumeric, Bool.or_eq_true, decide_eq_true_eq] at h
  rcases h with (h | rfl) | rfl
  · exact isBlank_of_isDigit h
  · decide
  · decide

namespace Literal

/-- The characters of a number have no meaning in a line. -/
theorem isPlain_of_isNumeric {c : Char} (h : Number.isNumeric c = true) : isPlain c = true :=
  isPlain_of_forall_not h (by decide)

/-- The characters at which literals begin and end. -/
def isEdge (c : Char) : Bool :=
  Number.isNumeric c ||
    ['n', 't', 'f', 'l', 'e', '"', '#', '[', ']', '\x7b', '\x7d'].contains c

/-- Literals neither begin nor end with a blank. -/
theorem isBlank_of_isEdge {c : Char} (h : isEdge c = true) : isBlank c = false := by
  simp only [isEdge, Bool.or_eq_true, List.contains_cons, List.contains_nil, Bool.or_false,
    beq_iff_eq] at h
  rcases h with h | rfl | rfl | rfl | rfl | rfl | rfl | rfl | rfl | rfl | rfl | rfl
  · exact isBlank_of_isNumeric h
  all_goals decide

/-- What a part of a line has to be so that the line is cut around it. -/
structure IsSlot (s : List Char) : Prop where
  uncut : ∀ depth, Uncut (.atDepth depth) s (.atDepth depth)
  oneLine : '\n' ∉ s
  tight : Text.IsTight s
  ne_nil : s ≠ []

/-- What all literals have in common. -/
structure IsLiteral (s : List Char) : Prop where
  uncut : ∀ depth, Uncut (.atDepth depth) s (.atDepth depth)
  oneLine : '\n' ∉ s
  first : ∃ c, s.head? = some c ∧ isEdge c = true
  last : ∃ c, s.getLast? = some c ∧ isEdge c = true

namespace IsLiteral

variable {s : List Char}

/-- A literal is not empty. -/
theorem ne_nil (h : IsLiteral s) : s ≠ [] := by
  rintro rfl
  obtain ⟨c, hc, _⟩ := h.first
  exact absurd hc (by simp)

/-- It has no blanks around it. -/
theorem tight (h : IsLiteral s) : Text.IsTight s := by
  obtain ⟨a, ha, hedge⟩ := h.first
  obtain ⟨b, hb, hedge'⟩ := h.last
  constructor
  · intro c hc
    rw [Option.some.inj (hc.symm.trans ha)]
    exact isBlank_of_isEdge hedge
  · intro c hc
    rw [Option.some.inj (hc.symm.trans hb)]
    exact isBlank_of_isEdge hedge'

/-- It is a slot. -/
theorem isSlot (h : IsLiteral s) : IsSlot s := ⟨h.uncut, h.oneLine, h.tight, h.ne_nil⟩

/-- Trimming leaves it as it is. -/
theorem trim (h : IsLiteral s) : Text.trim s = s := Text.trim_eq_self h.tight

/-- It begins with none of the other characters. -/
theorem head_ne (h : IsLiteral s) {c : Char} (hc : isEdge c = false) : s.head? ≠ some c := by
  intro heq
  obtain ⟨a, ha, hedge⟩ := h.first
  rw [Option.some.inj (heq.symm.trans ha), hedge] at hc
  exact absurd hc (by decide)

end IsLiteral

/-- What stands between two edges is a literal if it is uncut and on one line. -/
theorem isLiteral_between {a b : Char} {s : List Char} (ha : isEdge a = true)
    (hb : isEdge b = true) (hline : '\n' ∉ s)
    (huncut : ∀ depth, Uncut (.atDepth depth) (a :: (s ++ [b])) (.atDepth depth)) :
    IsLiteral (a :: (s ++ [b])) := by
  have hne : ∀ c, isEdge c = true → '\n' ≠ c := by
    rintro c hc rfl
    exact absurd hc (by decide)
  refine ⟨huncut, ?_, ⟨a, rfl, ha⟩, ⟨b, ?_, hb⟩⟩
  · intro hmem
    rcases List.mem_cons.1 hmem with hmem | hmem
    · exact hne a ha hmem
    rcases List.mem_append.1 hmem with hmem | hmem
    · exact hline hmem
    · exact hne b hb (List.mem_singleton.1 hmem)
  · rw [← List.cons_append, List.getLast?_concat]

/-- A plain text between two edges is a literal. -/
theorem isLiteral_plain {s : List Char} (hplain : s.all isPlain = true)
    (hline : '\n' ∉ s) (hfirst : s.head?.any isEdge = true)
    (hlast : s.getLast?.any isEdge = true) : IsLiteral s := by
  have hedge : ∀ o : Option Char, o.any isEdge = true → ∃ c, o = some c ∧ isEdge c = true := by
    intro o ho
    cases o with
    | none => exact absurd ho (by decide)
    | some c => exact ⟨c, rfl, ho⟩
  exact ⟨uncut_plain (List.all_eq_true.1 hplain), hline, hedge _ hfirst, hedge _ hlast⟩

/-- A text of plain edges is a literal. -/
theorem isLiteral_edges {s : List Char} (hne : s ≠ [])
    (h : ∀ c ∈ s, isPlain c = true ∧ isEdge c = true) : IsLiteral s := by
  apply isLiteral_plain
  · exact List.all_eq_true.2 fun c hc => (h c hc).1
  · intro hmem
    exact absurd (h _ hmem).2 (by decide)
  · rw [List.head?_eq_some_head hne]
    exact (h _ (List.head_mem hne)).2
  · rw [List.getLast?_eq_some_getLast hne]
    exact (h _ (List.getLast_mem hne)).2

/-- A text in quotes is a literal. -/
theorem isLiteral_quote (s : List Char) : IsLiteral (quote s) :=
  isLiteral_between (by decide) (by decide) (newline_not_mem_escape s) (uncut_quote s)

/-- Numbers begin and end with edges. -/
theorem isEdge_of_isNumeric {c : Char} (h : Number.isNumeric c = true) : isEdge c = true := by
  simp [isEdge, h]

/-- A reference is a literal. -/
theorem isLiteral_reference {s : String} (h : Dictionary.isReference s = true) :
    IsLiteral s.toList := by
  obtain ⟨digits, hs, hdigits⟩ := Dictionary.toList_of_isReference h
  rw [hs]
  apply isLiteral_edges (List.cons_ne_nil _ _)
  intro c hc
  rcases List.mem_cons.1 hc with rfl | hc
  · decide
  · have hnumeric := Number.isNumeric_of_isDigit (hdigits c hc)
    exact ⟨isPlain_of_isNumeric hnumeric, isEdge_of_isNumeric hnumeric⟩

/-- A number is a literal. -/
theorem isLiteral_number (n : Number) : IsLiteral (n.text floatLayout) := by
  apply isLiteral_edges (Number.text_ne_nil (fun _ => rfl) n)
  intro c hc
  have hnumeric := Number.isNumeric_of_mem_text (fun _ => rfl) hc
  exact ⟨isPlain_of_isNumeric hnumeric, isEdge_of_isNumeric hnumeric⟩

/-- What commas, blanks and the characters of some texts satisfy, their list satisfies. -/
theorem forall_mem_commaList {p : Char → Prop} (hcomma : p ',') (hblank : p ' ')
    {parts : List (List Char)} (h : ∀ part ∈ parts, ∀ c ∈ part, p c) :
    ∀ c ∈ commaList parts, p c := by
  induction parts with
  | nil => exact List.forall_mem_nil p
  | cons part more ih =>
    obtain ⟨hpart, hmore⟩ := List.forall_mem_cons.1 h
    cases more with
    | nil => exact hpart
    | cons next others =>
      have hlist : commaList (part :: next :: others)
          = part ++ ([',', ' '] ++ commaList (next :: others)) := rfl
      rw [hlist, List.forall_mem_append, List.forall_mem_append]
      refine ⟨hpart, ?_, ih hmore⟩
      simp [hcomma, hblank]

/-- Texts with commas between them have no line feed if none of them has one. -/
theorem newline_not_mem_commaList {parts : List (List Char)} (h : ∀ part ∈ parts, '\n' ∉ part) :
    '\n' ∉ commaList parts := by
  have hne : ∀ c ∈ commaList parts, '\n' ≠ c :=
    forall_mem_commaList (by decide) (by decide) fun part hp c hc heq => h part hp (heq ▸ hc)
  exact fun hmem => hne _ hmem rfl

/-- A list of slots is cut into these slots. -/
theorem slots_of_isSlot {parts : List (List Char)} (h : ∀ part ∈ parts, IsSlot part) :
    slots (commaList parts) = parts := by
  apply slots_commaList
  · exact fun part hp => ⟨(h part hp).uncut 0, (h part hp).tight⟩
  · rintro rfl
    exact (h [] List.mem_cons_self).ne_nil rfl

/-- Slots with commas between them are a literal when brackets stand around them. -/
theorem isLiteral_bracketed {parts : List (List Char)} {left right : Char}
    (hbrackets : (left = '[' ∧ right = ']') ∨ (left = '\x7b' ∧ right = '\x7d'))
    (h : ∀ part ∈ parts, IsSlot part) :
    IsLiteral (left :: (commaList parts ++ [right])) := by
  have huncut : ∀ depth, Uncut (.atDepth depth) (left :: (commaList parts ++ [right]))
      (.atDepth depth) :=
    fun depth => Uncut.bracketed hbrackets (uncut_commaList fun part hp => (h part hp).uncut _)
  have hline := newline_not_mem_commaList fun part hp => (h part hp).oneLine
  rcases hbrackets with ⟨rfl, rfl⟩ | ⟨rfl, rfl⟩
  · exact isLiteral_between (by decide) (by decide) hline huncut
  · exact isLiteral_between (by decide) (by decide) hline huncut

/-- The entries of objects and directives: a name, a colon, perhaps blanks, and a
value. -/
theorem isSlot_entry {name value : List Char} (hname : IsSlot name) (hvalue : IsSlot value)
    {blanks : List Char} (hblanks : ∀ c ∈ blanks, c = ' ') :
    IsSlot (name ++ ':' :: (blanks ++ value)) := by
  refine ⟨fun depth => ?_, ?_, ?_, ?_⟩
  · have hcolon : Uncut (.atDepth depth) [':'] (.atDepth depth) := uncut_char (by simp)
    have hblank : Uncut (.atDepth depth) blanks (.atDepth depth) := by
      apply uncut_plain
      intro c hc
      rw [hblanks c hc]
      decide
    exact (hname.uncut depth).append (hcolon.append (hblank.append (hvalue.uncut depth)))
  · intro hmem
    rcases List.mem_append.1 hmem with hmem | hmem
    · exact hname.oneLine hmem
    rcases List.mem_cons.1 hmem with hmem | hmem
    · exact absurd hmem (by decide)
    rcases List.mem_append.1 hmem with hmem | hmem
    · exact absurd (hblanks _ hmem) (by decide)
    · exact hvalue.oneLine hmem
  · exact hname.tight.around hvalue.tight hname.ne_nil hvalue.ne_nil (':' :: blanks)
  · exact List.append_ne_nil_of_left_ne_nil hname.ne_nil _

variable {dictionary : Dictionary}

/-- A text is a literal, whether it is quoted or a reference. -/
theorem isLiteral_renderString (hd : dictionary.HasReferences) (s : String) :
    IsLiteral (renderString dictionary s) := by
  unfold renderString
  split
  · rename_i hs
    exact isLiteral_reference (hd s hs)
  · exact isLiteral_quote _

/-- A property of literals and one of the entries of objects, which hold of words, numbers and
texts, and of lists and objects if they hold of their parts. -/
structure HoldsOfLiterals (dictionary : Dictionary) (literal entry : List Char → Prop) : Prop where
  null : literal ['n', 'u', 'l', 'l']
  bool_true : literal ['t', 'r', 'u', 'e']
  bool_false : literal ['f', 'a', 'l', 's', 'e']
  number : ∀ n : Number, literal (n.text floatLayout)
  string : ∀ s, literal (renderString dictionary s)
  array : ∀ parts, (∀ part ∈ parts, literal part) → literal ('[' :: (commaList parts ++ [']']))
  field : ∀ name value, literal value → entry (quote name ++ ':' :: ' ' :: value)
  object : ∀ parts, (∀ part ∈ parts, entry part) →
    literal ('\x7b' :: (commaList parts ++ ['\x7d']))

namespace HoldsOfLiterals

variable {literal entry : List Char → Prop}

mutual

/-- They hold of the literal of every value. -/
theorem render (h : HoldsOfLiterals dictionary literal entry) :
    ∀ v : Value, literal (Literal.render dictionary v)
  | .null => by
    rw [Literal.render]
    exact h.null
  | .bool true => by
    rw [Literal.render]
    exact h.bool_true
  | .bool false => by
    rw [Literal.render]
    exact h.bool_false
  | .number n => by
    rw [Literal.render]
    exact h.number n
  | .string s => by
    rw [Literal.render]
    exact h.string s
  | .array items => by
    rw [Literal.render]
    exact h.array _ (renderItems h items)
  | .object fields => by
    rw [Literal.render]
    exact h.object _ (renderFields h fields)

/-- So they hold of the literals of the items of a list. -/
theorem renderItems (h : HoldsOfLiterals dictionary literal entry) :
    ∀ items : List Value, ∀ part ∈ Literal.renderItems dictionary items, literal part
  | [], part, hp => by
    rw [Literal.renderItems] at hp
    exact absurd hp List.not_mem_nil
  | v :: rest, part, hp => by
    rw [Literal.renderItems] at hp
    rcases List.mem_cons.1 hp with rfl | hp
    · exact render h v
    · exact renderItems h rest part hp

/-- So they hold of the entries of an object. -/
theorem renderFields (h : HoldsOfLiterals dictionary literal entry) :
    ∀ fields : List (String × Value), ∀ part ∈ Literal.renderFields dictionary fields, entry part
  | [], part, hp => by
    rw [Literal.renderFields] at hp
    exact absurd hp List.not_mem_nil
  | (k, v) :: rest, part, hp => by
    rw [Literal.renderFields] at hp
    rcases List.mem_cons.1 hp with rfl | hp
    · exact h.field k.toList _ (render h v)
    · exact renderFields h rest part hp

end

end HoldsOfLiterals

/-- Literals have the shape of literals, and entries that of slots. -/
theorem holdsOfLiterals_isLiteral (hd : dictionary.HasReferences) :
    HoldsOfLiterals dictionary IsLiteral IsSlot where
  null := isLiteral_plain (by decide) (by decide) (by decide) (by decide)
  bool_true := isLiteral_plain (by decide) (by decide) (by decide) (by decide)
  bool_false := isLiteral_plain (by decide) (by decide) (by decide) (by decide)
  number := isLiteral_number
  string := isLiteral_renderString hd
  array _ h := isLiteral_bracketed (.inl ⟨rfl, rfl⟩) fun part hp => (h part hp).isSlot
  field _ _ h := by
    have hblanks : ∀ c ∈ [' '], c = ' ' := fun _ hc => List.mem_singleton.1 hc
    exact isSlot_entry (isLiteral_quote _).isSlot h.isSlot hblanks
  object _ h := isLiteral_bracketed (.inr ⟨rfl, rfl⟩) h

/-- The literal of every value has the shape of a literal. -/
theorem isLiteral_render (hd : dictionary.HasReferences) (v : Value) :
    IsLiteral (render dictionary v) := (holdsOfLiterals_isLiteral hd).render v

/-- So have the literals of the items of a list. -/
theorem isLiteral_renderItems (hd : dictionary.HasReferences) (items : List Value) :
    ∀ part ∈ renderItems dictionary items, IsLiteral part :=
  (holdsOfLiterals_isLiteral hd).renderItems items

/-- The entries of an object are slots. -/
theorem isSlot_renderFields (hd : dictionary.HasReferences) (fields : List (String × Value)) :
    ∀ part ∈ renderFields dictionary fields, IsSlot part :=
  (holdsOfLiterals_isLiteral hd).renderFields fields

end Literal
end TableNotation
