import TableNotation.Proofs.Query.Completeness
import TableNotation.Proofs.Query.Lexing
/-!
# Queries read back

A query that has the form in which queries are read is written as tokens that derive it,
and so it is read back from its text.  Parentheses stand around every group of two or more
operands inside another group, and this is enough: an operand of AND, OR or NOT is always
one condition, one negation or one group in parentheses, so nothing is taken from it and
nothing is added.

* `IsBuilt`: the form of conditions, nodes, groups and queries.
* `cuts_literal`, `cuts_condition`, `cuts_node`, `cuts_group`: what their texts are cut
  into; nodes by recursion on their form.
* `parse_text`: a query is read back from its text.
-/

namespace TableNotation

open Token (Cuts Anything EndsToken EndsWord Single IsIdentifier)
open Query.Grammar

/-- A scalar that can be written in a query: a text without a single quote, and a double
that is written without an exponent. -/
def Value.IsLiteral : Value → Prop
  | .string s => '\'' ∉ s.toList
  | .number (.float x) => 'e' ∉ x.text Json.floatLayout
  | .array _ | .object _ => False
  | _ => True

instance : (v : Value) → Decidable v.IsLiteral
  | .string s => inferInstanceAs (Decidable ('\'' ∉ s.toList))
  | .number (.float x) => inferInstanceAs (Decidable ('e' ∉ x.text Json.floatLayout))
  | .array _ | .object _ => .isFalse id
  | .null | .bool _ | .number (.integer ..) => .isTrue trivial

/-- A condition on a field that is an identifier: `IN` has a list of scalars that is not
empty, `BETWEEN` has two bounds, and every other comparison has one scalar. -/
structure Condition.IsBuilt (c : Condition) : Prop where
  field : IsIdentifier c.field
  values : match c.comparison with
    | .among | .notAmong =>
      (∃ items, c.value = .array items ∧ items ≠ [] ∧ ∀ v ∈ items, v.IsLiteral) ∧ c.upper = none
    | .between => c.value.IsLiteral ∧ ∃ upper, c.upper = some upper ∧ upper.IsLiteral
    | _ => c.value.IsLiteral ∧ c.upper = none

/-- A node in which AND and OR have at least two operands and NOT has one. -/
inductive Node.IsBuilt : Node → Prop
  | condition {c : Condition} (hc : c.IsBuilt) : IsBuilt (.condition c)
  | chain {connective : Connective} {operands : List Node} (hconnective : connective ≠ .not)
      (hlength : 2 ≤ operands.length) (hoperands : ∀ node ∈ operands, IsBuilt node) :
      IsBuilt (.group connective operands)
  | negation {node : Node} (hnode : IsBuilt node) : IsBuilt (.group .not [node])

/-- The group of such a node, or an AND of one condition. -/
inductive Group.IsBuilt : Group → Prop
  | condition {c : Condition} (hc : c.IsBuilt) : IsBuilt ⟨.and, [.condition c]⟩
  | node {connective : Connective} {operands : List Node}
      (hnode : Node.IsBuilt (.group connective operands)) : IsBuilt ⟨connective, operands⟩

/-- A query with identifiers for names, a list of fields that is not empty, a filter as it
is read, and counts that fit a word; the direction is ascending if there is no order. -/
structure Query.IsBuilt (q : Query) : Prop where
  table : IsIdentifier q.table
  fields : ∀ fields, q.fields = some fields → fields ≠ [] ∧ ∀ name ∈ fields, IsIdentifier name
  filter : ∀ group, q.filter = some group → group.IsBuilt
  orderBy : ∀ field, q.orderBy = some field → IsIdentifier field
  direction : q.orderBy = none → q.direction = .ascending
  limit : ∀ n, q.limit = some n → n < 2 ^ 64
  offset : q.offset < 2 ^ 64

/-- The tokens are a single one that means something. -/
def OneToken {α : Type} (Item : Token → α → Prop) (tokens : List Token) (a : α) : Prop :=
  ∃ token, Item token a ∧ tokens = [token]

/-! ### Literals -/

theorem name_of_single {name : String} {tokens : List Token}
    (h : Single .identifier name.toList tokens) : OneToken Name tokens name := by
  obtain ⟨position, rfl⟩ := h
  rw [String.ofList_toList]
  exact ⟨_, .mk, rfl⟩

/-- A double that is written without an exponent is written positionally. -/
theorem positional_of_not_mem {layout : FloatLayout} {x : Double} (h : 'e' ∉ x.text layout) :
    layout.positional (x.shortest layout.tie).leadingExponent = true := by
  cases hlayout : layout.positional (x.shortest layout.tie).leadingExponent with
  | true => rfl
  | false =>
    have hexponent : ¬ layout.positional (x.shortest layout.tie).leadingExponent = true := by
      rw [hlayout]
      exact Bool.false_ne_true
    refine absurd ?_ h
    rw [Double.text, Decimal.text, if_neg hexponent, Decimal.exponentText]
    simp

/-- The text of a number without an exponent is a number literal that means the number. -/
theorem numeral_text {n : Number} (h : Value.IsLiteral (.number n)) :
    Token.IsNumeral (n.text Json.floatLayout) ∧ Numeral (n.text Json.floatLayout) n := by
  cases n with
  | integer n fits =>
    have hlexeme : Token.IsNumeral (Number.integerText n) := by
      refine ⟨decide (n < 0), Decimal.digitsOf n.natAbs,
        ⟨digitsOf_ne_nil _, fun _ hc => isDigit_of_mem_digitsOf hc⟩, .inl ?_⟩
      simp [Number.integerText, sign]
    exact ⟨hlexeme, Query.numeral_of_read? hlexeme (Number.read?_integerText n fits)⟩
  | float x =>
    have hpositional := positional_of_not_mem h
    have hlexeme : Token.IsNumeral (x.text Json.floatLayout) := by
      obtain ⟨whole, fraction, hx, hne, hwhole, hfraction, _⟩ := x.text_parts hpositional
      exact ⟨x.negative, whole, ⟨hne, hwhole⟩, .inr ⟨fraction, hfraction, hx⟩⟩
    exact ⟨hlexeme, Query.numeral_of_read? hlexeme (Number.read?_doubleText hpositional)⟩

/-- A literal is one token that means it. -/
theorem cuts_literal {v : Value} (h : v.IsLiteral) :
    Cuts EndsToken v.queryText (OneToken Literal · v) := by
  have hword : ∀ {word : String}, IsIdentifier word →
      word.toList.map Char.toUpper ≠ ['O', 'R', 'D', 'E', 'R'] →
      (∀ position, Literal ⟨.identifier, word, position⟩ v) →
      Cuts EndsToken word.toList (OneToken Literal · v) := by
    intro word hword horder hliteral
    apply (Token.cuts_otherIdentifier hword horder).imp
    rintro _ ⟨position, rfl⟩
    rw [String.ofList_toList]
    exact ⟨_, hliteral position, rfl⟩
  cases v with
  | null =>
    exact hword (by decide) (by decide) fun position => .nullWord (by decide)
  | bool b =>
    cases b with
    | true =>
      exact hword (by decide) (by decide) fun position => .trueWord (by decide)
    | false =>
      exact hword (by decide) (by decide) fun position => .falseWord (by decide)
  | number n =>
    obtain ⟨hlexeme, hnumeral⟩ := numeral_text h
    apply (Token.cuts_numeral hlexeme).imp
    rintro _ ⟨position, rfl⟩
    exact ⟨_, .number (by rwa [String.toList_ofList]), rfl⟩
  | string s =>
    have hquoted : Cuts EndsToken (Value.string s).queryText
        (Single .string ('\'' :: (s.toList ++ ['\'']))) :=
      (Token.cuts_quoted h).anywhere
    apply hquoted.imp
    rintro _ ⟨position, rfl⟩
    have hliteral := @Literal.string s.toList position '\''
    rw [String.ofList_toList] at hliteral
    exact ⟨_, hliteral, rfl⟩
  | array items => exact h.elim
  | object fields => exact h.elim

theorem queryTexts_eq_map (items : List Value) :
    Value.queryTexts items = items.map Value.queryText := by
  induction items with
  | nil => rfl
  | cons v rest ih => rw [Value.queryTexts, ih, List.map_cons]

/-- Items with commas between them. -/
theorem cuts_commas {α : Type} {Follow : List Char → Prop} {Item : Token → α → Prop}
    {text : α → List Char} (hfollow : ∀ rest, Follow (',' :: rest)) {as : List α} (hne : as ≠ [])
    (h : ∀ a ∈ as, Cuts Follow (text a) (OneToken Item · a)) :
    Cuts Follow (separated ", " (as.map text)) (Commas Item · as) := by
  apply Token.cuts_separated Token.cuts_commaBlank (fun rest => hfollow _) ?_ ?_ hne h
  · rintro _ a ⟨token, ha, rfl⟩
    exact .one ha
  · rintro _ _ behind a as ⟨token, ha, rfl⟩ ⟨position, rfl⟩ hbehind
    exact .more ha rfl hbehind

/-- A list of literals in parentheses. -/
theorem cuts_list {items : List Value} (hne : items ≠ []) (h : ∀ v ∈ items, v.IsLiteral) :
    Cuts EndsToken (Value.queryText (.array items)) (ValueList · (.array items)) := by
  have hinside : Cuts EndsToken (separated ", " (Value.queryTexts items))
      (Commas Literal · items) := by
    rw [queryTexts_eq_map]
    exact cuts_commas Token.endsToken_comma hne fun v hv => cuts_literal (h v hv)
  exact Token.cuts_parens hinside fun _ _ _ hopening hinside hclosing =>
    .mk hopening hinside hclosing

/-! ### Conditions -/

/-- The text of a comparison, and of the values behind it. -/
def Condition.comparisonText (c : Condition) : List Char :=
  c.comparison.symbol.toList ++ ' ' :: (c.value.queryText ++ match c.upper with
    | some upper => " AND ".toList ++ upper.queryText
    | none => [])

theorem Condition.text_eq (c : Condition) :
    c.text = c.field.toList ++ ([' '] ++ c.comparisonText) := by
  unfold text comparisonText
  cases c.upper <;> simp

/-- Behind a field there is never the word `BY`. -/
theorem endsWord_comparisonText (c : Condition) (rest : List Char) :
    EndsWord ([' '] ++ c.comparisonText ++ rest) := by
  refine ⟨Token.endsToken_blank _, ?_⟩
  unfold Condition.comparisonText
  cases c.comparison <;> rfl

/-- A word or an operator, and a phrase behind a blank. -/
theorem cuts_symbol {symbol behind : List Char} {kind : TokenKind}
    {Phrase Second : List Token → Prop} (hsymbol : Cuts EndsToken symbol (Single kind symbol))
    (hbehind : Cuts EndsToken behind Second)
    (hphrase : ∀ position tokens, Second tokens →
      Phrase (⟨kind, String.ofList symbol, position⟩ :: tokens)) :
    Cuts EndsToken (symbol ++ ' ' :: behind) Phrase := by
  rw [List.append_cons]
  apply hsymbol.blank.append hbehind (fun _ _ => trivial)
  rintro _ tokens ⟨position, rfl⟩ htokens
  exact hphrase position tokens htokens

/-- The AND between two bounds. -/
theorem cuts_and : Cuts Anything " AND ".toList (Single (.keyword .andWord) "AND".toList) :=
  (@Token.cuts_keyword .andWord nofun).blanks

theorem cuts_or : Cuts Anything " OR ".toList (Single (.keyword .orWord) "OR".toList) :=
  (@Token.cuts_keyword .orWord nofun).blanks

/-- Two bounds with AND between them. -/
theorem cuts_bounds {lower upper : Value} (hlower : lower.IsLiteral) (hupper : upper.IsLiteral) :
    Cuts EndsToken (lower.queryText ++ (" AND ".toList ++ upper.queryText)) (fun tokens =>
      ∃ low joint high, tokens = [low, joint, high] ∧ Literal low lower ∧
        joint.kind = .keyword .andWord ∧ Literal high upper) := by
  have hbehind : Cuts EndsToken (" AND ".toList ++ upper.queryText) (fun tokens =>
      ∃ joint high, tokens = [joint, high] ∧ joint.kind = .keyword .andWord ∧
        Literal high upper) := by
    apply cuts_and.append (cuts_literal hupper) (fun _ _ => trivial)
    rintro _ _ ⟨position, rfl⟩ ⟨high, hhigh, rfl⟩
    exact ⟨_, high, rfl, rfl, hhigh⟩
  apply (cuts_literal hlower).append hbehind
  · exact fun rest _ => Token.endsToken_blank _
  · rintro _ _ ⟨low, hlow, rfl⟩ ⟨joint, high, rfl, hjoint, hhigh⟩
    exact ⟨low, joint, high, rfl, hlow, hjoint, hhigh⟩

/-- An operator and a literal. -/
theorem cuts_operatorText {field : String} {comparison : Comparison} {v : Value}
    (hoperator : (comparison.symbol, comparison) ∈ operators) (hv : v.IsLiteral) :
    Cuts EndsToken (comparison.symbol.toList ++ ' ' :: v.queryText)
      (Compared field · ⟨field, comparison, v, none⟩) := by
  apply cuts_symbol (Token.cuts_operator hoperator) (cuts_literal hv)
  rintro position _ ⟨token, htoken, rfl⟩
  exact .operator rfl (by rwa [String.ofList_toList]) htoken

/-- What stands behind a field is a comparison. -/
theorem cuts_comparisonText {c : Condition} (h : c.IsBuilt) :
    Cuts EndsToken c.comparisonText (Compared c.field · c) := by
  obtain ⟨field, comparison, v, upper⟩ := c
  have hvalues := h.values
  unfold Condition.comparisonText
  cases comparison with
  | equal | unequal | less | greater | atMost | atLeast =>
    obtain ⟨hv, rfl⟩ := hvalues
    rw [List.append_nil]
    dsimp only
    exact cuts_operatorText (by decide) hv
  | like =>
    obtain ⟨hv, rfl⟩ := hvalues
    rw [List.append_nil]
    apply cuts_symbol (@Token.cuts_keyword .like nofun) (cuts_literal hv)
    rintro position _ ⟨token, htoken, rfl⟩
    exact .like rfl htoken
  | among =>
    obtain ⟨⟨items, rfl, hne, hitems⟩, rfl⟩ := hvalues
    rw [List.append_nil]
    apply cuts_symbol (@Token.cuts_keyword .inWord nofun) (cuts_list hne hitems)
    exact fun position tokens hlist => .among rfl hlist
  | notAmong =>
    obtain ⟨⟨items, rfl, hne, hitems⟩, rfl⟩ := hvalues
    rw [List.append_nil]
    have hin : Cuts EndsToken ("IN".toList ++ ' ' :: (Value.array items).queryText)
        (fun tokens => ∃ word list, tokens = word :: list ∧ word.kind = .keyword .inWord ∧
          ValueList list (.array items)) := by
      apply cuts_symbol (@Token.cuts_keyword .inWord nofun) (cuts_list hne hitems)
      exact fun position tokens hlist => ⟨_, tokens, rfl, rfl, hlist⟩
    have htext : Comparison.notAmong.symbol.toList ++ ' ' :: (Value.array items).queryText
        = "NOT".toList ++ ' ' :: ("IN".toList ++ ' ' :: (Value.array items).queryText) := rfl
    rw [htext]
    apply cuts_symbol (@Token.cuts_keyword .notWord nofun) hin
    rintro position _ ⟨word, list, rfl, hword, hlist⟩
    exact .notAmong rfl hword hlist
  | between =>
    obtain ⟨hlower, upper, rfl, hupper⟩ := hvalues
    apply cuts_symbol (@Token.cuts_keyword .between nofun) (cuts_bounds hlower hupper)
    rintro position _ ⟨low, joint, high, rfl, hlow, hjoint, hhigh⟩
    exact .between rfl hlow hjoint hhigh

/-- A condition is an operand. -/
theorem cuts_condition {c : Condition} (h : c.IsBuilt) :
    Cuts EndsToken c.text (Operand · (.condition c)) := by
  rw [Condition.text_eq]
  apply (Token.cuts_identifier h.field).append (Token.cuts_blank.append (cuts_comparisonText h)
    (fun _ _ => trivial) ?_)
  · exact fun rest _ => endsWord_comparisonText c rest
  · intro front behind hfront hbehind
    obtain ⟨token, hname, rfl⟩ := name_of_single hfront
    exact .comparison hname hbehind
  · rintro _ behind rfl hbehind
    exact hbehind

/-! ### Nodes -/

theorem texts_eq_map (nodes : List Node) : Node.texts nodes = nodes.map Node.text := by
  induction nodes with
  | nil => rfl
  | cons node rest ih => rw [Node.texts, ih, List.map_cons]

/-- Two or more operands are joined to one group. -/
theorem joined_of_two_le (connective : Connective) {operands : List Node}
    (h : 2 ≤ operands.length) : Joined connective operands (.group connective operands) := by
  match operands, h with
  | first :: second :: rest, _ => exact .several first second rest

/-- A chain of AND or OR with at least two operands is one group. -/
theorem cuts_chain {connective : Connective} {operands : List Node}
    (hconnective : connective ≠ .not) (hlength : 2 ≤ operands.length)
    (h : ∀ node ∈ operands, Cuts EndsToken node.text (Operand · node)) :
    Cuts EndsToken (connective.joinTexts (Node.texts operands))
      (Any · (.group connective operands)) := by
  have hne : operands ≠ [] := by
    rintro rfl
    simp at hlength
  rw [texts_eq_map]
  cases connective with
  | not => exact absurd rfl hconnective
  | and =>
    have hconjuncts : Cuts EndsToken (separated " AND " (operands.map Node.text))
        (Conjuncts · operands) := by
      apply Token.cuts_separated cuts_and (fun _ => Token.endsToken_blank _)
        (fun _ _ hnode => .one hnode) ?_ hne h
      rintro front _ behind node nodes hnode ⟨position, rfl⟩ hrest
      exact .more hnode rfl hrest
    exact hconjuncts.imp fun tokens hoperands =>
      .chain (.one (.chain hoperands (joined_of_two_le .and hlength))) (.one _)
  | or =>
    have halternatives : Cuts EndsToken (separated " OR " (operands.map Node.text))
        (Alternatives · operands) := by
      apply Token.cuts_separated cuts_or (fun _ => Token.endsToken_blank _)
        (fun _ _ hnode => .one (.chain (.one hnode) (.one _))) ?_ hne h
      rintro front _ behind node nodes hnode ⟨position, rfl⟩ hrest
      exact .more (.chain (.one hnode) (.one _)) rfl hrest
    exact halternatives.imp fun tokens hoperands => .chain hoperands (joined_of_two_le .or hlength)

/-- NOT takes the next operand. -/
theorem cuts_negation {node : Node} (h : Cuts EndsToken node.text (Operand · node)) :
    Cuts EndsToken ("NOT ".toList ++ node.text) (Operand · (.group .not [node])) := by
  apply Cuts.append (@Token.cuts_keyword .notWord nofun).blank h (fun _ _ => trivial)
  rintro _ behind ⟨position, rfl⟩ hnode
  exact .negation rfl hnode

/-- A node inside a group is an operand. -/
theorem cuts_node {node : Node} (h : node.IsBuilt) : Cuts EndsToken node.text (Operand · node) := by
  induction h with
  | condition hc => exact cuts_condition hc
  | @chain connective operands hconnective hlength _ ih =>
    have hparens : 1 < operands.length := hlength
    rw [Node.text, if_pos hparens]
    -- the parentheses keep the operands of the group apart from those around it
    exact Token.cuts_parens (cuts_chain hconnective hlength ih)
      fun _ _ _ hopening hinside hclosing => .parens hopening hinside hclosing
  | @negation node _ ih => exact cuts_negation ih

/-- A group that stands alone is a filter. -/
theorem cuts_group {group : Group} (h : group.IsBuilt) :
    Cuts EndsToken group.text (Filter · group) := by
  cases h with
  | condition hc =>
    apply (cuts_condition hc).imp
    intro tokens hcondition
    exact .mk (.chain (.one (.chain (.one hcondition) (.one _))) (.one _)) (.condition _)
  | node hnode =>
    cases hnode with
    | chain hconnective hlength hoperands =>
      apply (cuts_chain hconnective hlength fun node hmem => cuts_node (hoperands node hmem)).imp
      intro tokens hany
      exact .mk hany (.group _ _)
    | negation hnode =>
      apply (cuts_negation (cuts_node hnode)).imp
      intro tokens hoperand
      exact .mk (.chain (.one (.chain (.one hoperand) (.one _))) (.one _)) (.group _ _)

/-! ### Queries -/

/-- A text that may stand behind a word: it is cut into a phrase, and words end in front of
it as they do behind it. -/
structure Trails (s : List Char) (Phrase : List Token → Prop) : Prop where
  cuts : Cuts EndsWord s Phrase
  ends : ∀ rest, EndsWord rest → EndsWord (s ++ rest)

/-- One such text behind another. -/
theorem Trails.next {s t : List Char} {First Second : List Token → Prop} (hs : Trails s First)
    (ht : Trails t Second) :
    Trails (s ++ t) (fun tokens => ∃ front behind, tokens = front ++ behind ∧
      First front ∧ Second behind) where
  cuts := hs.cuts.append ht.cuts ht.ends fun front behind hfront hbehind =>
    ⟨front, behind, rfl, hfront, hbehind⟩
  ends := by
    intro rest hrest
    rw [List.append_assoc]
    exact hs.ends _ (ht.ends rest hrest)

/-- A clause is its keyword and a phrase, if it is there. -/
theorem trails_clause {α : Type} {word : String} {keyword : Keyword} {lexeme : List Char}
    {text : α → List Char} {Phrase : List Token → α → Prop} {a : Option α}
    (hword : Cuts Anything word.toList (Single (.keyword keyword) lexeme))
    (hends : ∀ rest, EndsWord (word.toList ++ rest))
    (htext : ∀ b, a = some b → Cuts EndsWord (text b) (Phrase · b)) :
    Trails (clause word text a) (Clause keyword Phrase · a) := by
  cases a with
  | none => exact ⟨fun _ _ more _ hmore => ⟨[], .absent, hmore⟩, fun _ hrest => hrest⟩
  | some b =>
    constructor
    · apply hword.append (htext b rfl) (fun _ _ => trivial)
      rintro _ behind ⟨position, rfl⟩ hbehind
      exact .present rfl hbehind
    · intro rest _
      have htext : clause word text (some b) ++ rest = word.toList ++ (text b ++ rest) :=
        List.append_assoc _ _ _
      rw [htext]
      exact hends _

/-- A clause for the wanted fields. -/
theorem trails_select {fields : Option (List String)}
    (h : ∀ names, fields = some names → names ≠ [] ∧ ∀ name ∈ names, IsIdentifier name) :
    Trails (clause " SELECT " (fun fields => separated ", " (fields.map String.toList)) fields)
      (Clause .selectWord (Commas Name) · fields) := by
  have hword : Cuts Anything " SELECT ".toList
      (Single (.keyword .selectWord) "SELECT".toList) :=
    (@Token.cuts_keyword .selectWord nofun).blanks
  apply trails_clause hword (fun _ => ⟨Token.endsToken_blank _, rfl⟩)
  intro names hnames
  obtain ⟨hne, hidentifiers⟩ := h names hnames
  apply cuts_commas Token.endsWord_comma hne
  intro name hname
  exact (Token.cuts_identifier (hidentifiers name hname)).imp fun _ => name_of_single

/-- A clause for the filter. -/
theorem trails_filter {filter : Option Group} (h : ∀ group, filter = some group → group.IsBuilt) :
    Trails (clause " WHERE " Group.text filter) (Clause .whereWord Filter · filter) := by
  have hword : Cuts Anything " WHERE ".toList (Single (.keyword .whereWord) "WHERE".toList) :=
    (@Token.cuts_keyword .whereWord nofun).blanks
  apply trails_clause hword (fun _ => ⟨Token.endsToken_blank _, rfl⟩)
  intro group hgroup
  exact (cuts_group (h group hgroup)).endsWord

/-- A blank and a direction. -/
theorem cuts_direction (direction : Direction) : Cuts EndsToken (' ' :: direction.name.toList)
    (fun tokens => ∃ word, tokens = [word] ∧
      ∀ token field, Name token field → Order [token, word] (field, direction)) := by
  cases direction with
  | ascending =>
    apply Token.cuts_blank.append (@Token.cuts_keyword .asc nofun) (fun _ _ => trivial)
    rintro _ _ rfl ⟨position, rfl⟩
    exact ⟨_, rfl, fun _ _ hname => .ascending hname rfl⟩
  | descending =>
    apply Token.cuts_blank.append (@Token.cuts_keyword .desc nofun) (fun _ _ => trivial)
    rintro _ _ rfl ⟨position, rfl⟩
    exact ⟨_, rfl, fun _ _ hname => .descending hname rfl⟩

/-- A field and a direction. -/
theorem cuts_order {field : String} (h : IsIdentifier field) (direction : Direction) :
    Cuts EndsToken (field.toList ++ ' ' :: direction.name.toList) (Order · (field, direction)) := by
  apply (Token.cuts_identifier h).append (cuts_direction direction)
  · intro rest _
    refine ⟨Token.endsToken_blank _, ?_⟩
    cases direction <;> rfl
  · rintro front _ hfront ⟨word, rfl, horder⟩
    obtain ⟨token, hname, rfl⟩ := name_of_single hfront
    exact horder token field hname

/-- A number of records. -/
theorem cuts_count {n : Nat} (h : n < 2 ^ 64) :
    Cuts EndsToken (Decimal.digitsOf n) (Count · n) := by
  have hdigits : IsDigits (Decimal.digitsOf n) :=
    ⟨digitsOf_ne_nil n, fun _ hc => isDigit_of_mem_digitsOf hc⟩
  apply (Token.cuts_numeral ⟨false, _, hdigits, .inl rfl⟩).imp
  rintro _ ⟨position, rfl⟩
  have hcount := @Count.mk (String.ofList (Decimal.digitsOf n)) position
  rw [String.toList_ofList, naturalOf_digitsOf] at hcount
  exact hcount hdigits h

/-- A clause for the order, with the direction that is written. -/
theorem trails_order {field : Option String} {direction : Direction}
    (h : ∀ name, field = some name → IsIdentifier name) :
    Trails (clause " ORDER BY " (fun field => field.toList ++ ' ' :: direction.name.toList) field)
      (Clause .orderBy Order · (field.map fun field => (field, direction))) := by
  have hword : Cuts Anything " ORDER BY ".toList (Single (.keyword .orderBy) "ORDER BY".toList) :=
    Token.cuts_orderBy.blanks
  have htext : clause " ORDER BY " (fun field => field.toList ++ ' ' :: direction.name.toList) field
      = clause " ORDER BY "
        (fun order : String × Direction => order.1.toList ++ ' ' :: order.2.name.toList)
        (field.map fun field => (field, direction)) := by
    cases field <;> rfl
  rw [htext]
  apply trails_clause hword (fun _ => ⟨Token.endsToken_blank _, rfl⟩)
  intro order horder
  obtain ⟨name, hname, rfl⟩ := Option.map_eq_some_iff.1 horder
  exact (cuts_order (h name hname) direction).endsWord

/-- A clause for a number of records. -/
theorem trails_count {word : String} {keyword : Keyword} {lexeme : List Char}
    (hword : Cuts Anything word.toList (Single (.keyword keyword) lexeme))
    (hends : ∀ rest, EndsWord (word.toList ++ rest)) {n : Option Nat}
    (hn : ∀ m, n = some m → m < 2 ^ 64) :
    Trails (clause word Decimal.digitsOf n) (Clause keyword Count · n) := by
  apply trails_clause hword hends
  intro m hm
  exact (cuts_count (hn m hm)).endsWord

/-- The tokens of a table and of the clauses of a query derive the query. -/
theorem derives_of_clauses {q : Query} (h : q.IsBuilt) {table : Token}
    {select filtering ordering limiting skipping : List Token} (htable : Name table q.table)
    (hselect : Clause .selectWord (Commas Name) select q.fields)
    (hfilter : Clause .whereWord Filter filtering q.filter)
    (horder : Clause .orderBy Order ordering (q.orderBy.map fun field => (field, q.direction)))
    (hlimit : Clause .limit Count limiting q.limit)
    (hoffset : Clause .offset Count skipping (if 0 < q.offset then some q.offset else none)) :
    Derives (table :: (select ++ (filtering ++ (ordering ++ (limiting ++ skipping))))) q := by
  have hderives := Derives.mk htable hselect hfilter horder hlimit hoffset
  have hdirection := h.direction
  obtain ⟨name, fields, filter, orderBy, direction, limit, offset⟩ := q
  have hfield : (orderBy.map fun field => (field, direction)).map Prod.fst = orderBy := by
    cases orderBy <;> rfl
  have hwritten : ((orderBy.map fun field => (field, direction)).map Prod.snd).getD .ascending
      = direction := by
    cases orderBy with
    | none => exact (hdirection rfl).symm
    | some field => rfl
  have hskipped : (if 0 < offset then some offset else none).getD 0 = offset := by
    split
    · rfl
    · exact (Nat.eq_zero_of_not_pos ‹_›).symm
  rwa [hfield, hwritten, hskipped] at hderives

/-- Behind its table, the text of a query is cut into clauses that derive the query. -/
theorem exists_clauses {q : Query} (h : q.IsBuilt) :
    ∃ clauses, q.text = q.table.toList ++ clauses ∧
      Trails clauses (fun tokens => ∀ table, Name table q.table → Derives (table :: tokens) q) := by
  have hlimitWord : Cuts Anything " LIMIT ".toList (Single (.keyword .limit) "LIMIT".toList) :=
    (@Token.cuts_keyword .limit nofun).blanks
  have hoffsetWord : Cuts Anything " OFFSET ".toList (Single (.keyword .offset) "OFFSET".toList) :=
    (@Token.cuts_keyword .offset nofun).blanks
  have hoffset : ∀ m, (if 0 < q.offset then some q.offset else none) = some m → m < 2 ^ 64 := by
    intro m hm
    split at hm
    · rw [← Option.some.inj hm]
      exact h.offset
    · cases hm
  have hclauses := (trails_select h.fields).next <| (trails_filter h.filter).next <|
    (@trails_order _ q.direction h.orderBy).next <|
    (trails_count hlimitWord (fun _ => ⟨Token.endsToken_blank _, rfl⟩) h.limit).next
      (trails_count hoffsetWord (fun _ => ⟨Token.endsToken_blank _, rfl⟩) hoffset)
  refine ⟨_, ?_, hclauses.cuts.imp ?_, hclauses.ends⟩
  · rw [Query.text]
    simp only [List.append_assoc]
  · rintro _ ⟨select, _, rfl, hselect, filtering, _, rfl, hfilter, ordering, _, rfl, horder,
      limiting, skipping, rfl, hlimit, hoffset⟩ table htable
    exact derives_of_clauses h htable hselect hfilter horder hlimit hoffset

/-- The text of a query is cut into tokens that derive the query. -/
theorem ofQuery_text {q : Query} (h : q.IsBuilt) :
    ∃ tokens, Token.ofQuery q.text = .ok tokens ∧ Derives tokens q := by
  obtain ⟨clauses, htext, hclauses⟩ := exists_clauses h
  have hcuts : Cuts EndsWord q.text (Derives · q) := by
    rw [htext]
    apply (Token.cuts_identifier h.table).append hclauses.cuts hclauses.ends
    intro front behind hfront hbehind
    obtain ⟨table, htable, rfl⟩ := name_of_single hfront
    exact hbehind table htable
  obtain ⟨tokens, hderives, hscan⟩ := hcuts 0 [] [] Token.endsWord_nil (by rw [Token.scan])
  rw [List.append_nil, List.append_nil] at hscan
  exact ⟨tokens, hscan, hderives⟩

/-! ### The wrapper -/

/-- A text without the wrapper, in any case of its letters, is not unwrapped. -/
theorem Query.unwrap_eq_self {text : List Char}
    (h : ¬ wrapper <:+: text.map Char.toUpper) : unwrap text = text := by
  have hnone : afterWrapper? text = none := by
    induction text with
    | nil => rfl
    | cons c rest ih =>
      rw [List.map_cons, List.infix_cons_iff, not_or] at h
      have hhead : ((c :: rest).take wrapper.length).map Char.toUpper ≠ wrapper := by
        intro hwrapper
        apply h.1
        rw [← List.map_cons, ← hwrapper, List.map_take]
        exact List.take_prefix _ _
      rw [afterWrapper?, if_neg hhead]
      exact ih h.2
  rw [unwrap, hnone]
  rfl

/-- A query in the form in which queries are read is read back from its text, unless the
text holds the wrapper `@query[`, which is looked for in any case of its letters. -/
theorem Query.parse_text {q : Query} (h : q.IsBuilt)
    (hwrapper : ¬ wrapper <:+: q.text.map Char.toUpper) :
    parse (String.ofList q.text) = .ok q := by
  obtain ⟨tokens, htokens, hderives⟩ := ofQuery_text h
  rw [parse, String.toList_ofList, parseChars, unwrap_eq_self hwrapper, htokens]
  exact ofTokens_of_derives hderives

/-- AND, OR and NOT inside each other, and an AND that belongs to a range. -/
theorem Query.parse_text_nested :
    let half : Value := .number (.float ⟨true, 2 ^ 52, 1021, by decide⟩)
    let a : Condition := ⟨"a", .equal, .null, none⟩
    let b : Condition := ⟨"b", .between, half, some (.number .zero)⟩
    let c : Condition := ⟨"c", .like, .string "x AND y", none⟩
    let d : Condition := ⟨"d", .notAmong, .array [half, .null], none⟩
    let negation : Node :=
      .group .not [.group .or [.condition c, .group .not [.condition d]]]
    let q : Query :=
      { table := "t"
        fields := some ["id", "order"]
        filter := some ⟨.or, [.condition a, .group .and [.condition b, negation]]⟩
        orderBy := some "order"
        direction := .descending
        limit := some 10
        offset := 5 }
    q.IsBuilt ∧ ¬ wrapper <:+: q.text.map Char.toUpper ∧
      parse (String.ofList q.text) = .ok q := by
  intro half a b c d negation q
  have hhalf : half.IsLiteral := by decide +kernel
  have hd : d.IsBuilt := by
    refine ⟨by decide, ⟨_, rfl, nofun, ?_⟩, rfl⟩
    exact List.forall_mem_cons.2 ⟨hhalf, List.forall_mem_singleton.2 trivial⟩
  have hpair : ∀ {x y : Node}, x.IsBuilt → y.IsBuilt → ∀ node ∈ [x, y], node.IsBuilt :=
    fun hx hy => List.forall_mem_cons.2 ⟨hx, List.forall_mem_singleton.2 hy⟩
  have hnegation : negation.IsBuilt :=
    .negation (.chain nofun (by decide) (hpair (.condition ⟨by decide, by decide, rfl⟩)
      (.negation (.condition hd))))
  have hrange : Node.IsBuilt (.group .and [.condition b, negation]) :=
    .chain nofun (by decide) (hpair (.condition ⟨by decide, hhalf, _, rfl, trivial⟩) hnegation)
  have hfilter : Node.IsBuilt (.group .or [.condition a, .group .and [.condition b, negation]]) :=
    .chain nofun (by decide) (hpair (.condition ⟨by decide, trivial, rfl⟩) hrange)
  have hbuilt : q.IsBuilt :=
    { table := by decide
      fields := by
        rintro _ ⟨rfl⟩
        exact ⟨nofun, by decide⟩
      filter := by
        rintro _ ⟨rfl⟩
        exact .node hfilter
      orderBy := by
        rintro _ ⟨rfl⟩
        decide
      direction := nofun
      limit := by
        rintro _ ⟨rfl⟩
        decide
      offset := by decide }
  have hwrapper : ¬ wrapper <:+: q.text.map Char.toUpper := by decide +kernel
  exact ⟨hbuilt, hwrapper, parse_text hbuilt hwrapper⟩

end TableNotation
