import TableNotation.Number.Reading
import TableNotation.Query.Basic
import TableNotation.Query.Token
/-!
# The grammar of queries

Which tokens make up which query is said here without reading them from left to right:
each rule relates the tokens of a phrase, put together from those of its parts, to what
the phrase means.

    query      = IDENTIFIER [select] [where] [order] [limit] [offset]
    any        = all, more of: OR all
    all        = operand, more of: AND operand
    operand    = LPAREN any RPAREN | NOT operand | IDENTIFIER comparison
    comparison = IN list | NOT IN list | LIKE value
               | BETWEEN value AND value | OPERATOR value
    list       = LPAREN value more of: COMMA value, RPAREN
    value      = STRING | NUMBER | IDENTIFIER

* `Literal`, `Numeral`, `Count`: what a token means as a value or as a number of records.
* `Any`, `All`, `Operand`: conditions, with the nodes they stand for.
* `Derives`: whole queries.
-/

namespace TableNotation.Query.Grammar

/-- The sign in front of a number. -/
def sign (negative : Bool) : List Char := if negative then ['-'] else []

/-- A text of digits, and not empty. -/
def IsDigits (s : List Char) : Prop := s ≠ [] ∧ ∀ c ∈ s, c.isDigit = true

/-- What a number literal means: without a point an integer that fits a word, with a point
the double nearest to it, which has to be finite. -/
inductive Numeral : List Char → Number → Prop
  | integer (negative : Bool) {digits : List Char} (hdigits : IsDigits digits)
      (fits : FitsWord (if negative then -(naturalOf digits : Int) else naturalOf digits)) :
      Numeral (sign negative ++ digits) (.integer _ fits)
  | float (negative : Bool) {whole fraction : List Char} {x : Double} (hwhole : IsDigits whole)
      (hfraction : ∀ c ∈ fraction, c.isDigit = true)
      (hvalue : Decimal.toDouble? negative
        ⟨naturalOf (whole ++ fraction), -(fraction.length : Int)⟩ = some x) :
      Numeral (sign negative ++ (whole ++ '.' :: fraction)) (.float x)

/-- A word, whatever its case, is spelled as a word in capitals. -/
def Spells (word capitals : String) : Prop := word.toList.map Char.toUpper = capitals.toList

instance (word capitals : String) : Decidable (Spells word capitals) :=
  inferInstanceAs (Decidable (_ = _))

/-- What a token means as a value. -/
inductive Literal : Token → Value → Prop
  | string {inner : List Char} {position : Nat} (quote : Char) :
      Literal ⟨.string, String.ofList (quote :: (inner ++ [quote])), position⟩
        (.string (String.ofList inner))
  | number {lexeme : String} {position : Nat} {n : Number} (hn : Numeral lexeme.toList n) :
      Literal ⟨.number, lexeme, position⟩ (.number n)
  | trueWord {word : String} {position : Nat} (hword : Spells word "TRUE") :
      Literal ⟨.identifier, word, position⟩ (.bool true)
  | falseWord {word : String} {position : Nat} (hword : Spells word "FALSE") :
      Literal ⟨.identifier, word, position⟩ (.bool false)
  | nullWord {word : String} {position : Nat} (hword : Spells word "NULL") :
      Literal ⟨.identifier, word, position⟩ .null
  | otherWord {word : String} {position : Nat} (htrue : ¬ Spells word "TRUE")
      (hfalse : ¬ Spells word "FALSE") (hnull : ¬ Spells word "NULL") :
      Literal ⟨.identifier, word, position⟩ (.string word)

/-- A token is the name of a table or of a field. -/
inductive Name : Token → String → Prop
  | mk {name : String} {position : Nat} : Name ⟨.identifier, name, position⟩ name

/-- Items, each of one token, with commas between them. -/
inductive Commas {α : Type} (Item : Token → α → Prop) : List Token → List α → Prop
  | one {token : Token} {a : α} (ha : Item token a) : Commas Item [token] [a]
  | more {token comma : Token} {rest : List Token} {a : α} {others : List α} (ha : Item token a)
      (hcomma : comma.kind = .comma) (hrest : Commas Item rest others) :
      Commas Item (token :: comma :: rest) (a :: others)

/-- Values in parentheses. -/
inductive ValueList : List Token → Value → Prop
  | mk {opening closing : Token} {inside : List Token} {values : List Value}
      (hopening : opening.kind = .leftParen) (hinside : Commas Literal inside values)
      (hclosing : closing.kind = .rightParen) :
      ValueList (opening :: (inside ++ [closing])) (.array values)

/-- The operators. -/
def operators : List (String × Comparison) :=
  [("=", .equal), ("!=", .unequal), ("<>", .unequal), ("<", .less), (">", .greater),
   ("<=", .atMost), (">=", .atLeast)]

/-- What follows the field of a condition. -/
inductive Compared (field : String) : List Token → Condition → Prop
  | among {word : Token} {tokens : List Token} {values : Value}
      (hword : word.kind = .keyword .inWord) (hvalues : ValueList tokens values) :
      Compared field (word :: tokens) ⟨field, .among, values, none⟩
  | notAmong {no word : Token} {tokens : List Token} {values : Value}
      (hno : no.kind = .keyword .notWord) (hword : word.kind = .keyword .inWord)
      (hvalues : ValueList tokens values) :
      Compared field (no :: word :: tokens) ⟨field, .notAmong, values, none⟩
  | like {word token : Token} {pattern : Value} (hword : word.kind = .keyword .like)
      (hpattern : Literal token pattern) :
      Compared field [word, token] ⟨field, .like, pattern, none⟩
  | between {word low joint high : Token} {lower upper : Value}
      (hword : word.kind = .keyword .between) (hlower : Literal low lower)
      (hjoint : joint.kind = .keyword .andWord) (hupper : Literal high upper) :
      Compared field [word, low, joint, high] ⟨field, .between, lower, some upper⟩
  | operator {operator token : Token} {comparison : Comparison} {v : Value}
      (hkind : operator.kind = .operator) (hoperator : (operator.lexeme, comparison) ∈ operators)
      (hv : Literal token v) :
      Compared field [operator, token] ⟨field, comparison, v, none⟩

/-- The node of the operands of a chain: a single operand is the node itself, and two or
more make one group. -/
inductive Joined (connective : Connective) : List Node → Node → Prop
  | one (node : Node) : Joined connective [node] node
  | several (first second : Node) (rest : List Node) :
      Joined connective (first :: second :: rest)
        (.group connective (first :: second :: rest))

mutual

/-- A chain of OR, and its node. -/
inductive Any : List Token → Node → Prop
  | chain {tokens : List Token} {operands : List Node} {node : Node}
      (hoperands : Alternatives tokens operands) (hnode : Joined .or operands node) :
      Any tokens node

/-- The operands of a chain of OR. -/
inductive Alternatives : List Token → List Node → Prop
  | one {tokens : List Token} {node : Node} (hnode : All tokens node) :
      Alternatives tokens [node]
  | more {tokens rest : List Token} {word : Token} {node : Node} {others : List Node}
      (hnode : All tokens node) (hword : word.kind = .keyword .orWord)
      (hrest : Alternatives rest others) :
      Alternatives (tokens ++ word :: rest) (node :: others)

/-- A chain of AND, and its node. -/
inductive All : List Token → Node → Prop
  | chain {tokens : List Token} {operands : List Node} {node : Node}
      (hoperands : Conjuncts tokens operands) (hnode : Joined .and operands node) :
      All tokens node

/-- The operands of a chain of AND. -/
inductive Conjuncts : List Token → List Node → Prop
  | one {tokens : List Token} {node : Node} (hnode : Operand tokens node) :
      Conjuncts tokens [node]
  | more {tokens rest : List Token} {word : Token} {node : Node} {others : List Node}
      (hnode : Operand tokens node) (hword : word.kind = .keyword .andWord)
      (hrest : Conjuncts rest others) :
      Conjuncts (tokens ++ word :: rest) (node :: others)

/-- What AND joins: a chain in parentheses, the negation of the next operand only, or a
field and what it is compared with. -/
inductive Operand : List Token → Node → Prop
  | parens {opening closing : Token} {inside : List Token} {node : Node}
      (hopening : opening.kind = .leftParen) (hinside : Any inside node)
      (hclosing : closing.kind = .rightParen) :
      Operand (opening :: (inside ++ [closing])) node
  | negation {word : Token} {tokens : List Token} {node : Node}
      (hword : word.kind = .keyword .notWord) (hnode : Operand tokens node) :
      Operand (word :: tokens) (.group .not [node])
  | comparison {token : Token} {tokens : List Token} {field : String} {c : Condition}
      (hfield : Name token field) (hc : Compared field tokens c) :
      Operand (token :: tokens) (.condition c)

end

/-- The group of the node of a whole filter: a condition alone becomes an AND of one. -/
inductive Root : Node → Group → Prop
  | condition (c : Condition) : Root (.condition c) ⟨.and, [.condition c]⟩
  | group (connective : Connective) (operands : List Node) :
      Root (.group connective operands) ⟨connective, operands⟩

/-- A filter, and its group. -/
inductive Filter : List Token → Group → Prop
  | mk {tokens : List Token} {node : Node} {group : Group} (hnode : Any tokens node)
      (hgroup : Root node group) : Filter tokens group

/-- A field and a direction, which is ascending if it is left out. -/
inductive Order : List Token → String × Direction → Prop
  | unsaid {token : Token} {field : String} (hfield : Name token field) :
      Order [token] (field, .ascending)
  | ascending {token word : Token} {field : String} (hfield : Name token field)
      (hword : word.kind = .keyword .asc) : Order [token, word] (field, .ascending)
  | descending {token word : Token} {field : String} (hfield : Name token field)
      (hword : word.kind = .keyword .desc) : Order [token, word] (field, .descending)

/-- A number of records: a plain decimal that fits an unsigned word. -/
inductive Count : List Token → Nat → Prop
  | mk {lexeme : String} {position : Nat} (hdigits : IsDigits lexeme.toList)
      (hfits : naturalOf lexeme.toList < 2 ^ 64) :
      Count [⟨.number, lexeme, position⟩] (naturalOf lexeme.toList)

/-- A clause that may be left out. -/
inductive Clause {α : Type} (word : Keyword) (Phrase : List Token → α → Prop) :
    List Token → Option α → Prop
  | absent : Clause word Phrase [] none
  | present {token : Token} {tokens : List Token} {a : α} (htoken : token.kind = .keyword word)
      (ha : Phrase tokens a) : Clause word Phrase (token :: tokens) (some a)

/-- The tokens are a query: a table and the clauses behind it, in this order and with
nothing behind them. -/
inductive Derives : List Token → Query → Prop
  | mk {token : Token} {select filtering ordering limiting skipping : List Token}
      {table : String} {fields : Option (List String)} {filter : Option Group}
      {order : Option (String × Direction)} {limit offset : Option Nat}
      (htable : Name token table)
      (hselect : Clause .selectWord (Commas Name) select fields)
      (hfilter : Clause .whereWord Filter filtering filter)
      (horder : Clause .orderBy Order ordering order)
      (hlimit : Clause .limit Count limiting limit)
      (hoffset : Clause .offset Count skipping offset) :
      Derives (token :: (select ++ (filtering ++ (ordering ++ (limiting ++ skipping)))))
        { table
          fields
          filter
          orderBy := order.map Prod.fst
          direction := (order.map Prod.snd).getD .ascending
          limit
          offset := offset.getD 0 }

end TableNotation.Query.Grammar
