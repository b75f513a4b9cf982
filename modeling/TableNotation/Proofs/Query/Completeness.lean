import TableNotation.Proofs.Query.Literals
/-!
# Every query of the grammar is read

The reader looks at the next token only, or at the next two, and never goes back.  This
is enough: the tokens of a phrase in front of any others are read as what the phrase
means, and what is left are the others, as long as these do not begin with the word
that would continue the phrase.

* `Yields`: what a reader finds, and what it leaves.
* `yields_anyOf`, `yields_allOf`, `yields_operand`: conditions, by recursion on the way they
  are derived.
* `ofTokens_of_derives`: a query of the grammar is read.
-/

namespace TableNotation

/-- A reader finds a value, which takes up tokens, and leaves others. -/
def Parsed.Yields {α : Type} {tokens : List Token} (result : Except QueryError (Parsed α tokens))
    (a : α) (rest : List Token) : Prop :=
  ∃ shorter, result = .ok ⟨a, rest, shorter⟩

/-- A reader finds a value, which may take up no tokens, and leaves others. -/
def ParsedMore.Yields {α : Type} {tokens : List Token}
    (result : Except QueryError (ParsedMore α tokens)) (a : α) (rest : List Token) : Prop :=
  ∃ notLonger, result = .ok ⟨a, rest, notLonger⟩

namespace Query

open Grammar
open Parsed (Yields)

/-! ### Values and lists -/

/-- A token of the expected kind is read. -/
theorem yields_expect {kind : TokenKind} {token : Token} (h : token.kind = kind)
    (rest : List Token) : Yields (expect kind (token :: rest)) token rest :=
  ⟨Nat.lt_succ_self _, if_pos h⟩

/-- A name is read. -/
theorem yields_identifier {token : Token} {name : String} (h : Name token name)
    (rest : List Token) : Yields (identifier (token :: rest)) name rest := by
  cases h
  exact ⟨Nat.lt_succ_self _, rfl⟩

/-- A literal is read as its value. -/
theorem yields_value {token : Token} {v : Value} (h : Literal token v) (rest : List Token) :
    Yields (value (token :: rest)) v rest := by
  refine ⟨Nat.lt_succ_self _, ?_⟩
  rw [value, tokenValue_of_literal h]
  rfl

variable {α : Type} {item : (tokens : List Token) → Except QueryError (Parsed α tokens)}
  {Item : Token → α → Prop}

/-- A comma and items continue items. -/
theorem yields_commaItems {comma : Token} (hcomma : comma.kind = .comma) {tokens rest : List Token}
    {items : List α} (h : Yields (Query.items item tokens) items rest) :
    ParsedMore.Yields (commaItems item (comma :: tokens)) items rest := by
  obtain ⟨shorter, h⟩ := h
  obtain ⟨first, hfirst, h⟩ := bind_eq_ok.1 h
  obtain ⟨more, hmore, h⟩ := bind_eq_ok.1 h
  cases h
  refine ⟨Nat.le_succ_of_le (Nat.le_of_lt shorter), ?_⟩
  rw [commaItems, if_pos hcomma, hfirst]
  simp only [bind, Except.bind, hmore]
  rfl

/-- No comma, no more items. -/
theorem yields_commaItems_nil {rest : List Token} (h : startsWith .comma rest = false) :
    ParsedMore.Yields (commaItems item rest) [] rest := by
  refine ⟨Nat.le_refl _, ?_⟩
  cases rest with
  | nil => rw [commaItems]
  | cons token rest =>
    rw [commaItems, if_neg (by simpa [startsWith] using h)]

/-- Items are read up to the last one. -/
theorem yields_items
    (hitem : ∀ token a rest, Item token a → Yields (item (token :: rest)) a rest)
    {tokens rest : List Token} {as : List α} (h : Commas Item tokens as)
    (hrest : startsWith .comma rest = false) : Yields (items item (tokens ++ rest)) as rest := by
  induction h with
  | @one token a ha =>
    obtain ⟨shorter, hfirst⟩ := hitem _ _ rest ha
    obtain ⟨notLonger, hmore⟩ := @yields_commaItems_nil α item rest hrest
    rw [List.singleton_append]
    refine ⟨Nat.lt_of_le_of_lt notLonger shorter, ?_⟩
    rw [items, hfirst]
    simp only [bind, Except.bind, hmore]
    rfl
  | @more token comma others a as ha hcomma _ ih =>
    obtain ⟨shorter, hfirst⟩ := hitem _ _ (comma :: (others ++ rest)) ha
    obtain ⟨notLonger, hmore⟩ := yields_commaItems hcomma ih
    rw [List.cons_append, List.cons_append]
    refine ⟨Nat.lt_of_le_of_lt notLonger shorter, ?_⟩
    rw [items, hfirst]
    simp only [bind, Except.bind, hmore]
    rfl

/-- Tokens that begin with one kind do not begin with another. -/
theorem startsWith_cons {kind other : TokenKind} {token : Token} (h : token.kind = kind)
    (hne : kind ≠ other) (rest : List Token) : startsWith other (token :: rest) = false := by
  simpa [startsWith, h] using hne

/-- A list of values in parentheses is read. -/
theorem yields_list {tokens : List Token} {values : Value} (h : ValueList tokens values)
    (rest : List Token) : Yields (list (tokens ++ rest)) values rest := by
  obtain @⟨opening, closing, inside, values, hopening, hinside, hclosing⟩ := h
  obtain ⟨_, hfirst⟩ := yields_expect hopening (inside ++ closing :: rest)
  obtain ⟨_, hvalues⟩ := yields_items (fun _ _ rest hv => yields_value hv rest) hinside
    (startsWith_cons hclosing (by decide) rest)
  obtain ⟨_, hlast⟩ := yields_expect hclosing rest
  rw [List.cons_append, List.append_assoc, List.singleton_append]
  unfold list
  simp only [bind, Except.bind, hfirst, hvalues, hlast]
  exact ⟨_, rfl⟩

/-- The symbol of an operator stands for its comparison. -/
theorem ofSymbol?_of_mem {symbol : String} {comparison : Comparison}
    (h : (symbol, comparison) ∈ operators) : Comparison.ofSymbol? symbol = some comparison := by
  have hall : ∀ e ∈ operators, Comparison.ofSymbol? e.1 = some e.2 := by decide
  exact hall _ h

/-- A comparison is read behind its field. -/
theorem yields_comparison {field : String} {tokens : List Token} {c : Condition}
    (h : Compared field tokens c) (rest : List Token) :
    Yields (comparison field (tokens ++ rest)) c rest := by
  cases h with
  | @among word tokens values hword hvalues =>
    obtain ⟨_, hlist⟩ := yields_list hvalues rest
    obtain ⟨kind, lexeme, position⟩ := word
    obtain rfl : kind = .keyword .inWord := hword
    rw [List.cons_append]
    unfold comparison
    simp only [bind, Except.bind, hlist]
    exact ⟨_, rfl⟩
  | @notAmong no word tokens values hno hword hvalues =>
    obtain ⟨_, hlist⟩ := yields_list hvalues rest
    obtain ⟨kind, lexeme, position⟩ := word
    obtain ⟨kind', lexeme', position'⟩ := no
    obtain rfl : kind = .keyword .inWord := hword
    obtain rfl : kind' = .keyword .notWord := hno
    rw [List.cons_append, List.cons_append]
    unfold comparison
    simp only [bind, Except.bind, hlist]
    exact ⟨_, rfl⟩
  | @like word token pattern hword hpattern =>
    obtain ⟨_, hvalue⟩ := yields_value hpattern rest
    obtain ⟨kind, lexeme, position⟩ := word
    obtain rfl : kind = .keyword .like := hword
    simp only [List.cons_append, List.nil_append]
    unfold comparison
    simp only [bind, Except.bind, hvalue]
    exact ⟨_, rfl⟩
  | @between word low joint high lower upper hword hlower hjoint hupper =>
    obtain ⟨_, hlow⟩ := yields_value hlower (joint :: high :: rest)
    obtain ⟨_, hand⟩ := yields_expect hjoint (high :: rest)
    obtain ⟨_, hhigh⟩ := yields_value hupper rest
    obtain ⟨kind, lexeme, position⟩ := word
    obtain rfl : kind = .keyword .between := hword
    simp only [List.cons_append, List.nil_append]
    unfold comparison
    simp only [bind, Except.bind, hlow, hand, hhigh]
    exact ⟨_, rfl⟩
  | @operator operator token comparison v hkind hoperator hv =>
    obtain ⟨_, hfirst⟩ := yields_expect hkind (token :: rest)
    obtain ⟨_, hvalue⟩ := yields_value hv rest
    obtain ⟨kind, lexeme, position⟩ := operator
    obtain rfl : kind = .operator := hkind
    simp only [List.cons_append, List.nil_append]
    unfold Query.comparison
    simp only [bind, Except.bind, hfirst, ofSymbol?_of_mem hoperator, hvalue]
    exact ⟨_, rfl⟩

/-! ### Conditions -/

/-- The operands of a chain are put together to its node. -/
theorem chain_of_joined {connective : Connective} {first node : Node} {more : List Node}
    (h : Joined connective (first :: more) node) : chain connective first more = node := by
  cases h <;> rfl

variable {tokens mid rest : List Token} {first : Node} {more : List Node}

/-- No OR, no more operands of OR. -/
theorem yields_orTerms_nil (h : startsWith (.keyword .orWord) rest = false) :
    ParsedMore.Yields (orTerms rest) [] rest := by
  refine ⟨Nat.le_refl _, ?_⟩
  cases rest with
  | nil => rw [orTerms]
  | cons token rest => rw [orTerms, if_neg (by simpa [startsWith] using h)]

/-- The word OR and an operand continue a chain of OR. -/
theorem yields_orTerms {word : Token} (hword : word.kind = .keyword .orWord)
    (hfirst : Yields (allOf tokens) first mid) (hmore : ParsedMore.Yields (orTerms mid) more rest) :
    ParsedMore.Yields (orTerms (word :: tokens)) (first :: more) rest := by
  obtain ⟨_, hfirst⟩ := hfirst
  obtain ⟨_, hmore⟩ := hmore
  rw [orTerms, if_pos hword]
  simp only [bind, Except.bind, hfirst, hmore]
  exact ⟨_, rfl⟩

/-- No AND, no more operands of AND. -/
theorem yields_andTerms_nil (h : startsWith (.keyword .andWord) rest = false) :
    ParsedMore.Yields (andTerms rest) [] rest := by
  refine ⟨Nat.le_refl _, ?_⟩
  cases rest with
  | nil => rw [andTerms]
  | cons token rest => rw [andTerms, if_neg (by simpa [startsWith] using h)]

/-- The word AND and an operand continue a chain of AND. -/
theorem yields_andTerms {word : Token} (hword : word.kind = .keyword .andWord)
    (hfirst : Yields (condition tokens) first mid)
    (hmore : ParsedMore.Yields (andTerms mid) more rest) :
    ParsedMore.Yields (andTerms (word :: tokens)) (first :: more) rest := by
  obtain ⟨_, hfirst⟩ := hfirst
  obtain ⟨_, hmore⟩ := hmore
  rw [andTerms, if_pos hword]
  simp only [bind, Except.bind, hfirst, hmore]
  exact ⟨_, rfl⟩

/-- A chain of OR in parentheses is an operand. -/
theorem yields_parens {opening closing : Token} {inside : List Token} {node : Node}
    (hopening : opening.kind = .leftParen) (hclosing : closing.kind = .rightParen)
    (hinside : Yields (anyOf (inside ++ closing :: rest)) node (closing :: rest)) :
    Yields (condition (opening :: (inside ++ closing :: rest))) node rest := by
  obtain ⟨_, hinside⟩ := hinside
  obtain ⟨_, hlast⟩ := yields_expect hclosing rest
  rw [condition, if_pos hopening]
  simp only [bind, Except.bind, hinside, hlast]
  exact ⟨_, rfl⟩

/-- The word NOT and an operand are an operand. -/
theorem yields_negation {word : Token} {node : Node} (hword : word.kind = .keyword .notWord)
    (hnode : Yields (condition tokens) node rest) :
    Yields (condition (word :: tokens)) (.group .not [node]) rest := by
  obtain ⟨_, hnode⟩ := hnode
  have hparen : ¬ word.kind = .leftParen := by simp [hword]
  rw [condition, if_neg hparen, if_pos hword]
  simp only [bind, Except.bind, hnode]
  exact ⟨_, rfl⟩

/-- A field and a comparison are an operand. -/
theorem yields_condition {token : Token} {field : String} {c : Condition}
    (hfield : Name token field) (hc : Yields (comparison field tokens) c rest) :
    Yields (condition (token :: tokens)) (.condition c) rest := by
  obtain ⟨_, hname⟩ := yields_identifier hfield tokens
  obtain ⟨_, hc⟩ := hc
  obtain ⟨field, position⟩ := hfield
  have hparen : TokenKind.identifier ≠ .leftParen := by decide
  have hnot : TokenKind.identifier ≠ .keyword .notWord := by decide
  rw [condition, if_neg hparen, if_neg hnot]
  simp only [bind, Except.bind, hname, hc]
  exact ⟨_, rfl⟩

mutual

/-- A chain of OR is read up to a token that does not continue it. -/
theorem yields_anyOf : ∀ {tokens : List Token} {node : Node}, Any tokens node →
    ∀ {rest : List Token}, startsWith (.keyword .orWord) rest = false →
      startsWith (.keyword .andWord) rest = false → Yields (anyOf (tokens ++ rest)) node rest
  | _, _, .chain hoperands hnode, _, hor, hand => by
    obtain ⟨first, mid, more, rfl, ⟨_, hfirst⟩, ⟨_, hmore⟩⟩ :=
      yields_alternatives hoperands hor hand
    rw [anyOf]
    simp only [bind, Except.bind, hfirst, hmore, chain_of_joined hnode]
    exact ⟨_, rfl⟩

/-- The operands of OR are read: the first one, and those that continue it. -/
theorem yields_alternatives : ∀ {tokens : List Token} {operands : List Node},
    Alternatives tokens operands → ∀ {rest : List Token},
      startsWith (.keyword .orWord) rest = false → startsWith (.keyword .andWord) rest = false →
        ∃ first mid more, operands = first :: more ∧ Yields (allOf (tokens ++ rest)) first mid ∧
          ParsedMore.Yields (orTerms mid) more rest
  | _, _, .one hnode, _, hor, hand =>
    ⟨_, _, _, rfl, yields_allOf hnode hand, yields_orTerms_nil hor⟩
  | _, _, .more hnode hword hrest, _, hor, hand => by
    obtain ⟨first, mid, more, rfl, hfirst, hmore⟩ := yields_alternatives hrest hor hand
    rw [List.append_assoc, List.cons_append]
    exact ⟨_, _, _, rfl, yields_allOf hnode (startsWith_cons hword (by decide) _),
      yields_orTerms hword hfirst hmore⟩

/-- A chain of AND is read up to a token that does not continue it. -/
theorem yields_allOf : ∀ {tokens : List Token} {node : Node}, All tokens node →
    ∀ {rest : List Token}, startsWith (.keyword .andWord) rest = false →
      Yields (allOf (tokens ++ rest)) node rest
  | _, _, .chain hoperands hnode, _, hand => by
    obtain ⟨first, mid, more, rfl, ⟨_, hfirst⟩, ⟨_, hmore⟩⟩ := yields_conjuncts hoperands hand
    rw [allOf]
    simp only [bind, Except.bind, hfirst, hmore, chain_of_joined hnode]
    exact ⟨_, rfl⟩

/-- The operands of AND are read: the first one, and those that continue it. -/
theorem yields_conjuncts : ∀ {tokens : List Token} {operands : List Node},
    Conjuncts tokens operands → ∀ {rest : List Token},
      startsWith (.keyword .andWord) rest = false →
        ∃ first mid more, operands = first :: more ∧ Yields (condition (tokens ++ rest)) first mid ∧
          ParsedMore.Yields (andTerms mid) more rest
  | _, _, .one hnode, _, hand =>
    ⟨_, _, _, rfl, yields_operand hnode _, yields_andTerms_nil hand⟩
  | _, _, .more hnode hword hrest, _, hand => by
    obtain ⟨first, mid, more, rfl, hfirst, hmore⟩ := yields_conjuncts hrest hand
    rw [List.append_assoc, List.cons_append]
    exact ⟨_, _, _, rfl, yields_operand hnode _, yields_andTerms hword hfirst hmore⟩

/-- An operand is read whatever follows it. -/
theorem yields_operand : ∀ {tokens : List Token} {node : Node}, Operand tokens node →
    ∀ rest : List Token, Yields (condition (tokens ++ rest)) node rest
  | _, _, .parens hopening hinside hclosing, rest => by
    rw [List.cons_append, List.append_assoc, List.singleton_append]
    exact yields_parens hopening hclosing (yields_anyOf hinside
      (startsWith_cons hclosing (by decide) rest) (startsWith_cons hclosing (by decide) rest))
  | _, _, .negation hword hnode, rest => yields_negation hword (yields_operand hnode rest)
  | _, _, .comparison hfield hc, rest => yields_condition hfield (yields_comparison hc rest)

end

/-! ### Queries -/

/-- A root means the group of its node. -/
theorem toGroup_of_root {node : Node} {group : Group} (h : Root node group) :
    node.toGroup = group := by
  cases h <;> rfl

/-- An order is read if no direction follows that could be its own. -/
theorem yields_ordering {tokens rest : List Token} {order : String × Direction}
    (h : Order tokens order) (hasc : startsWith (.keyword .asc) rest = false)
    (hdesc : startsWith (.keyword .desc) rest = false) :
    Yields (ordering (tokens ++ rest)) order rest := by
  cases h with
  | @unsaid token field hfield =>
    obtain ⟨_, hname⟩ := yields_identifier hfield rest
    rw [List.singleton_append, ordering, hname]
    simp only [bind, Except.bind]
    split
    · simp [startsWith] at hasc
    · simp [startsWith] at hdesc
    · exact ⟨_, rfl⟩
  | @ascending token word field hfield hword =>
    obtain ⟨_, hname⟩ := yields_identifier hfield (word :: rest)
    obtain ⟨kind, lexeme, position⟩ := word
    obtain rfl : kind = .keyword .asc := hword
    simp only [List.cons_append, List.nil_append]
    rw [ordering, hname]
    exact ⟨_, rfl⟩
  | @descending token word field hfield hword =>
    obtain ⟨_, hname⟩ := yields_identifier hfield (word :: rest)
    obtain ⟨kind, lexeme, position⟩ := word
    obtain rfl : kind = .keyword .desc := hword
    simp only [List.cons_append, List.nil_append]
    rw [ordering, hname]
    exact ⟨_, rfl⟩

/-- A count of digits that fits a word is read. -/
theorem yields_count (clause : Keyword) {tokens : List Token} {n : Nat} (h : Count tokens n)
    (rest : List Token) : Yields (count clause (tokens ++ rest)) n rest := by
  obtain @⟨lexeme, position, hdigits, hfits⟩ := h
  obtain ⟨_, hfirst⟩ := @yields_expect .number ⟨.number, lexeme, position⟩ rfl rest
  rw [List.singleton_append, count, hfirst]
  simp only [bind, Except.bind, readCount?_of_isDigits hdigits hfits]
  exact ⟨_, rfl⟩

/-- A filter is the group of a chain of OR. -/
theorem clause_any_of_filter {tokens : List Token} {filter : Option Group}
    (h : Clause .whereWord Filter tokens filter) :
    ∃ node, Clause .whereWord Any tokens node ∧ node.map Node.toGroup = filter := by
  cases h with
  | absent => exact ⟨none, .absent, rfl⟩
  | present htoken hfilter =>
    obtain ⟨hnode, hgroup⟩ := hfilter
    exact ⟨_, .present htoken hnode, congrArg some (toGroup_of_root hgroup)⟩

section Clause

variable {word : Keyword} {Phrase : List Token → α → Prop} {clause rest : List Token}
  {a : Option α}

/-- Tokens begin with one of some keywords, if there are any. -/
def OpensWith (words : List Keyword) (tokens : List Token) : Prop :=
  ∀ token ∈ tokens.head?, ∃ word ∈ words, token.kind = .keyword word

/-- Tokens that open with one of some keywords begin with nothing else. -/
theorem OpensWith.startsWith_eq_false {words : List Keyword} {tokens : List Token}
    (h : OpensWith words tokens) {kind : TokenKind} (hkind : ∀ word ∈ words, kind ≠ .keyword word) :
    startsWith kind tokens = false := by
  cases tokens with
  | nil => rfl
  | cons token rest =>
    obtain ⟨word, hword, htoken⟩ := h token rfl
    exact startsWith_cons htoken (hkind word hword).symm rest

/-- A clause in front adds its keyword. -/
theorem opensWith_clause (h : Clause word Phrase clause a) {words : List Keyword}
    (hrest : OpensWith words rest) : OpensWith (word :: words) (clause ++ rest) := by
  cases h with
  | absent =>
    intro token htoken
    obtain ⟨other, hother, hkind⟩ := hrest token htoken
    exact ⟨other, List.mem_cons_of_mem _ hother, hkind⟩
  | present hfirst _ =>
    intro token htoken
    obtain rfl := Option.some.inj htoken
    exact ⟨word, List.mem_cons_self, hfirst⟩

/-- A clause that may be left out is read. -/
theorem optional_of_clause
    {inner : (tokens : List Token) → Except QueryError (Parsed α tokens)}
    (h : Clause word Phrase clause a)
    (hinner : ∀ tokens a, Phrase tokens a → Yields (inner (tokens ++ rest)) a rest)
    (hrest : startsWith (.keyword word) rest = false) :
    optional word inner (clause ++ rest) = .ok (a, rest) := by
  cases h with
  | absent =>
    rw [List.nil_append]
    cases rest with
    | nil => rfl
    | cons token rest => exact if_neg (by simpa [startsWith] using hrest)
  | @present token tokens a htoken ha =>
    obtain ⟨_, hphrase⟩ := hinner tokens a ha
    rw [List.cons_append, optional, if_pos htoken, hphrase]
    rfl

end Clause

/-- The tokens of a query of the grammar are read as this query. -/
theorem ofTokens_of_derives {tokens : List Token} {query : Query} (h : Derives tokens query) :
    ofTokens tokens = .ok query := by
  obtain @⟨token, select, filtering, order, limiting, skipping, table, fields, filter, ordered,
    limit, offset, htable, hselect, hfilter, horder, hlimit, hoffset⟩ := h
  obtain ⟨node, hnode, rfl⟩ := clause_any_of_filter hfilter
  -- behind each clause there are later clauses only
  have hskipping : OpensWith [.offset] (skipping ++ []) := opensWith_clause hoffset nofun
  rw [List.append_nil] at hskipping
  have hlimiting := opensWith_clause hlimit hskipping
  have hordering := opensWith_clause horder hlimiting
  have hfiltering := opensWith_clause hnode hordering
  obtain ⟨_, hread⟩ := yields_identifier htable
    (select ++ (filtering ++ (order ++ (limiting ++ skipping))))
  have hfields := optional_of_clause hselect
    (fun _ _ hnames => yields_items (fun _ _ rest h => yields_identifier h rest) hnames
      (hfiltering.startsWith_eq_false (by decide)))
    (hfiltering.startsWith_eq_false (by decide))
  have hwhere := optional_of_clause hnode
    (fun _ _ hany => yields_anyOf hany (hordering.startsWith_eq_false (by decide))
      (hordering.startsWith_eq_false (by decide)))
    (hordering.startsWith_eq_false (by decide))
  have horderBy := optional_of_clause horder
    (fun _ _ h => yields_ordering h (hlimiting.startsWith_eq_false (by decide))
      (hlimiting.startsWith_eq_false (by decide)))
    (hlimiting.startsWith_eq_false (by decide))
  have hcount := optional_of_clause hlimit (fun _ _ h => yields_count .limit h skipping)
    (hskipping.startsWith_eq_false (by decide))
  have hskip := optional_of_clause hoffset (fun _ _ h => yields_count .offset h []) rfl
  rw [List.append_nil] at hskip
  rw [ofTokens, hread]
  simp only [bind, Except.bind, hfields, hwhere, horderBy, hcount, hskip]
  rfl

end Query
end TableNotation
