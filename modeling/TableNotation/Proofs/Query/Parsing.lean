import Mathlib
import TableNotation.Proofs.Query.Completeness
/-!
# The reader of queries reads the grammar

What the reader finds in the tokens of a text is a phrase of the grammar in front of the
tokens that it leaves, and a whole query takes up all of them.  Together with the fact
that every query of the grammar is read this says that the reader accepts the grammar and
nothing else, and since it gives one answer, no tokens are two queries.

* `Finds`: tokens begin with a phrase.
* `any_of_anyOf`, `all_of_allOf`, `operand_of_condition`: conditions, by recursion on the
  number of tokens.
* `ofTokens_eq_ok_iff_derives`: the reader and the grammar agree.
-/

namespace TableNotation.Query

open Grammar

/-- Tokens begin with a phrase that means a value, and others are left. -/
def Finds {α : Type} (Phrase : List Token → α → Prop) (tokens : List Token) (a : α)
    (rest : List Token) : Prop :=
  ∃ front, Phrase front a ∧ tokens = front ++ rest

/-- All tokens have the form of tokens. -/
def AllLexed (tokens : List Token) : Prop := ∀ token ∈ tokens, token.IsLexed

/-- So have the tokens behind some of them. -/
theorem AllLexed.of_append {front rest : List Token} (h : AllLexed (front ++ rest)) :
    AllLexed rest :=
  fun token hmem => h token (List.mem_append_right _ hmem)

/-- So have the tokens behind the first one. -/
theorem AllLexed.of_cons {token : Token} {rest : List Token} (h : AllLexed (token :: rest)) :
    AllLexed rest :=
  fun other hmem => h other (List.mem_cons_of_mem _ hmem)

/-- So have the tokens that a phrase leaves. -/
theorem Finds.allLexed {α : Type} {Phrase : List Token → α → Prop} {tokens : List Token} {a : α}
    {rest : List Token} (h : Finds Phrase tokens a rest) (hlexed : AllLexed tokens) :
    AllLexed rest := by
  obtain ⟨front, _, rfl⟩ := h
  exact hlexed.of_append

/-! ### Values and lists -/

section Tokens

variable {tokens rest : List Token}

/-- What is expected is the first token. -/
theorem eq_of_expect {kind : TokenKind} {token : Token} {shorter : rest.length < tokens.length}
    (h : expect kind tokens = .ok ⟨token, rest, shorter⟩) :
    token.kind = kind ∧ tokens = token :: rest := by
  unfold expect at h
  split at h
  · cases h
  · split at h
    · rename_i hkind
      cases h
      exact ⟨hkind, rfl⟩
    · cases h

/-- What is read as a name is a token that is one. -/
theorem name_of_identifier {name : String} {shorter : rest.length < tokens.length}
    (h : identifier tokens = .ok ⟨name, rest, shorter⟩) :
    ∃ token, Name token name ∧ tokens = token :: rest := by
  obtain ⟨⟨⟨kind, lexeme, position⟩, _, _⟩, hfirst, h⟩ := bind_eq_ok.1 h
  cases h
  obtain ⟨hkind, htokens⟩ := eq_of_expect hfirst
  obtain rfl : kind = .identifier := hkind
  exact ⟨_, .mk, htokens⟩

/-- What is read as a value is a token that is a literal with this value. -/
theorem literal_of_value (hlexed : AllLexed tokens) {v : Value}
    {shorter : rest.length < tokens.length} (h : value tokens = .ok ⟨v, rest, shorter⟩) :
    ∃ token, Literal token v ∧ tokens = token :: rest := by
  unfold value at h
  split at h
  · cases h
  · rename_i token rest
    obtain ⟨v, hv, h⟩ := bind_eq_ok.1 h
    cases h
    exact ⟨token, literal_of_tokenValue (hlexed token List.mem_cons_self) hv, rfl⟩

variable {α : Type} {item : (tokens : List Token) → Except QueryError (Parsed α tokens)}
  {Item : Token → α → Prop}

/-- A reader of items of one token. -/
def FindsItem (item : (tokens : List Token) → Except QueryError (Parsed α tokens))
    (Item : Token → α → Prop) : Prop :=
  ∀ tokens a rest shorter, AllLexed tokens → item tokens = .ok ⟨a, rest, shorter⟩ →
    ∃ token, Item token a ∧ tokens = token :: rest

/-- Behind an item there is either no comma, or a comma and more items. -/
theorem commas_of_commaItems (hitem : FindsItem item Item) (hlexed : AllLexed tokens)
    {as : List α} {notLonger : rest.length ≤ tokens.length}
    (h : commaItems item tokens = .ok ⟨as, rest, notLonger⟩) : as = [] ∧ rest = tokens ∨
      ∃ comma behind, comma.kind = .comma ∧ Commas Item behind as ∧
        tokens = comma :: (behind ++ rest) := by
  induction tokens using commaItems.induct (α := α) generalizing as rest with
  | case1 =>
    rw [commaItems] at h
    cases h
    exact .inl ⟨rfl, rfl⟩
  | case2 comma tokens hcomma ih =>
    rw [commaItems, if_pos hcomma] at h
    obtain ⟨⟨a, mid, shorter⟩, hfirst, h⟩ := bind_eq_ok.1 h
    obtain ⟨⟨others, rest, _⟩, hmore, h⟩ := bind_eq_ok.1 h
    cases h
    obtain ⟨token, hone, rfl⟩ := hitem _ _ _ _ hlexed.of_cons hfirst
    rcases ih ⟨a, mid, shorter⟩ hlexed.of_cons.of_cons hmore with
      ⟨rfl, rfl⟩ | ⟨next, behind, hnext, hmany, rfl⟩
    · exact .inr ⟨comma, [token], hcomma, .one hone, rfl⟩
    · exact .inr ⟨comma, token :: next :: behind, hcomma, .more hone hnext hmany, rfl⟩
  | case3 token tokens hcomma =>
    rw [commaItems, if_neg hcomma] at h
    cases h
    exact .inl ⟨rfl, rfl⟩

/-- What is read as items is items with commas between them. -/
theorem commas_of_items (hitem : FindsItem item Item) (hlexed : AllLexed tokens) {as : List α}
    {shorter : rest.length < tokens.length} (h : items item tokens = .ok ⟨as, rest, shorter⟩) :
    Finds (Commas Item) tokens as rest := by
  obtain ⟨⟨a, mid, _⟩, hfirst, h⟩ := bind_eq_ok.1 h
  obtain ⟨⟨others, rest, _⟩, hmore, h⟩ := bind_eq_ok.1 h
  cases h
  obtain ⟨token, hone, rfl⟩ := hitem _ _ _ _ hlexed hfirst
  rcases commas_of_commaItems hitem hlexed.of_cons hmore with
    ⟨rfl, rfl⟩ | ⟨next, behind, hnext, hmany, rfl⟩
  · exact ⟨[token], .one hone, rfl⟩
  · exact ⟨token :: next :: behind, .more hone hnext hmany, rfl⟩

/-- What is read as a list is values in parentheses. -/
theorem valueList_of_list (hlexed : AllLexed tokens) {v : Value}
    {shorter : rest.length < tokens.length} (h : list tokens = .ok ⟨v, rest, shorter⟩) :
    Finds ValueList tokens v rest := by
  obtain ⟨⟨opening, inner, _⟩, hfirst, h⟩ := bind_eq_ok.1 h
  obtain ⟨⟨values, mid, _⟩, hvalues, h⟩ := bind_eq_ok.1 h
  obtain ⟨⟨closing, rest, _⟩, hlast, h⟩ := bind_eq_ok.1 h
  cases h
  obtain ⟨hopening, rfl⟩ := eq_of_expect hfirst
  obtain ⟨inside, hinside, rfl⟩ :=
    commas_of_items (fun _ _ _ _ hlexed h => literal_of_value hlexed h) hlexed.of_cons hvalues
  obtain ⟨hclosing, rfl⟩ := eq_of_expect hlast
  exact ⟨_, .mk hopening hinside hclosing, by simp⟩

/-- The comparison of a symbol is that of an operator. -/
theorem mem_of_ofSymbol? {symbol : String} {comparison : Comparison}
    (h : Comparison.ofSymbol? symbol = some comparison) : (symbol, comparison) ∈ operators := by
  unfold Comparison.ofSymbol? at h
  split at h
  · rename_i hsymbol
    cases h
    rw [hsymbol]
    decide
  · have hmem := List.mem_of_find?_eq_some h
    have hsymbol : comparison.symbol = symbol := by
      simpa using List.find?_some h
    have hall : ∀ c ∈ [Comparison.equal, .unequal, .less, .greater, .atMost, .atLeast],
        (c.symbol, c) ∈ operators := by decide
    rw [← hsymbol]
    exact hall _ hmem

/-- What is read behind a field is a comparison, and its first token tells which. -/
theorem compared_of_comparison {field : String} (hlexed : AllLexed tokens) {c : Condition}
    {shorter : rest.length < tokens.length}
    (h : comparison field tokens = .ok ⟨c, rest, shorter⟩) :
    Finds (Compared field) tokens c rest := by
  unfold comparison at h
  split at h
  · obtain ⟨⟨values, rest, _⟩, hvalues, h⟩ := bind_eq_ok.1 h
    cases h
    obtain ⟨front, hlist, rfl⟩ := valueList_of_list hlexed.of_cons hvalues
    exact ⟨_ :: front, .among rfl hlist, rfl⟩
  · obtain ⟨⟨values, rest, _⟩, hvalues, h⟩ := bind_eq_ok.1 h
    cases h
    obtain ⟨front, hlist, rfl⟩ := valueList_of_list hlexed.of_cons.of_cons hvalues
    exact ⟨_ :: _ :: front, .notAmong rfl rfl hlist, rfl⟩
  · obtain ⟨⟨pattern, rest, _⟩, hpattern, h⟩ := bind_eq_ok.1 h
    cases h
    obtain ⟨token, hliteral, rfl⟩ := literal_of_value hlexed.of_cons hpattern
    exact ⟨[_, token], .like rfl hliteral, rfl⟩
  · obtain ⟨⟨lower, mid, _⟩, hlower, h⟩ := bind_eq_ok.1 h
    obtain ⟨⟨joint, behind, _⟩, hjoint, h⟩ := bind_eq_ok.1 h
    obtain ⟨⟨upper, rest, _⟩, hupper, h⟩ := bind_eq_ok.1 h
    cases h
    obtain ⟨low, hlow, rfl⟩ := literal_of_value hlexed.of_cons hlower
    obtain ⟨hkind, rfl⟩ := eq_of_expect hjoint
    obtain ⟨high, hhigh, rfl⟩ := literal_of_value hlexed.of_cons.of_cons.of_cons hupper
    exact ⟨[_, low, joint, high], .between rfl hlow hkind hhigh, rfl⟩
  · obtain ⟨⟨operator, mid, _⟩, hoperator, h⟩ := bind_eq_ok.1 h
    split at h
    · cases h
    · rename_i comparison hsymbol
      obtain ⟨⟨v, rest, _⟩, hv, h⟩ := bind_eq_ok.1 h
      cases h
      obtain ⟨hkind, rfl⟩ := eq_of_expect hoperator
      obtain ⟨token, hliteral, rfl⟩ := literal_of_value hlexed.of_cons hv
      exact ⟨[operator, token], .operator hkind (mem_of_ofSymbol? hsymbol) hliteral, rfl⟩

end Tokens

/-! ### Conditions -/

/-- The node of a chain is put together from its operands. -/
theorem joined_chain (connective : Connective) (first : Node) (more : List Node) :
    Joined connective (first :: more) (chain connective first more) := by
  cases more with
  | nil => exact .one first
  | cons second rest => exact .several first second rest

mutual

/-- What is read as a chain of OR is one. -/
theorem any_of_anyOf (tokens : List Token) (hlexed : AllLexed tokens) {node : Node}
    {rest : List Token} {shorter : rest.length < tokens.length}
    (h : anyOf tokens = .ok ⟨node, rest, shorter⟩) : Finds Any tokens node rest := by
  rw [anyOf] at h
  obtain ⟨⟨first, mid, hmid⟩, hfirst, h⟩ := bind_eq_ok.1 h
  obtain ⟨⟨more, rest, _⟩, hmore, h⟩ := bind_eq_ok.1 h
  cases h
  obtain ⟨front, hall, htokens⟩ := all_of_allOf tokens hlexed hfirst
  rcases alternatives_of_orTerms mid (Finds.allLexed ⟨front, hall, htokens⟩ hlexed) hmore with
    ⟨rfl, rfl⟩ | ⟨word, behind, hword, hmany, rfl⟩
  · exact ⟨front, .chain (.one hall) (.one first), htokens⟩
  · exact ⟨front ++ word :: behind, .chain (.more hall hword hmany) (joined_chain .or first more),
      htokens.trans (by simp)⟩
termination_by (tokens.length, 2)
decreasing_by
  · exact Prod.Lex.right _ (by decide)
  · exact Prod.Lex.left _ _ hmid

/-- Behind an operand of OR there is either no OR, or the word and more operands. -/
theorem alternatives_of_orTerms : ∀ (tokens : List Token), AllLexed tokens →
    ∀ {nodes : List Node} {rest : List Token} {notLonger : rest.length ≤ tokens.length},
      orTerms tokens = .ok ⟨nodes, rest, notLonger⟩ → nodes = [] ∧ rest = tokens ∨
        ∃ word behind, word.kind = .keyword .orWord ∧ Alternatives behind nodes ∧
          tokens = word :: (behind ++ rest)
  | [], _, _, _, _, h => by
    rw [orTerms] at h
    cases h
    exact .inl ⟨rfl, rfl⟩
  | word :: tokens, hlexed, _, _, _, h => by
    rw [orTerms] at h
    split at h
    · rename_i hword
      obtain ⟨⟨first, mid, hmid⟩, hfirst, h⟩ := bind_eq_ok.1 h
      obtain ⟨⟨more, rest, _⟩, hmore, h⟩ := bind_eq_ok.1 h
      cases h
      obtain ⟨front, hall, htokens⟩ := all_of_allOf tokens hlexed.of_cons hfirst
      rcases alternatives_of_orTerms mid
          (Finds.allLexed ⟨front, hall, htokens⟩ hlexed.of_cons) hmore with
        ⟨rfl, rfl⟩ | ⟨next, behind, hnext, hmany, rfl⟩
      · exact .inr ⟨word, front, hword, .one hall, congrArg (word :: ·) htokens⟩
      · exact .inr ⟨word, front ++ next :: behind, hword, .more hall hnext hmany,
          congrArg (word :: ·) (htokens.trans (by simp))⟩
    · cases h
      exact .inl ⟨rfl, rfl⟩
termination_by tokens => (tokens.length, 0)
decreasing_by
  · exact Prod.Lex.left _ _ (Nat.lt_succ_self _)
  · exact Prod.Lex.left _ _ (Nat.lt_succ_of_lt hmid)

/-- What is read as a chain of AND is one. -/
theorem all_of_allOf (tokens : List Token) (hlexed : AllLexed tokens) {node : Node}
    {rest : List Token} {shorter : rest.length < tokens.length}
    (h : allOf tokens = .ok ⟨node, rest, shorter⟩) : Finds All tokens node rest := by
  rw [allOf] at h
  obtain ⟨⟨first, mid, hmid⟩, hfirst, h⟩ := bind_eq_ok.1 h
  obtain ⟨⟨more, rest, _⟩, hmore, h⟩ := bind_eq_ok.1 h
  cases h
  obtain ⟨front, hnode, htokens⟩ := operand_of_condition tokens hlexed hfirst
  rcases conjuncts_of_andTerms mid (Finds.allLexed ⟨front, hnode, htokens⟩ hlexed) hmore with
    ⟨rfl, rfl⟩ | ⟨word, behind, hword, hmany, rfl⟩
  · exact ⟨front, .chain (.one hnode) (.one first), htokens⟩
  · exact ⟨front ++ word :: behind,
      .chain (.more hnode hword hmany) (joined_chain .and first more), htokens.trans (by simp)⟩
termination_by (tokens.length, 1)
decreasing_by
  · exact Prod.Lex.right _ (by decide)
  · exact Prod.Lex.left _ _ hmid

/-- Behind an operand of AND there is either no AND, or the word and more operands. -/
theorem conjuncts_of_andTerms : ∀ (tokens : List Token), AllLexed tokens →
    ∀ {nodes : List Node} {rest : List Token} {notLonger : rest.length ≤ tokens.length},
      andTerms tokens = .ok ⟨nodes, rest, notLonger⟩ → nodes = [] ∧ rest = tokens ∨
        ∃ word behind, word.kind = .keyword .andWord ∧ Conjuncts behind nodes ∧
          tokens = word :: (behind ++ rest)
  | [], _, _, _, _, h => by
    rw [andTerms] at h
    cases h
    exact .inl ⟨rfl, rfl⟩
  | word :: tokens, hlexed, _, _, _, h => by
    rw [andTerms] at h
    split at h
    · rename_i hword
      obtain ⟨⟨first, mid, hmid⟩, hfirst, h⟩ := bind_eq_ok.1 h
      obtain ⟨⟨more, rest, _⟩, hmore, h⟩ := bind_eq_ok.1 h
      cases h
      obtain ⟨front, hnode, htokens⟩ := operand_of_condition tokens hlexed.of_cons hfirst
      rcases conjuncts_of_andTerms mid
          (Finds.allLexed ⟨front, hnode, htokens⟩ hlexed.of_cons) hmore with
        ⟨rfl, rfl⟩ | ⟨next, behind, hnext, hmany, rfl⟩
      · exact .inr ⟨word, front, hword, .one hnode, congrArg (word :: ·) htokens⟩
      · exact .inr ⟨word, front ++ next :: behind, hword, .more hnode hnext hmany,
          congrArg (word :: ·) (htokens.trans (by simp))⟩
    · cases h
      exact .inl ⟨rfl, rfl⟩
termination_by tokens => (tokens.length, 0)
decreasing_by
  · exact Prod.Lex.left _ _ (Nat.lt_succ_self _)
  · exact Prod.Lex.left _ _ (Nat.lt_succ_of_lt hmid)

/-- What is read as an operand is parentheses, a negation or a comparison. -/
theorem operand_of_condition : ∀ (tokens : List Token), AllLexed tokens →
    ∀ {node : Node} {rest : List Token} {shorter : rest.length < tokens.length},
      condition tokens = .ok ⟨node, rest, shorter⟩ → Finds Operand tokens node rest
  | [], _, _, _, _, h => by
    rw [condition] at h
    cases h
  | token :: tokens, hlexed, _, _, _, h => by
    rw [condition] at h
    split at h
    · rename_i hopening
      obtain ⟨⟨node, mid, _⟩, hinner, h⟩ := bind_eq_ok.1 h
      obtain ⟨⟨closing, rest, _⟩, hlast, h⟩ := bind_eq_ok.1 h
      cases h
      obtain ⟨inside, hinside, htokens⟩ := any_of_anyOf tokens hlexed.of_cons hinner
      obtain ⟨hclosing, rfl⟩ := eq_of_expect hlast
      exact ⟨token :: (inside ++ [closing]), .parens hopening hinside hclosing,
        congrArg (token :: ·) (htokens.trans (by simp))⟩
    split at h
    · rename_i hword
      obtain ⟨⟨node, rest, _⟩, hinner, h⟩ := bind_eq_ok.1 h
      cases h
      obtain ⟨front, hnode, htokens⟩ := operand_of_condition tokens hlexed.of_cons hinner
      exact ⟨token :: front, .negation hword hnode, congrArg (token :: ·) htokens⟩
    · obtain ⟨⟨field, mid, _⟩, hfield, h⟩ := bind_eq_ok.1 h
      obtain ⟨⟨c, rest, _⟩, hc, h⟩ := bind_eq_ok.1 h
      cases h
      obtain ⟨name, hname, htokens⟩ := name_of_identifier hfield
      obtain ⟨rfl, rfl⟩ := List.cons.inj htokens
      obtain ⟨front, hcompared, rfl⟩ := compared_of_comparison hlexed.of_cons hc
      exact ⟨token :: front, .comparison hname hcompared, rfl⟩
termination_by tokens => (tokens.length, 0)
decreasing_by
  all_goals exact Prod.Lex.left _ _ (Nat.lt_succ_self _)

end

/-! ### Queries -/

section Clauses

variable {tokens rest : List Token}

/-- What is read as an order is a field, with or without its direction. -/
theorem order_of_ordering {order : String × Direction} {shorter : rest.length < tokens.length}
    (h : ordering tokens = .ok ⟨order, rest, shorter⟩) : Finds Order tokens order rest := by
  obtain ⟨⟨field, mid, _⟩, hfield, h⟩ := bind_eq_ok.1 h
  obtain ⟨token, hname, rfl⟩ := name_of_identifier hfield
  simp only at h
  split at h
  · cases h
    exact ⟨[token, _], .ascending hname rfl, rfl⟩
  · cases h
    exact ⟨[token, _], .descending hname rfl, rfl⟩
  · cases h
    exact ⟨[token], .unsaid hname, rfl⟩

/-- What is read as a count is a number that is one word. -/
theorem count_of_count (clause : Keyword) (hlexed : AllLexed tokens) {n : Nat}
    {shorter : rest.length < tokens.length} (h : count clause tokens = .ok ⟨n, rest, shorter⟩) :
    Finds Count tokens n rest := by
  obtain ⟨⟨⟨kind, lexeme, position⟩, mid, _⟩, hnumber, h⟩ := bind_eq_ok.1 h
  obtain ⟨hkind, rfl⟩ := eq_of_expect hnumber
  obtain rfl : kind = .number := hkind
  have hnumeral := (hlexed _ List.mem_cons_self).number rfl
  simp only at h
  split at h
  · rename_i n hn
    cases h
    obtain ⟨hdigits, hfits, rfl⟩ := isDigits_of_readCount? hnumeral hn
    exact ⟨[_], .mk hdigits hfits, rfl⟩
  · cases h

/-- What is read where a clause may stand is the clause or nothing. -/
theorem clause_of_optional {α : Type} {word : Keyword} {Phrase : List Token → α → Prop}
    {inner : (tokens : List Token) → Except QueryError (Parsed α tokens)}
    (hinner : ∀ tokens a rest shorter, AllLexed tokens → inner tokens = .ok ⟨a, rest, shorter⟩ →
      Finds Phrase tokens a rest) (hlexed : AllLexed tokens) {a : Option α}
    (h : optional word inner tokens = .ok (a, rest)) :
    Finds (Clause word Phrase) tokens a rest := by
  cases tokens with
  | nil =>
    cases h
    exact ⟨[], .absent, rfl⟩
  | cons token tokens =>
    simp only [optional] at h
    split at h
    · rename_i htoken
      obtain ⟨⟨a, mid, _⟩, hphrase, h⟩ := bind_eq_ok.1 h
      cases h
      obtain ⟨front, ha, rfl⟩ := hinner _ _ _ _ hlexed.of_cons hphrase
      exact ⟨token :: front, .present htoken ha, rfl⟩
    · cases h
      exact ⟨[], .absent, rfl⟩

end Clauses

/-- The group of a node is that of a root. -/
theorem root_toGroup (node : Node) : Root node node.toGroup := by
  cases node with
  | condition c => exact .condition c
  | group connective operands => exact .group connective operands

/-- A clause with a chain of OR is a filter. -/
theorem filter_of_clause_any {tokens : List Token} {node : Option Node}
    (h : Clause .whereWord Any tokens node) :
    Clause .whereWord Filter tokens (node.map Node.toGroup) := by
  cases h with
  | absent => exact .absent
  | present htoken hnode => exact .present htoken (.mk hnode (root_toGroup _))

/-- What is read as a query is derived as this query. -/
theorem derives_of_ofTokens {tokens : List Token} (hlexed : AllLexed tokens) {query : Query}
    (h : ofTokens tokens = .ok query) : Derives tokens query := by
  obtain ⟨⟨table, rest, _⟩, htable, h⟩ := bind_eq_ok.1 h
  obtain ⟨⟨fields, rest₁⟩, hfields, h⟩ := bind_eq_ok.1 h
  obtain ⟨⟨node, rest₂⟩, hfilter, h⟩ := bind_eq_ok.1 h
  obtain ⟨⟨order, rest₃⟩, horder, h⟩ := bind_eq_ok.1 h
  obtain ⟨⟨limit, rest₄⟩, hlimit, h⟩ := bind_eq_ok.1 h
  obtain ⟨⟨offset, rest₅⟩, hoffset, h⟩ := bind_eq_ok.1 h
  obtain ⟨token, hname, rfl⟩ := name_of_identifier htable
  obtain ⟨select, hselect, rfl⟩ := clause_of_optional
    (fun _ _ _ _ hlexed h => commas_of_items (fun _ _ _ _ _ h => name_of_identifier h) hlexed h)
    hlexed.of_cons hfields
  obtain ⟨filtering, hfiltering, rfl⟩ := clause_of_optional
    (fun _ _ _ _ hlexed h => any_of_anyOf _ hlexed h) hlexed.of_cons.of_append hfilter
  obtain ⟨ordered, hordered, rfl⟩ := clause_of_optional
    (fun _ _ _ _ _ h => order_of_ordering h) hlexed.of_cons.of_append.of_append horder
  obtain ⟨limiting, hlimiting, rfl⟩ := clause_of_optional
    (fun _ _ _ _ hlexed h => count_of_count .limit hlexed h)
    hlexed.of_cons.of_append.of_append.of_append hlimit
  obtain ⟨skipping, hskipping, rfl⟩ := clause_of_optional
    (fun _ _ _ _ hlexed h => count_of_count .offset hlexed h)
    hlexed.of_cons.of_append.of_append.of_append.of_append hoffset
  simp only at h
  split at h
  · cases h
  · cases h
    simpa using Derives.mk hname hselect (filter_of_clause_any hfiltering) hordered hlimiting
      hskipping

/-- The reader and the grammar agree: the tokens of a text are read as a query exactly if
they derive it, and no tokens derive two queries. -/
theorem ofTokens_eq_ok_iff_derives {text : List Char} {tokens : List Token}
    (htokens : Token.ofQuery text = .ok tokens) :
    (∀ query, ofTokens tokens = .ok query ↔ Derives tokens query) ∧
      ∀ query query', Derives tokens query → Derives tokens query' → query = query' := by
  refine ⟨fun query => ⟨derives_of_ofTokens (Token.isLexed_of_ofQuery htokens),
    ofTokens_of_derives⟩, fun query query' h h' => ?_⟩
  exact Except.ok.inj ((ofTokens_of_derives h).symm.trans (ofTokens_of_derives h'))

/-- A negation in front of a chain of AND with the AND of a range in it. -/
theorem ofTokens_eq_ok_iff_derives_sample :
    let text := "t WHERE NOT a BETWEEN 1 AND 2 AND b = x"
    let tokens : List Token :=
      [⟨.identifier, "t", 0⟩, ⟨.keyword .whereWord, "WHERE", 2⟩, ⟨.keyword .notWord, "NOT", 8⟩,
        ⟨.identifier, "a", 12⟩, ⟨.keyword .between, "BETWEEN", 14⟩, ⟨.number, "1", 22⟩,
        ⟨.keyword .andWord, "AND", 24⟩, ⟨.number, "2", 28⟩, ⟨.keyword .andWord, "AND", 30⟩,
        ⟨.identifier, "b", 34⟩, ⟨.operator, "=", 36⟩, ⟨.identifier, "x", 38⟩]
    Token.ofQuery text.toList = .ok tokens ∧
      (∀ query, ofTokens tokens = .ok query ↔ Derives tokens query) ∧
      ∀ query query', Derives tokens query → Derives tokens query' → query = query' := by
  intro text tokens
  have htokens : Token.ofQuery text.toList = .ok tokens := by cbv
  exact ⟨htokens, ofTokens_eq_ok_iff_derives htokens⟩

end TableNotation.Query
