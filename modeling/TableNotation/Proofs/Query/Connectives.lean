import Mathlib.Logic.Relation
import TableNotation.Proofs.Query.Answers
import TableNotation.Proofs.Query.Refusals
/-!
# Laws of the connectives

AND and OR ask their operands in order and stop at the first that decides, so an operand that
fails may never be asked.  The outcome of a tree is therefore an answer or a failure, and the laws
of the connectives have to keep both.  They do, since none of them changes which operands are asked
in which order: AND may be written flat or nested, and so may OR, one operand is itself, NOT can be
moved inside, and two of them are none.  Nor does any of them move a condition past another, so a
tree in which a pattern is refused keeps its refusal.

* `Outcome.chain`, `Outcome.negated`: the connectives on outcomes, and their laws.
* `Filter.select_eq_ok`, `Filter.select_eq_error`: which records a filter selects.
* `Node.Rewrites`: the laws as rewritings of trees; `conditions_of_rewrites`.
* `Node.accepts_chain`, `Node.accepts_negation`: the outcome of a tree from those of its parts.
* `Node.accepts_of_rewrites`, `Node.accepts_congr`: what an outcome does not depend on.
* `Node.accepts_laws`: what all this says of queries.
-/

namespace TableNotation

/-- What it comes to if a record is asked for a condition: an answer, or why there is none. -/
abbrev Outcome := Except QueryError Bool

namespace Outcome

/-- Outcomes in order, up to the first that is decisive or fails. -/
def chain (decisive : Bool) : List Outcome → Outcome
  | [] => .ok !decisive
  | first :: rest => do
    if (← first) = decisive then return decisive else chain decisive rest

/-- The contrary answer, or the same failure. -/
def negated (x : Outcome) : Outcome := x.map (!·)

variable (decisive : Bool)

theorem chain_singleton (x : Outcome) : chain decisive [x] = x := by
  cases x with
  | error e => rfl
  | ok b => cases b <;> cases decisive <;> rfl

/-- A chain goes on behind outcomes that do not decide it. -/
theorem chain_append (xs ys : List Outcome) : chain decisive (xs ++ ys) = (do
    if (← chain decisive xs) = decisive then return decisive else chain decisive ys) := by
  induction xs with
  | nil => cases decisive <;> rfl
  | cons x rest ih =>
    rw [List.cons_append, chain, chain, ih]
    cases x with
    | error e => rfl
    | ok b => cases b <;> cases decisive <;> rfl

/-- A chain in a chain is asked as if its outcomes stood there themselves. -/
theorem chain_nested (before inner after : List Outcome) :
    chain decisive (before ++ chain decisive inner :: after)
      = chain decisive (before ++ (inner ++ after)) := by
  have hinner : chain decisive (chain decisive inner :: after)
      = chain decisive (inner ++ after) := by
    rw [chain_append, chain]
  rw [chain_append, chain_append, hinner]

/-- The contrary of a chain is the other chain of the contraries. -/
theorem negated_chain (xs : List Outcome) :
    negated (chain decisive xs) = chain (!decisive) (xs.map negated) := by
  induction xs with
  | nil => rfl
  | cons x rest ih =>
    rw [List.map_cons, chain, chain, ← ih]
    cases x with
    | error e => rfl
    | ok b => cases b <;> cases decisive <;> rfl

theorem negated_negated (x : Outcome) : negated (negated x) = x := by
  cases x with
  | error e => rfl
  | ok b => cases b <;> rfl

end Outcome

/-! ### Filters -/

namespace Filter

variable {filter : Filter}

theorem allAccept_eq_chain (record : Record) (parts : List Filter) :
    allAccept record parts = Outcome.chain false (parts.map (accepts record)) := by
  induction parts with
  | nil => rfl
  | cons part rest ih =>
    rw [allAccept, ih, List.map_cons, Outcome.chain]
    cases accepts record part with
    | error e => rfl
    | ok b => cases b <;> rfl

theorem anyAccepts_eq_chain (record : Record) (parts : List Filter) :
    anyAccepts record parts = Outcome.chain true (parts.map (accepts record)) := by
  induction parts with
  | nil => rfl
  | cons part rest ih =>
    rw [anyAccepts, ih, List.map_cons, Outcome.chain]

/-- If every record has an answer, those with the answer yes are selected. -/
theorem select_eq_ok {keep : Record → Bool} {records : List Record}
    (h : ∀ record ∈ records, filter.accepts record = .ok (keep record)) :
    filter.select records = .ok (records.filter keep) := by
  induction records with
  | nil => rfl
  | cons record rest ih =>
    obtain ⟨hrecord, hrest⟩ := List.forall_mem_cons.1 h
    rw [select, hrecord, ih hrest, List.filter_cons]
    rfl

/-- The first record that has no answer tells why. -/
theorem select_eq_error {before after : List Record} {record : Record} {e : QueryError}
    (hbefore : ∀ earlier ∈ before, ∃ accepted, filter.accepts earlier = .ok accepted)
    (h : filter.accepts record = .error e) :
    filter.select (before ++ record :: after) = .error e := by
  induction before with
  | nil =>
    rw [List.nil_append, select, h]
    rfl
  | cons earlier rest ih =>
    obtain ⟨⟨accepted, hearlier⟩, hrest⟩ := List.forall_mem_cons.1 hbefore
    rw [List.cons_append, select, hearlier, ih hrest]
    rfl

end Filter

namespace Node

variable {connective : Connective} {operands : List Node} {node x y : Node} {record : Record}

/-! ### Rewritings -/

/-- One law of the connectives, applied anywhere in a tree. -/
inductive Rewrites : Node → Node → Prop
  | merge {connective : Connective} (hconnective : connective ≠ .not)
      (before inner after : List Node) :
      Rewrites (.group connective (before ++ .group connective inner :: after))
        (.group connective (before ++ (inner ++ after)))
  | unwrap {connective : Connective} (hconnective : connective ≠ .not) (node : Node) :
      Rewrites (.group connective [node]) node
  | negatedOr (operands : List Node) :
      Rewrites (.group .not [.group .or operands])
        (.group .and (operands.map fun node => .group .not [node]))
  | negatedAnd (operands : List Node) :
      Rewrites (.group .not [.group .and operands])
        (.group .or (operands.map fun node => .group .not [node]))
  | doubleNegation (node : Node) : Rewrites (.group .not [.group .not [node]]) node
  | inside (connective : Connective) (before after : List Node) {x y : Node} (h : Rewrites x y) :
      Rewrites (.group connective (before ++ x :: after))
        (.group connective (before ++ y :: after))

/-- The operands of a negated chain are complete if their negations are. -/
theorem isComplete_negatedChain_iff {chained dual : Connective} (hchained : chained ≠ .not)
    (hdual : dual ≠ .not) : IsComplete (.group .not [.group chained operands]) ↔
      IsComplete (.group dual (operands.map fun node => .group .not [node])) := by
  rw [isComplete_negation_iff, isComplete_chain_iff hchained, isComplete_chain_iff hdual,
    List.forall_mem_map]
  simp only [isComplete_negation_iff]

/-- If an operand is exchanged for one that is complete if and only if the other is, the same holds
of the whole. -/
theorem isComplete_inside_iff (h : x.IsComplete ↔ y.IsComplete) (before after : List Node) :
    IsComplete (.group connective (before ++ x :: after)) ↔
      IsComplete (.group connective (before ++ y :: after)) := by
  by_cases hconnective : connective = .not
  · subst hconnective
    rw [isComplete_not_iff, isComplete_not_iff]
    cases before with
    | nil => simp [h]
    | cons first rest => simp
  · rw [isComplete_chain_iff hconnective, isComplete_chain_iff hconnective]
    simp only [List.forall_mem_append, List.forall_mem_cons, h]

/-- The laws keep trees complete, in both directions. -/
theorem isComplete_iff_of_rewrites (h : Rewrites x y) : x.IsComplete ↔ y.IsComplete := by
  induction h with
  | merge hconnective before inner after =>
    rw [isComplete_chain_iff hconnective, isComplete_chain_iff hconnective]
    simp only [List.forall_mem_append, List.forall_mem_cons, isComplete_chain_iff hconnective]
  | unwrap hconnective node =>
    rw [isComplete_chain_iff hconnective, List.forall_mem_singleton]
  | negatedOr operands => exact isComplete_negatedChain_iff (by decide) (by decide)
  | negatedAnd operands => exact isComplete_negatedChain_iff (by decide) (by decide)
  | doubleNegation node => rw [isComplete_negation_iff, isComplete_negation_iff]
  | inside connective before after _ ih => exact isComplete_inside_iff ih before after

/-- The laws keep the conditions of a tree, and their order. -/
theorem conditions_of_rewrites (h : Rewrites x y) : x.conditions = y.conditions := by
  induction h with
  | merge _ before inner after => simp [conditions, conditionsOf_eq_flatMap]
  | unwrap _ node => simp [conditions, conditionsOf_eq_flatMap]
  | negatedOr operands => simp [conditions, conditionsOf_eq_flatMap, List.flatMap_map]
  | negatedAnd operands => simp [conditions, conditionsOf_eq_flatMap, List.flatMap_map]
  | doubleNegation node => simp [conditions, conditionsOf_eq_flatMap]
  | inside _ before after _ ih => simp [conditions, conditionsOf_eq_flatMap, ih]

/-! ### Outcomes of trees -/

variable [PatternLimit]

/-- Operands that become filters become filters with their outcomes. -/
theorem exists_ofNodes (h : ∀ node ∈ operands, ∃ filter, Filter.ofNode node = .ok filter) :
    ∃ parts, Filter.ofNodes operands = .ok parts ∧
      ∀ record, parts.map (Filter.accepts record) = operands.map (accepts record) := by
  induction operands with
  | nil => exact ⟨[], rfl, fun _ => rfl⟩
  | cons node rest ih =>
    obtain ⟨⟨part, hpart⟩, hrest⟩ := List.forall_mem_cons.1 h
    obtain ⟨parts, hparts, hall⟩ := ih hrest
    refine ⟨part :: parts, ?_, fun record => ?_⟩
    · rw [Filter.ofNodes, hpart, hparts]
      rfl
    · rw [List.map_cons, List.map_cons, hall record, accepts_of_ofNode hpart record]

/-- The answer with which an operand decides an AND or an OR. -/
def decisive (connective : Connective) : Bool := connective = .or

/-- The outcome of an AND or an OR is the chain of those of its operands. -/
theorem accepts_chain (hconnective : connective ≠ .not)
    (hoperands : ∀ node ∈ operands, IsReady node) (record : Record) :
    (group connective operands).accepts record
      = Outcome.chain (decisive connective) (operands.map (accepts record)) := by
  obtain ⟨parts, hparts, hall⟩ :=
    exists_ofNodes fun node hnode => (hoperands node hnode).exists_ofNode
  have hjoin : ∀ {filter}, Filter.join connective parts = .ok filter →
      (group connective operands).accepts record = filter.accepts record := by
    intro filter hfilter
    refine (accepts_of_ofNode ?_ record).symm
    rw [Filter.ofNode, hparts]
    exact hfilter
  rw [← hall record]
  cases connective with
  | and =>
    rw [hjoin rfl]
    exact Filter.allAccept_eq_chain record parts
  | or =>
    rw [hjoin rfl]
    exact Filter.anyAccepts_eq_chain record parts
  | not => exact absurd rfl hconnective

/-- The outcome of a NOT is the contrary of that of its operand. -/
theorem accepts_negation (h : node.IsReady) (record : Record) :
    (group .not [node]).accepts record = Outcome.negated (node.accepts record) := by
  obtain ⟨part, hpart⟩ := h.exists_ofNode
  have hnot : Filter.ofNode (.group .not [node]) = .ok (.not part) := by
    rw [Filter.ofNode, Filter.ofNodes, hpart]
    rfl
  rw [← accepts_of_ofNode hnot, ← accepts_of_ofNode hpart, Filter.accepts]
  cases part.accepts record <;> rfl

/-- The group of a tree becomes a filter with the outcomes of the tree. -/
theorem IsReady.exists_ofGroup (h : node.IsReady) : ∃ filter,
    Filter.ofGroup node.toGroup = .ok filter ∧
      ∀ record, filter.accepts record = node.accepts record := by
  obtain ⟨filter, hfilter⟩ := failure?_eq_none_iff.1 ((failure?_ofGroup h.complete).trans h.read)
  refine ⟨filter, hfilter, fun record => ?_⟩
  rw [accepts, Group.accepts, hfilter]
  rfl

/-! ### Laws -/

/-- So they keep the pattern that is refused first. -/
theorem refusal?_of_rewrites (h : Rewrites x y) : x.refusal? = y.refusal? :=
  congrArg (List.findSome? Condition.refusal?) (conditions_of_rewrites h)

theorem isReady_iff_of_rewrites (h : Rewrites x y) : x.IsReady ↔ y.IsReady := by
  constructor
  · intro hx
    exact ⟨(isComplete_iff_of_rewrites h).1 hx.complete,
      (refusal?_of_rewrites h).symm.trans hx.read⟩
  · intro hy
    exact ⟨(isComplete_iff_of_rewrites h).2 hy.complete, (refusal?_of_rewrites h).trans hy.read⟩

/-- The contraries of outcomes are the outcomes of the negations. -/
theorem map_negated (hoperands : ∀ node ∈ operands, IsReady node) (record : Record) :
    (operands.map (accepts record)).map Outcome.negated
      = (operands.map fun node => group .not [node]).map (accepts record) := by
  rw [List.map_map, List.map_map]
  apply List.map_congr_left
  intro node hnode
  exact (accepts_negation (hoperands node hnode) record).symm

/-- NOT turns a chain into the other chain of the negations. -/
theorem accepts_negatedChain {chained dual : Connective} (hchained : chained ≠ .not)
    (hdual : dual ≠ .not) (hdecisive : decisive dual = !decisive chained)
    (hoperands : ∀ node ∈ operands, IsReady node) (record : Record) :
    (group .not [group chained operands]).accepts record
      = (group dual (operands.map fun node => group .not [node])).accepts record := by
  have hnegations : ∀ node ∈ operands.map fun node => group .not [node], IsReady node :=
    List.forall_mem_map.2 fun node hnode => isReady_negation_iff.2 (hoperands node hnode)
  rw [accepts_negation ((isReady_chain_iff hchained).2 hoperands),
    accepts_chain hchained hoperands, Outcome.negated_chain, map_negated hoperands,
    accepts_chain hdual hnegations, hdecisive]

/-- The laws keep the outcome of a tree that becomes a filter, an answer or a failure. -/
theorem IsReady.accepts_of_rewrites (h : Rewrites x y) (hx : x.IsReady) (record : Record) :
    x.accepts record = y.accepts record := by
  induction h with
  | @merge connective hconnective before inner after =>
    have hy := (isReady_iff_of_rewrites (.merge hconnective before inner after)).1 hx
    rw [isReady_chain_iff hconnective] at hx hy
    have hinner : ∀ node ∈ inner, IsReady node := fun node hnode =>
      hy node (List.mem_append_right _ (List.mem_append_left _ hnode))
    rw [accepts_chain hconnective hx, accepts_chain hconnective hy, List.map_append, List.map_cons,
      accepts_chain hconnective hinner, Outcome.chain_nested, List.map_append, List.map_append]
  | unwrap hconnective node =>
    rw [isReady_chain_iff hconnective] at hx
    rw [accepts_chain hconnective hx, List.map_singleton, Outcome.chain_singleton]
  | negatedOr operands =>
    have hoperands := (isReady_chain_iff (by decide)).1 (isReady_negation_iff.1 hx)
    exact accepts_negatedChain (by decide) (by decide) rfl hoperands record
  | negatedAnd operands =>
    have hoperands := (isReady_chain_iff (by decide)).1 (isReady_negation_iff.1 hx)
    exact accepts_negatedChain (by decide) (by decide) rfl hoperands record
  | doubleNegation node =>
    have hone := isReady_negation_iff.1 hx
    have hnode := isReady_negation_iff.1 hone
    rw [accepts_negation hone, accepts_negation hnode, Outcome.negated_negated]
  | inside connective before after hxy ih =>
    have hy := (isReady_iff_of_rewrites (.inside connective before after hxy)).1 hx
    by_cases hconnective : connective = .not
    · subst hconnective
      obtain ⟨node, hone, _⟩ := isComplete_not_iff.1 hx.complete
      obtain ⟨rfl, rfl, rfl⟩ : before = [] ∧ _ = node ∧ after = [] := by
        cases before with
        | nil => simpa using hone
        | cons first rest => simp at hone
      have hnode := isReady_negation_iff.1 hx
      rw [List.nil_append] at hy
      rw [List.nil_append, List.nil_append, accepts_negation hnode, ih hnode,
        accepts_negation (isReady_negation_iff.1 hy)]
    · rw [isReady_chain_iff hconnective] at hx hy
      rw [accepts_chain hconnective hx, accepts_chain hconnective hy, List.map_append,
        List.map_cons, ih (hx _ (List.mem_append_right _ List.mem_cons_self)), List.map_append,
        List.map_cons]

/-- The laws keep the outcome of a complete tree: the pattern that is refused first, if there is
one, and the outcome of its filter otherwise. -/
theorem accepts_of_rewrites (h : Rewrites x y) (hx : x.IsComplete) (record : Record) :
    x.accepts record = y.accepts record := by
  cases hrefusal : x.refusal? with
  | none => exact IsReady.accepts_of_rewrites h ⟨hx, hrefusal⟩ record
  | some e =>
    have hy : y.refusal? = some e := (refusal?_of_rewrites h).symm.trans hrefusal
    rw [accepts_of_refusal? hx hrefusal,
      accepts_of_refusal? ((isComplete_iff_of_rewrites h).1 hx) hy]

/-- So do any number of laws, in either direction. -/
theorem accepts_of_eqvGen (h : Relation.EqvGen Rewrites x y) :
    (x.IsComplete ↔ y.IsComplete) ∧
      (x.IsComplete → ∀ record, x.accepts record = y.accepts record) := by
  induction h with
  | rel x y hxy => exact ⟨isComplete_iff_of_rewrites hxy, accepts_of_rewrites hxy⟩
  | refl x => exact ⟨Iff.rfl, fun _ _ => rfl⟩
  | symm x y _ ih =>
    exact ⟨ih.1.symm, fun hy record => (ih.2 (ih.1.2 hy) record).symm⟩
  | trans x y z _ _ first second =>
    exact ⟨first.1.trans second.1, fun hx record =>
      (first.2 hx record).trans (second.2 (first.1.1 hx) record)⟩

/-! ### Fields -/

/-- A condition of the tree is on the field. -/
inductive Names : Node → String → Prop
  | condition (c : Condition) : Names (.condition c) c.field
  | inside {connective : Connective} {operands : List Node} {node : Node} {field : String}
      (hnode : node ∈ operands) (h : Names node field) : Names (.group connective operands) field

/-- The outcome of a tree that becomes a filter depends on the fields alone that its conditions are
on. -/
theorem IsReady.accepts_congr (h : node.IsReady) {record other : Record}
    (hfields : ∀ field, node.Names field → Fields.get? field other = Fields.get? field record) :
    node.accepts other = node.accepts record := by
  obtain ⟨hcomplete, hread⟩ := h
  induction hcomplete with
  | condition c =>
    rw [accepts_condition, accepts_condition, Condition.accepts, Condition.accepts]
    refine bind_congr fun pattern => ?_
    rw [Condition.acceptsWith, Condition.acceptsWith, hfields c.field (.condition c)]
  | chain hconnective hoperands ih =>
    have hready : ∀ node ∈ _, IsReady node := fun node hnode =>
      ⟨hoperands node hnode, refusal?_group_eq_none_iff.1 hread node hnode⟩
    rw [accepts_chain hconnective hready, accepts_chain hconnective hready,
      List.map_congr_left fun node hnode =>
        ih node hnode (fun field hfield => hfields field (.inside hnode hfield))
          (hready node hnode).read]
  | @negation node hnode ih =>
    have hready : IsReady node :=
      ⟨hnode, refusal?_group_eq_none_iff.1 hread node List.mem_cons_self⟩
    rw [accepts_negation hready, accepts_negation hready,
      ih (fun field hfield => hfields field (.inside List.mem_cons_self hfield)) hready.read]

/-- A pattern that is refused depends on no field, so the same holds of every complete tree. -/
theorem accepts_congr (h : node.IsComplete) {record other : Record}
    (hfields : ∀ field, node.Names field → Fields.get? field other = Fields.get? field record) :
    node.accepts other = node.accepts record := by
  cases hrefusal : node.refusal? with
  | none => exact IsReady.accepts_congr ⟨h, hrefusal⟩ hfields
  | some e => rw [accepts_of_refusal? h hrefusal, accepts_of_refusal? h hrefusal]

end Node

/-! ### Queries -/

namespace Query

variable {q : Query} {document : Document} {records : List Record}

/-- The records of a table are those of the list that is found under its name. -/
theorem tableRecords_of_get? {table : String}
    (h : Fields.get? table document = some (.array (records.map .object))) :
    tableRecords document table = .ok records := by
  rw [tableRecords, h]
  exact mapError_eq_ok.2 (Value.recordsFrom_eq_ok_iff.2 rfl)

variable [PatternLimit] {x : Node}

/-- A query makes its filter before it goes through the records of its table. -/
theorem execute_of_filter {group : Group} (hgroup : q.filter = some group)
    (htable : Fields.get? q.table document = some (.array (records.map .object))) :
    q.execute document = (do
      let filter ← Filter.ofGroup group
      let selected ← filter.select records
      let ordered ← q.inOrder (q.projected selected)
      return q.page ordered) := by
  have hfiltered : q.filtered records = Filter.ofGroup group >>= fun filter =>
      filter.select records := by
    rw [filtered, hgroup]
  rw [execute, tableRecords_of_get? htable]
  change (q.filtered records >>= _) = _
  rw [hfiltered, bind_assoc]

/-- A query with a refused pattern fails, however many records there are. -/
theorem execute_of_refusal? (hx : x.IsComplete) (hgroup : q.filter = some x.toGroup)
    (htable : Fields.get? q.table document = some (.array (records.map .object)))
    {e : QueryError} (he : x.refusal? = some e) : q.execute document = .error e := by
  rw [execute_of_filter hgroup htable, Node.ofGroup_eq_error hx he]
  rfl

/-- A query goes on with the records whose answer is yes. -/
theorem execute_eq_of_answers (hx : x.IsReady) (hgroup : q.filter = some x.toGroup)
    (htable : Fields.get? q.table document = some (.array (records.map .object)))
    {keep : Record → Bool} (hkeep : ∀ record ∈ records, x.accepts record = .ok (keep record)) :
    q.execute document = (q.inOrder (q.projected (records.filter keep))).map q.page := by
  obtain ⟨filter, hfilter, haccepts⟩ := hx.exists_ofGroup
  have hselect : filter.select records = .ok (records.filter keep) :=
    Filter.select_eq_ok fun record hrecord => (haccepts record).trans (hkeep record hrecord)
  rw [execute_of_filter hgroup htable, hfilter]
  change (filter.select records >>= _) = _
  rw [hselect]
  change (q.inOrder _ >>= fun ordered => .ok (q.page ordered)) = _
  cases q.inOrder (q.projected (records.filter keep)) <;> rfl

/-- A query fails as the first record without an answer does. -/
theorem execute_eq_of_failure (hx : x.IsReady) (hgroup : q.filter = some x.toGroup)
    {before after : List Record} {record : Record} {e : QueryError}
    (htable : Fields.get? q.table document
      = some (.array ((before ++ record :: after).map .object)))
    (hbefore : ∀ earlier ∈ before, ∃ accepted, x.accepts earlier = .ok accepted)
    (hrecord : x.accepts record = .error e) : q.execute document = .error e := by
  obtain ⟨filter, hfilter, haccepts⟩ := hx.exists_ofGroup
  simp only [← haccepts] at hbefore hrecord
  rw [execute_of_filter hgroup htable, hfilter]
  change (filter.select _ >>= _) = _
  rw [Filter.select_eq_error hbefore hrecord]
  rfl

end Query

namespace Node

/-- The outcome of the tree of a query, an answer or a failure, is kept by the laws of the
connectives wherever they are applied, and depends on the fields alone that the tree names.  A
condition alone and the filter of the tree have the outcomes of the tree.  There is no filter if a
pattern of the tree is refused: then the first refusal is the outcome for every record, and the
query fails with it, also if there is no record.  Otherwise the query goes on with exactly the
records whose answer is yes, in their order, and fails as the first record without an answer
does. -/
theorem accepts_laws [PatternLimit] {x : Node} (h : x.IsComplete) :
    (∀ y, Relation.EqvGen Rewrites x y → ∀ record, y.accepts record = x.accepts record) ∧
    (∀ record other : Record,
      (∀ field, x.Names field → Fields.get? field other = Fields.get? field record) →
        x.accepts other = x.accepts record) ∧
    (∀ c record, x = .condition c → x.accepts record = c.accepts record) ∧
    (x.refusal? = none → ∃ filter, Filter.ofGroup x.toGroup = .ok filter ∧
      ∀ record, filter.accepts record = x.accepts record) ∧
    (∀ e, x.refusal? = some e → Filter.ofGroup x.toGroup = .error e ∧
      ∀ record, x.accepts record = .error e) ∧
    ∀ (q : Query) (document : Document) (records : List Record), q.filter = some x.toGroup →
      Fields.get? q.table document = some (.array (records.map .object)) →
      (∀ e, x.refusal? = some e → q.execute document = .error e) ∧
      (x.refusal? = none ∨ records ≠ [] →
        ∀ keep : Record → Bool, (∀ record ∈ records, x.accepts record = .ok (keep record)) →
          q.execute document
            = (q.inOrder (q.projected (records.filter keep))).map q.page) ∧
      ∀ before record after e, records = before ++ record :: after →
        (∀ earlier ∈ before, ∃ accepted, x.accepts earlier = .ok accepted) →
        x.accepts record = .error e → q.execute document = .error e := by
  refine ⟨fun y hy record => ((accepts_of_eqvGen hy).2 h record).symm,
    fun record other => accepts_congr h, ?_, fun hread => IsReady.exists_ofGroup ⟨h, hread⟩,
    fun e he => ⟨ofGroup_eq_error h he, accepts_of_refusal? h he⟩, ?_⟩
  · rintro c record rfl
    exact accepts_condition c record
  · intro q document records hq htable
    have hrefused : ∀ e, x.refusal? = some e → q.execute document = .error e :=
      fun e he => Query.execute_of_refusal? h hq htable he
    refine ⟨hrefused, ?_, ?_⟩
    · intro hread keep hkeep
      have hnone : x.refusal? = none := by
        obtain hnone | hrecords := hread
        · exact hnone
        · obtain ⟨record, hrecord⟩ := List.exists_mem_of_ne_nil records hrecords
          exact refusal?_eq_none_of_answer h (hkeep record hrecord)
      exact Query.execute_eq_of_answers ⟨h, hnone⟩ hq htable hkeep
    · rintro before record after e rfl hbefore hrecord
      cases hrefusal : x.refusal? with
      | none => exact Query.execute_eq_of_failure ⟨h, hrefusal⟩ hq htable hbefore hrecord
      | some refused =>
        rw [accepts_of_refusal? h hrefusal] at hrecord
        rw [hrefused refused hrefusal]
        cases hrecord
        rfl

/-- A negation of alternatives, the second of them the negation of a pattern.  Of three records the
first lacks the field of the one condition, the second has null there, and the third a text that
fails to be compared with a number. -/
theorem accepts_laws_sample :
    let one : Value := .number (.integer 1 (by decide))
    let less : Condition := ⟨"v", .less, one, none⟩
    let named : Condition := ⟨"w", .like, .string "A%", none⟩
    let x : Node := .group .not [.group .or [.condition less, .group .not [.condition named]]]
    let y : Node := .group .and [.group .not [.condition less], .condition named]
    let first : Record := [("w", .string "a")]
    let second : Record := [("v", .null), ("w", .string "b")]
    let third : Record := [("v", .string "z")]
    let q : Query := ⟨"t", none, some x.toGroup, none, .ascending, none, 0⟩
    x.IsComplete ∧ Relation.EqvGen Rewrites x y ∧
      (∀ record, y.accepts record = x.accepts record) ∧
      q.execute [("t", .array ([second, first].map .object))] = .ok [first] ∧
      q.execute [("t", .array ([first, third, second].map .object))]
        = .error (.incomparable .str .int less) := by
  intro one less named x y first second third q
  have hx : x.IsComplete := by
    refine .negation (.chain (by decide) ?_)
    simp only [List.forall_mem_cons]
    exact ⟨.condition less, .negation (.condition named), nofun⟩
  have hmoved : Rewrites x (.group .and
      [.group .not [.condition less], .group .not [.group .not [.condition named]]]) :=
    .negatedOr [.condition less, .group .not [.condition named]]
  have hremoved : Rewrites (.group .and
      [.group .not [.condition less], .group .not [.group .not [.condition named]]]) y :=
    .inside .and [.group .not [.condition less]] [] (.doubleNegation (.condition named))
  have hxy : Relation.EqvGen Rewrites x y := .trans _ _ _ (.rel _ _ hmoved) (.rel _ _ hremoved)
  have hfirst : x.accepts first = .ok true := rfl
  have hsecond : x.accepts second = .ok false := rfl
  have hthird : x.accepts third = .error (.incomparable .str .int less) := rfl
  obtain ⟨hlaws, _, _, _, _, hexecute⟩ := accepts_laws hx
  refine ⟨hx, hxy, hlaws y hxy, ?_, ?_⟩
  · obtain ⟨_, hanswers, _⟩ :=
      hexecute q [("t", .array ([second, first].map .object))] [second, first] rfl rfl
    refine hanswers (.inl rfl) (fun record => record.length = 1) ?_
    simp only [List.forall_mem_cons]
    exact ⟨hsecond, hfirst, nofun⟩
  · obtain ⟨_, _, hfails⟩ := hexecute q
      [("t", .array ([first, third, second].map .object))] [first, third, second] rfl rfl
    refine hfails [first] third [second] _ rfl ?_ hthird
    exact List.forall_mem_singleton.2 ⟨true, hfirst⟩

/-- A pattern beyond the limit is an error of the query even where no record fails, for there is
none. -/
theorem execute_refused_without_records :
    let pattern := List.replicate 100000 '_'
    let x : Node := .condition ⟨"a", .like, .string (String.ofList pattern), none⟩
    let q : Query := ⟨"t", none, some x.toGroup, none, .ascending, none, 0⟩
    let records : List Record := []
    x.IsComplete ∧ (∀ record ∈ records, x.accepts record = .ok true) ∧
      q.execute [("t", .array (records.map .object))]
        = .error (.refusedPattern (String.ofList pattern)
          "Compiled regex exceeds size limit of 10485760 bytes.") := by
  intro pattern x q records
  have hcount : ¬ pattern.count '_' ≤ 65536 := by
    rw [List.count_replicate_self]
    decide
  have htext : Condition.patternText ⟨"a", .like, .string (String.ofList pattern), none⟩
      = pattern := String.toList_ofList
  have hrefusal : x.refusal? = some (.refusedPattern (String.ofList pattern)
      "Compiled regex exceeds size limit of 10485760 bytes.") := by
    rw [refusal?_condition, Condition.refusal?_like rfl, htext]
    exact congrArg _ (if_neg hcount)
  have hx : x.IsComplete := .condition _
  have htable : Fields.get? q.table [("t", .array (records.map .object))]
      = some (.array (records.map .object)) := rfl
  refine ⟨hx, ?_, Query.execute_of_refusal? hx rfl htable hrefusal⟩
  intro record hrecord
  exact absurd hrecord List.not_mem_nil

end Node
end TableNotation
