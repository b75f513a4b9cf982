import TableNotation.Proofs.Success
import TableNotation.Query.Filter
/-!
# Refused patterns

A tree of conditions becomes a filter before any record is looked at.  For this its patterns are
read in the order in which they stand in the tree, whatever the connectives around them, and the
first one that is refused is the error of the whole tree.  So a tree with a refused pattern fails
for every record alike, even where AND or OR would not ask for the pattern.

* `Node.conditions`: the conditions of a tree in order; `Node.refusal?`: the first refusal.
* `Node.IsComplete`: trees in which each NOT has one operand.
* `Node.failure?_ofNode`: a complete tree becomes a filter unless a pattern is refused.
* `Node.accepts_of_refusal?`: the outcome of a tree with a refused pattern.
* `Node.IsReady`: the trees that become filters; `accepts_of_ofNode`: with what outcomes.
-/

namespace TableNotation

/-- Why the pattern of a condition is refused, if it has one that is. -/
def Condition.refusal? [PatternLimit] (c : Condition) : Option QueryError := failure? c.pattern?

/-- The refusal of the pattern of `LIKE` quotes the pattern. -/
theorem Condition.refusal?_like [PatternLimit] {c : Condition} (h : c.comparison = .like) :
    c.refusal? = (PatternLimit.refusal? c.patternText).map
      (.refusedPattern (String.ofList c.patternText)) := by
  rw [refusal?, pattern?, if_pos h, readPattern]
  cases PatternLimit.refusal? c.patternText <;> rfl

namespace Node

mutual

/-- The conditions of a tree, in order. -/
def conditions : Node → List Condition
  | .condition c => [c]
  | .group _ operands => conditionsOf operands

/-- The conditions of trees, in order. -/
def conditionsOf : List Node → List Condition
  | [] => []
  | node :: rest => conditions node ++ conditionsOf rest

end

theorem conditionsOf_eq_flatMap (operands : List Node) :
    conditionsOf operands = operands.flatMap conditions := by
  induction operands with
  | nil => rfl
  | cons node rest ih => rw [conditionsOf, ih, List.flatMap_cons]

/-- The first refusal of a pattern in a tree. -/
def refusal? [PatternLimit] (node : Node) : Option QueryError :=
  node.conditions.findSome? Condition.refusal?

theorem refusal?_condition [PatternLimit] (c : Condition) :
    (condition c).refusal? = c.refusal? := List.findSome?_singleton

/-- Each NOT in the tree has one operand. -/
inductive IsComplete : Node → Prop
  | condition (c : Condition) : IsComplete (.condition c)
  | chain {connective : Connective} {operands : List Node} (hconnective : connective ≠ .not)
      (hoperands : ∀ node ∈ operands, IsComplete node) : IsComplete (.group connective operands)
  | negation {node : Node} (hnode : IsComplete node) : IsComplete (.group .not [node])

variable {connective : Connective} {operands : List Node} {node : Node} {record : Record}

theorem isComplete_chain_iff (hconnective : connective ≠ .not) :
    IsComplete (.group connective operands) ↔ ∀ node ∈ operands, IsComplete node := by
  constructor
  · intro h
    cases h with
    | chain _ hoperands => exact hoperands
    | negation _ => exact absurd rfl hconnective
  · exact .chain hconnective

theorem isComplete_not_iff :
    IsComplete (.group .not operands) ↔ ∃ node, operands = [node] ∧ IsComplete node := by
  constructor
  · intro h
    cases h with
    | chain hconnective _ => exact absurd rfl hconnective
    | @negation node hnode => exact ⟨node, rfl, hnode⟩
  · rintro ⟨node, rfl, hnode⟩
    exact .negation hnode

theorem isComplete_negation_iff : IsComplete (.group .not [node]) ↔ IsComplete node := by
  rw [isComplete_not_iff]
  simp

variable [PatternLimit]

/-! ### Filters of trees -/

/-- Trees become filters unless a pattern in one of them is refused, if each of them does. -/
theorem failure?_ofNodes
    (h : ∀ node ∈ operands, failure? (Filter.ofNode node) = node.refusal?) :
    failure? (Filter.ofNodes operands) = (conditionsOf operands).findSome? Condition.refusal? := by
  induction operands with
  | nil => rfl
  | cons node rest ih =>
    obtain ⟨hnode, hrest⟩ := List.forall_mem_cons.1 h
    rw [conditionsOf, List.findSome?_append, ← ih hrest]
    change _ = Option.or node.refusal? _
    rw [← hnode, Filter.ofNodes]
    cases Filter.ofNode node with
    | error e => rfl
    | ok part => cases Filter.ofNodes rest <;> rfl

/-- A tree becomes a filter unless a pattern in it is refused, if each NOT in it has its operand. -/
theorem failure?_ofNode (h : node.IsComplete) : failure? (Filter.ofNode node) = node.refusal? := by
  induction h with
  | condition c =>
    have hleaf : failure? (Filter.ofNode (.condition c)) = c.refusal? :=
      failure?_bind fun pattern _ => ⟨.leaf c pattern, rfl⟩
    rw [hleaf, refusal?_condition]
  | @chain connective operands hconnective _ ih =>
    rw [refusal?, conditions, ← failure?_ofNodes ih, Filter.ofNode]
    refine failure?_bind fun parts _ => ?_
    cases connective with
    | and => exact ⟨.all parts, rfl⟩
    | or => exact ⟨.any parts, rfl⟩
    | not => exact absurd rfl hconnective
  | @negation node _ ih =>
    have hone : ∀ part ∈ [node], failure? (Filter.ofNode part) = part.refusal? :=
      List.forall_mem_singleton.2 ih
    rw [refusal?, conditions, ← failure?_ofNodes hone, Filter.ofNode]
    refine failure?_bind fun parts hparts => ?_
    obtain ⟨part, _, hparts⟩ := bind_eq_ok.1 hparts
    obtain rfl := Except.ok.inj hparts
    exact ⟨.not part, rfl⟩

/-- So does the group of the tree. -/
theorem failure?_ofGroup (h : node.IsComplete) :
    failure? (Filter.ofGroup node.toGroup) = node.refusal? := by
  cases node with
  | condition c =>
    have hone : IsComplete (.group .and [.condition c]) :=
      .chain (by decide) (List.forall_mem_singleton.2 (.condition c))
    exact failure?_ofNode hone
  | group connective operands => exact failure?_ofNode h

/-- A tree with a refused pattern has no filter. -/
theorem ofGroup_eq_error (h : node.IsComplete) {e : QueryError} (he : node.refusal? = some e) :
    Filter.ofGroup node.toGroup = .error e :=
  failure?_eq_some_iff.1 ((failure?_ofGroup h).trans he)

/-! ### Outcomes -/

/-- The outcome of a tree for a record.  A condition alone is asked as an AND of one. -/
def accepts (record : Record) (node : Node) : Except QueryError Bool := node.toGroup.accepts record

/-- A refused pattern is the outcome of its tree for every record. -/
theorem accepts_of_refusal? (h : node.IsComplete) {e : QueryError} (he : node.refusal? = some e)
    (record : Record) : node.accepts record = .error e := by
  rw [accepts, Group.accepts, ofGroup_eq_error h he]
  rfl

/-- A record with an answer shows that no pattern is refused. -/
theorem refusal?_eq_none_of_answer (h : node.IsComplete) {accepted : Bool}
    (haccepted : node.accepts record = .ok accepted) : node.refusal? = none := by
  cases hrefusal : node.refusal? with
  | none => rfl
  | some e =>
    rw [accepts_of_refusal? h hrefusal] at haccepted
    cases haccepted

/-- A condition alone has the outcome of the condition. -/
theorem accepts_condition (c : Condition) (record : Record) :
    (condition c).accepts record = c.accepts record := by
  rw [accepts, toGroup, Group.accepts, Filter.ofGroup, Filter.ofNode, Filter.ofNodes,
    Filter.ofNodes, Filter.ofNode, Condition.accepts]
  cases c.pattern? with
  | error e => rfl
  | ok pattern =>
    change (c.acceptsWith pattern record >>= fun accepted =>
      if accepted then Except.ok true else Except.ok false) = c.acceptsWith pattern record
    cases c.acceptsWith pattern record with
    | error e => rfl
    | ok accepted => cases accepted <;> rfl

/-- The filter of a tree has the outcomes of the tree. -/
theorem accepts_of_ofNode {filter : Filter} (h : Filter.ofNode node = .ok filter)
    (record : Record) : filter.accepts record = node.accepts record := by
  cases node with
  | condition c =>
    obtain ⟨pattern, hpattern, hfilter⟩ := bind_eq_ok.1 h
    obtain rfl := Except.ok.inj hfilter
    rw [accepts_condition, Condition.accepts, hpattern]
    rfl
  | group connective operands =>
    have hgroup : (group connective operands).accepts record
        = Filter.ofNode (.group connective operands) >>= Filter.accepts record := rfl
    rw [hgroup, h]
    rfl

/-! ### Trees that become filters -/

/-- The tree is complete, and none of its patterns is refused. -/
structure IsReady (node : Node) : Prop where
  complete : node.IsComplete
  read : node.refusal? = none

theorem IsReady.exists_ofNode (h : node.IsReady) : ∃ filter, Filter.ofNode node = .ok filter :=
  failure?_eq_none_iff.1 ((failure?_ofNode h.complete).trans h.read)

/-- No pattern of a group is refused if none of an operand is. -/
theorem refusal?_group_eq_none_iff : (group connective operands).refusal? = none ↔
    ∀ node ∈ operands, node.refusal? = none := by
  simp only [refusal?, conditions, conditionsOf_eq_flatMap, List.findSome?_eq_none_iff,
    List.mem_flatMap]
  exact ⟨fun h node hnode c hc => h c ⟨node, hnode, hc⟩,
    fun h c ⟨node, hnode, hc⟩ => h node hnode c hc⟩

theorem isReady_chain_iff (hconnective : connective ≠ .not) :
    IsReady (.group connective operands) ↔ ∀ node ∈ operands, IsReady node := by
  constructor
  · intro h node hnode
    exact ⟨(isComplete_chain_iff hconnective).1 h.complete node hnode,
      refusal?_group_eq_none_iff.1 h.read node hnode⟩
  · intro h
    exact ⟨.chain hconnective fun node hnode => (h node hnode).complete,
      refusal?_group_eq_none_iff.2 fun node hnode => (h node hnode).read⟩

theorem isReady_negation_iff : IsReady (.group .not [node]) ↔ IsReady node := by
  constructor
  · intro h
    exact ⟨isComplete_negation_iff.1 h.complete,
      refusal?_group_eq_none_iff.1 h.read node List.mem_cons_self⟩
  · intro h
    exact ⟨.negation h.complete, refusal?_group_eq_none_iff.2 (List.forall_mem_singleton.2 h.read)⟩

end Node
end TableNotation
