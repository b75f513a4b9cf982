import TableNotation.Proofs.Query.Printing
import TableNotation.Proofs.Query.Selection
/-!
# Wrapped queries

A wrapper is looked for before a text is cut into tokens: it begins at the first
`@query[`, in any case of its letters, and what it holds reaches up to the last bracket.
So a text that is wrapped as a whole is read as what is written inside, whatever that is.
A text that is not wrapped is read as it is written only if it holds no wrapper anywhere,
and the quotes around a wrapper do not hide it.

* `Wraps`: what a wrapper holds.
* `wraps_iff`: it is found by looking for the first mark and then for the last bracket.
* `parse_query`: how a text and the line that shows it are read.
* `parse_mentioned_wrapper`: they are read differently if a wrapper stands between quotes.
-/

namespace TableNotation

/-- A list without `x` that begins what has `x` behind `front` already begins `front`. -/
theorem prefix_of_prefix_append_cons {α : Type} {s front behind : List α} {x : α}
    (h : s <+: front ++ x :: behind) (hx : x ∉ s) : s <+: front := by
  have hfront : front ++ [x] <+: front ++ x :: behind := ⟨behind, by simp⟩
  rcases List.prefix_or_prefix_of_prefix h hfront with hs | hs
  · rcases List.prefix_concat_iff.1 hs with rfl | hs
    · exact absurd (List.mem_append_right _ List.mem_cons_self) hx
    · exact hs
  · exact absurd (hs.subset (List.mem_append_right _ List.mem_cons_self)) hx

namespace Query

/-- The query of a text as it is written, without regard to wrappers. -/
def written (text : List Char) : Except QueryError Query := do
  let tokens ← Token.ofQuery text
  ofTokens tokens

/-- A text has `inner` between its first wrapper and its last bracket. -/
def Wraps (text inner : List Char) : Prop :=
  ∃ front mark behind, text = front ++ (mark ++ (inner ++ ']' :: behind)) ∧
    mark.map Char.toUpper = wrapper ∧ ¬ wrapper <:+: front.map Char.toUpper ∧ ']' ∉ behind

variable {text inner : List Char}

/-! ### The first mark and the last bracket -/

theorem afterWrapper?_cons (c : Char) (rest : List Char) : afterWrapper? (c :: rest)
    = if wrapper <+: (c :: rest).map Char.toUpper then some ((c :: rest).drop wrapper.length)
      else afterWrapper? rest := by
  rw [afterWrapper?]
  simp only [List.prefix_iff_eq_take, List.map_take, eq_comm]

/-- The mark has its sign at the beginning only, so it never overlaps with itself: where a
mark begins behind some characters, no mark begins among them that does not end there. -/
theorem not_prefix_of_mark {front mark rest : List Char} {c : Char}
    (hmark : mark.map Char.toUpper = wrapper)
    (hfront : ¬ wrapper <:+: (c :: front).map Char.toUpper) :
    ¬ wrapper <+: (c :: (front ++ (mark ++ rest))).map Char.toUpper := by
  intro h
  have hsign : wrapper = '@' :: wrapper.tail := by decide
  rw [List.map_cons, List.map_append, List.map_append, hmark, hsign, List.cons_prefix_cons] at h
  have htail : wrapper.tail <+: front.map Char.toUpper :=
    prefix_of_prefix_append_cons h.2 (by decide)
  have hwhole : wrapper <+: (c :: front).map Char.toUpper := by
    rw [List.map_cons, hsign, List.cons_prefix_cons]
    exact ⟨h.1, htail⟩
  exact hfront hwhole.isInfix

/-- What stands behind the first mark is found. -/
theorem afterWrapper?_append {front mark rest : List Char} (hmark : mark.map Char.toUpper = wrapper)
    (hfront : ¬ wrapper <:+: front.map Char.toUpper) :
    afterWrapper? (front ++ (mark ++ rest)) = some rest := by
  induction front with
  | nil =>
    have hlength : mark.length = wrapper.length := by rw [← hmark, List.length_map]
    cases mark with
    | nil => cases hmark
    | cons m mark =>
      have hhead : wrapper <+: (m :: (mark ++ rest)).map Char.toUpper := by
        rw [← List.cons_append, List.map_append, hmark]
        exact List.prefix_append _ _
      rw [List.nil_append, List.cons_append, afterWrapper?_cons, if_pos hhead,
        ← List.cons_append, ← hlength, List.drop_left]
  | cons c front ih =>
    rw [List.cons_append, afterWrapper?_cons, if_neg (not_prefix_of_mark hmark hfront)]
    apply ih
    intro hinfix
    exact hfront (List.infix_cons hinfix)

/-- What is found behind a mark stands behind the first one. -/
theorem exists_of_afterWrapper? {rest : List Char} (h : afterWrapper? text = some rest) :
    ∃ front mark, text = front ++ (mark ++ rest) ∧ mark.map Char.toUpper = wrapper ∧
      ¬ wrapper <:+: front.map Char.toUpper := by
  induction text with
  | nil => cases h
  | cons c tail ih =>
    rw [afterWrapper?_cons] at h
    by_cases hhead : wrapper <+: (c :: tail).map Char.toUpper
    · rw [if_pos hhead] at h
      refine ⟨[], (c :: tail).take wrapper.length, ?_, ?_, by decide⟩
      · rw [← Option.some.inj h, List.nil_append, List.take_append_drop]
      · rw [List.map_take]
        exact (List.prefix_iff_eq_take.1 hhead).symm
    · rw [if_neg hhead] at h
      obtain ⟨front, mark, rfl, hmark, hfront⟩ := ih h
      refine ⟨c :: front, mark, rfl, hmark, ?_⟩
      intro hinfix
      rcases List.infix_cons_iff.1 hinfix with hstart | hinfix
      · refine hhead (hstart.trans ?_)
        rw [List.map_cons, List.map_append, List.cons_prefix_cons]
        exact ⟨rfl, List.prefix_append _ _⟩
      · exact hfront hinfix

/-- There is nothing in front of a last bracket only if there is none. -/
theorem beforeLastBracket?_eq_none_iff : beforeLastBracket? text = none ↔ ']' ∉ text := by
  induction text with
  | nil => simp [beforeLastBracket?]
  | cons c rest ih =>
    rw [beforeLastBracket?, List.mem_cons, not_or, ← ih]
    cases beforeLastBracket? rest with
    | none => simp [eq_comm]
    | some before => simp

/-- What stands in front of the last bracket is found. -/
theorem beforeLastBracket?_append {behind : List Char} (h : ']' ∉ behind) :
    beforeLastBracket? (inner ++ ']' :: behind) = some inner := by
  induction inner with
  | nil =>
    rw [List.nil_append, beforeLastBracket?, beforeLastBracket?_eq_none_iff.2 h]
    rfl
  | cons c rest ih => rw [List.cons_append, beforeLastBracket?, ih]

/-- What is found in front of a bracket stands in front of the last one. -/
theorem exists_of_beforeLastBracket? (h : beforeLastBracket? text = some inner) :
    ∃ behind, text = inner ++ ']' :: behind ∧ ']' ∉ behind := by
  induction text generalizing inner with
  | nil => cases h
  | cons c rest ih =>
    rw [beforeLastBracket?] at h
    cases hrest : beforeLastBracket? rest with
    | some before =>
      rw [hrest] at h
      obtain rfl := Option.some.inj h
      obtain ⟨behind, rfl, hbehind⟩ := ih hrest
      exact ⟨behind, rfl, hbehind⟩
    | none =>
      rw [hrest] at h
      by_cases hc : c = ']'
      · subst hc
        obtain rfl := Option.some.inj h
        exact ⟨rest, rfl, beforeLastBracket?_eq_none_iff.1 hrest⟩
      · simp [hc] at h

/-- What a wrapper holds is found, and nothing else is. -/
theorem wraps_iff : Wraps text inner ↔
    (afterWrapper? text).bind beforeLastBracket? = some inner := by
  constructor
  · intro h
    obtain ⟨front, mark, behind, rfl, hmark, hfront, hbehind⟩ := h
    rw [afterWrapper?_append hmark hfront, Option.bind_some, beforeLastBracket?_append hbehind]
  · intro h
    obtain ⟨rest, hrest, hinner⟩ := Option.bind_eq_some_iff.1 h
    obtain ⟨front, mark, htext, hmark, hfront⟩ := exists_of_afterWrapper? hrest
    obtain ⟨behind, rfl, hbehind⟩ := exists_of_beforeLastBracket? hinner
    exact ⟨front, mark, behind, htext, hmark, hfront, hbehind⟩

instance (text inner : List Char) : Decidable (Wraps text inner) :=
  decidable_of_iff _ wraps_iff.symm

/-! ### Reading -/

/-- A text that holds a wrapper is read as what stands inside. -/
theorem parse_of_wraps {body : String} (h : Wraps body.toList inner) :
    parse body = written inner := by
  rw [parse, parseChars, unwrap, wraps_iff.1 h]
  rfl

/-- Any other text is read as it is written. -/
theorem parse_of_not_wraps {body : String} (h : ¬ ∃ inner, Wraps body.toList inner) :
    parse body = written body.toList := by
  have hnone : (afterWrapper? body.toList).bind beforeLastBracket? = none := by
    rw [Option.eq_none_iff_forall_not_mem]
    intro inner hinner
    exact h ⟨inner, wraps_iff.2 hinner⟩
  rw [parse, parseChars, unwrap, hnone]
  rfl

/-- A query in the form in which queries are read is read back from its text as it is
written. -/
theorem written_text {q : Query} (h : q.IsBuilt) : written q.text = .ok q := by
  obtain ⟨tokens, htokens, hderives⟩ := ofQuery_text h
  rw [written, htokens]
  exact ofTokens_of_derives hderives

/-- The line of a query wraps it, whatever it is. -/
theorem wraps_query (body : String) : Wraps (Directive.query body) body.toList :=
  ⟨[], Directive.queryMark ++ ['['], [], by simp [Directive.query, Directive.line], by decide,
    by decide, List.not_mem_nil⟩

/-- The line of a query is read as the query is written.  The query alone is read in the
same way if it holds no wrapper, and so the line in front of a selection is read as the query
that was answered.  But a query that holds a wrapper is read as what the wrapper
holds, wherever it stands. -/
theorem parse_query [PatternLimit] (body : String) :
    let shown := parse (String.ofList (Directive.query body))
    shown = written body.toList ∧
      ((¬ ∃ inner, Wraps body.toList inner) → parse body = shown ∧
        ∀ settings document out, encodeSelection settings document body = .ok out →
          ∃ q behind, out.toList = Directive.query body ++ '\n' :: '\n' :: behind ∧
            parse body = .ok q ∧ shown = .ok q) ∧
      ∀ inner, Wraps body.toList inner → parse body = written inner := by
  intro shown
  have hshown : shown = written body.toList := by
    apply parse_of_wraps
    rw [String.toList_ofList]
    exact wraps_query body
  refine ⟨hshown, fun hfree => ?_, fun inner hinner => parse_of_wraps hinner⟩
  have hsame : parse body = shown := (parse_of_not_wraps hfree).trans hshown.symm
  refine ⟨hsame, fun settings document out hencode => ?_⟩
  obtain ⟨q, rows, hparse, _, rfl⟩ := encodeSelection_eq_ok_iff.1 hencode
  exact ⟨q, _, String.toList_ofList, hparse, hsame ▸ hparse⟩

/-- A text between quotes that holds a wrapper, in a query that is not wrapped and in the
same query wrapped. -/
theorem parse_query_sample :
    let body := "t WHERE a = '@query[u]'"
    Wraps body.toList ['u'] ∧ parse body = written ['u'] ∧
      parse (String.ofList (Directive.query body)) = written body.toList := by
  intro body
  have hwraps : Wraps body.toList ['u'] := by decide +kernel
  obtain ⟨hshown, _, hheld⟩ := parse_query body
  exact ⟨hwraps, hheld _ hwraps, hshown⟩

/-- A query that has a wrapper between quotes is read as another one if it is not wrapped. -/
theorem parse_mentioned_wrapper :
    let body := "t WHERE a = '@query[u]'"
    ∃ q shown, parse body = .ok q ∧ parse (String.ofList (Directive.query body)) = .ok shown ∧
      q.table = "u" ∧ shown.table = "t" := by
  intro body
  let condition : Condition := ⟨"a", .equal, .string "@query[u]", none⟩
  let inner : Query := ⟨"u", none, none, none, .ascending, none, 0⟩
  let outer : Query := ⟨"t", none, some ⟨.and, [.condition condition]⟩, none, .ascending, none, 0⟩
  have hinner : inner.IsBuilt := ⟨by decide, nofun, nofun, nofun, fun _ => rfl, nofun, by decide⟩
  have houter : outer.IsBuilt := by
    refine ⟨by decide, nofun, ?_, nofun, fun _ => rfl, nofun, by decide⟩
    intro group hgroup
    obtain rfl := Option.some.inj hgroup
    exact .condition ⟨by decide, by decide, rfl⟩
  have hwraps : Wraps body.toList inner.text := by decide +kernel
  have hbody : body.toList = outer.text := by decide +kernel
  refine ⟨inner, outer, ?_, ?_, rfl, rfl⟩
  · rw [parse_of_wraps hwraps]
    exact written_text hinner
  · have hshown : Wraps (String.ofList (Directive.query body)).toList outer.text := by
      rw [String.toList_ofList, ← hbody]
      exact wraps_query body
    rw [parse_of_wraps hshown]
    exact written_text houter

end Query
end TableNotation
