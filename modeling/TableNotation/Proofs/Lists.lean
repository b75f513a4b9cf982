import Mathlib.Data.Nat.Nth
/-!
# Distinct items and first numbers

The distinct items of a list stand in the order of their first occurrence, and the numbers below
a bound that satisfy a condition are the first ones that do.

* `pairwise_eraseDups`, `nodup_eraseDups`: distinct items.
* `IsListing`: the distinct items in any order.
* `sum_map_count_eraseDups`: a sum over distinct items.
* `filter_range_eq_map_nth`: first numbers.
-/

namespace TableNotation

variable {α : Type}

/-- The distinct items of a list, each once, in some order. -/
structure IsListing (listing items : List α) : Prop where
  nodup : listing.Nodup
  mem_iff : ∀ a, a ∈ listing ↔ a ∈ items

/-- Leaving items out does not change which of two others comes first. -/
theorem idxOf_lt_idxOf_of_filter [BEq α] [LawfulBEq α] {p : α → Bool} {x y : α}
    (hx : p x = true) (hy : p y = true) {xs : List α}
    (h : (xs.filter p).idxOf x < (xs.filter p).idxOf y) : xs.idxOf x < xs.idxOf y := by
  induction xs with
  | nil => exact h
  | cons a rest ih =>
    by_cases ha : p a = true
    · rw [List.filter_cons_of_pos ha] at h
      grind
    · rw [List.filter_cons_of_neg ha] at h
      grind

/-- Without repetitions items stand in the order of their first occurrence. -/
theorem pairwise_eraseDups [BEq α] [LawfulBEq α] :
    ∀ xs : List α, xs.eraseDups.Pairwise fun a b => xs.idxOf a < xs.idxOf b
  | [] => by simp
  | x :: rest => by
    have hne : ∀ y ∈ (rest.filter fun y => !y == x).eraseDups, (!y == x) = true :=
      fun y hy => (List.mem_filter.1 (List.mem_eraseDups.1 hy)).2
    rw [List.eraseDups_cons, List.pairwise_cons]
    constructor
    · intro y hy
      have hxy := hne y hy
      grind
    · refine (pairwise_eraseDups (rest.filter fun y => !y == x)).imp_of_mem ?_
      intro a b ha hb hlt
      have hrest : rest.idxOf a < rest.idxOf b :=
        idxOf_lt_idxOf_of_filter (p := fun y => !y == x) (hne a ha) (hne b hb) hlt
      have hxa := hne a ha
      have hxb := hne b hb
      grind
  termination_by xs => xs.length
  decreasing_by exact Nat.lt_succ_of_le (List.length_filter_le _ _)

theorem nodup_eraseDups [BEq α] [LawfulBEq α] (xs : List α) : xs.eraseDups.Nodup := by
  apply (pairwise_eraseDups xs).imp
  rintro a _ hlt rfl
  exact Nat.lt_irrefl _ hlt

/-! ### Sums -/

/-- A sum is that over the items which satisfy a condition and that over the others. -/
theorem sum_map_filter_add (p : α → Bool) (f : α → Nat) (xs : List α) :
    ((xs.filter p).map f).sum + ((xs.filter fun x => !p x).map f).sum = (xs.map f).sum := by
  induction xs with
  | nil => rfl
  | cons x rest ih =>
    rw [List.map_cons, List.sum_cons, ← ih]
    cases hx : p x with
    | true =>
      rw [List.filter_cons_of_pos hx, List.filter_cons_of_neg (by simp [hx]), List.map_cons,
        List.sum_cons, Nat.add_assoc]
    | false =>
      rw [List.filter_cons_of_neg (by simp [hx]), List.filter_cons_of_pos (by simp [hx]),
        List.map_cons, List.sum_cons, Nat.add_left_comm]

/-- A sum over some items is at most a sum of more over all of them. -/
theorem sum_map_filter_le (p : α → Bool) {f g : α → Nat} (h : ∀ x, f x ≤ g x) (xs : List α) :
    ((xs.filter p).map f).sum ≤ (xs.map g).sum := by
  induction xs with
  | nil => exact Nat.le_refl _
  | cons x rest ih =>
    have hx := h x
    rw [List.map_cons, List.sum_cons]
    by_cases hp : p x = true
    · rw [List.filter_cons_of_pos hp, List.map_cons, List.sum_cons]
      omega
    · rw [List.filter_cons_of_neg hp]
      omega

/-- The sum over the distinct items, each as often as it occurs, is the sum over all items. -/
theorem sum_map_count_eraseDups [BEq α] [LawfulBEq α] (f : α → Nat) :
    ∀ xs : List α, (xs.eraseDups.map fun x => f x * xs.count x).sum = (xs.map f).sum
  | [] => rfl
  | x :: rest => by
    have hothers : ∀ y ∈ (rest.filter fun y => !y == x).eraseDups,
        f y * (x :: rest).count y = f y * (rest.filter fun y => !y == x).count y := by
      intro y hy
      have hne : (!y == x) = true := (List.mem_filter.1 (List.mem_eraseDups.1 hy)).2
      have hcount : (rest.filter fun y => !y == x).count y = rest.count y :=
        List.count_filter hne
      have hyx : y ≠ x := by simpa using hne
      rw [hcount, List.count_cons_of_ne hyx.symm]
    have hself : ((rest.filter fun y => y == x).map f).sum = f x * rest.count x := by
      rw [List.filter_beq, List.map_replicate, List.sum_replicate_nat, Nat.mul_comm]
    have hsplit := sum_map_filter_add (fun y => y == x) f rest
    rw [List.eraseDups_cons, List.map_cons, List.sum_cons, List.map_congr_left hothers,
      sum_map_count_eraseDups f (rest.filter fun y => !y == x), List.count_cons_self,
      Nat.mul_succ, List.map_cons, List.sum_cons]
    omega
  termination_by xs => xs.length
  decreasing_by exact Nat.lt_succ_of_le (List.length_filter_le _ _)

/-! ### First numbers -/

/-- The numbers below a bound that satisfy a condition are the first ones that do. -/
theorem filter_range_eq_map_nth (p : Nat → Prop) [DecidablePred p] (bound : Nat) :
    (List.range bound).filter (fun n => decide (p n))
      = (List.range (Nat.count p bound)).map (Nat.nth p) := by
  induction bound with
  | zero => rfl
  | succ bound ih =>
    rw [List.range_succ, List.filter_append, ih, Nat.count_succ]
    by_cases hp : p bound
    · rw [if_pos hp, List.range_succ, List.map_append, List.map_singleton, Nat.nth_count hp,
        List.filter_cons_of_pos (by simpa using hp), List.filter_nil]
    · rw [if_neg hp, List.filter_cons_of_neg (by simpa using hp), List.filter_nil,
        List.append_nil, Nat.add_zero]

end TableNotation
