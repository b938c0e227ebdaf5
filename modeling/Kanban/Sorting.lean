/-!
# Kanban.Sorting — stable sorting

Lists are sorted by taking the run at their front (turned round if it falls strictly) and
inserting each later element behind all that it is not below, at a place found by halving.
On a strict weak order the result is the one stable arrangement. Undefined floats have no
order, and then the result depends on which elements are compared, so the order of the
comparisons is part of the rule.

* `sort_perm` — sorting only rearranges.
-/

namespace Kanban.Sorting

variable {α : Type}

/-- The front part of a list that goes on rising after `x`, and the rest. -/
def climb (lt : α → α → Bool) (x : α) : List α → List α × List α
  | [] => ([], [])
  | y :: ys =>
    if lt y x then ([], y :: ys)
    else ((y :: (climb lt y ys).1), (climb lt y ys).2)

/-- The front part of a list that goes on falling strictly after `x`, and the rest. -/
def fall (lt : α → α → Bool) (x : α) : List α → List α × List α
  | [] => ([], [])
  | y :: ys =>
    if lt y x then ((y :: (fall lt y ys).1), (fall lt y ys).2)
    else ([], y :: ys)

/-- The run at the front of a list in rising order, and the rest. -/
def run (lt : α → α → Bool) : List α → List α × List α
  | x :: y :: ys =>
    if lt y x then ((x :: y :: (fall lt y ys).1).reverse, (fall lt y ys).2)
    else (x :: y :: (climb lt y ys).1, (climb lt y ys).2)
  | xs => (xs, [])

/-- The place of `x` between `low` and `high` in a sorted list, behind all that it is not below. -/
def seat (lt : α → α → Bool) (x : α) (sorted : List α) (low high : Nat) : Nat :=
  if low < high then
    let middle := low + (high - low) / 2
    match sorted[middle]? with
    | some y => if lt x y then seat lt x sorted low middle else seat lt x sorted (middle + 1) high
    | none => low
  else low
termination_by high - low

/-- Insert an element into a sorted list. -/
def insert (lt : α → α → Bool) (sorted : List α) (x : α) : List α :=
  let i := seat lt x sorted 0 sorted.length
  sorted.take i ++ x :: sorted.drop i

/-- Sort a list; elements of which neither is below the other keep their order. -/
def sort (lt : α → α → Bool) (xs : List α) : List α :=
  (run lt xs).2.foldl (insert lt) (run lt xs).1

theorem climb_append (lt : α → α → Bool) (x : α) (ys : List α) :
    (climb lt x ys).1 ++ (climb lt x ys).2 = ys := by
  induction ys generalizing x with
  | nil => rfl
  | cons y ys ih => by_cases h : lt y x <;> simp [climb, h, ih y]

theorem fall_append (lt : α → α → Bool) (x : α) (ys : List α) :
    (fall lt x ys).1 ++ (fall lt x ys).2 = ys := by
  induction ys generalizing x with
  | nil => rfl
  | cons y ys ih => by_cases h : lt y x <;> simp [fall, h, ih y]

theorem run_perm (lt : α → α → Bool) (xs : List α) :
    ((run lt xs).1 ++ (run lt xs).2).Perm xs := by
  match xs with
  | [] => simp [run]
  | [x] => simp [run]
  | x :: y :: ys =>
    unfold run
    by_cases h : lt y x
    · -- a falling run is turned over, and a rising one stays as it is
      simp only [h, if_true]
      refine (List.Perm.append_right _ (List.reverse_perm _)).trans ?_
      simp [fall_append]
    · simp [h, climb_append]

theorem insert_perm (lt : α → α → Bool) (sorted : List α) (x : α) :
    (insert lt sorted x).Perm (x :: sorted) := by
  unfold insert
  refine List.perm_middle.trans ?_
  simp

theorem foldl_insert_perm (lt : α → α → Bool) (xs sorted : List α) :
    (xs.foldl (insert lt) sorted).Perm (sorted ++ xs) := by
  induction xs generalizing sorted with
  | nil => simp
  | cons x xs ih =>
    refine (ih _).trans ?_
    refine ((insert_perm lt sorted x).append_right xs).trans ?_
    exact List.perm_middle.symm

/-- Sorting only rearranges. -/
theorem sort_perm (lt : α → α → Bool) (xs : List α) : (sort lt xs).Perm xs :=
  (foldl_insert_perm lt _ _).trans (run_perm lt xs)

end Kanban.Sorting
