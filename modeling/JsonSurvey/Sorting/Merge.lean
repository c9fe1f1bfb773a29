import JsonSurvey.Sorting.Search

/-! Merging two runs that follow each other. What is in its place already at the two outer ends is
left there. Of the rest, the shorter run decides from which side the merge goes: it takes element
after element from the one run or the other, and when one of them has been taken from often enough
in a row, it looks for whole stretches to take, in rounds, for as long as they are long.

How often is often enough, the patience, is carried from merge to merge: it shrinks with every round
that was worth its while and grows with the last one. -/

namespace JsonSurvey.Sorting

variable {α : Type} (before? : α → α → Option Bool)

/-- A stretch of at least so many elements is long. -/
def longStretch : Nat := 7

/-- What a merge does next. -/
inductive Phase
  /-- Takes one element. Just before, so many came in a row from the left or from the right run. -/
  | single (lefts rights : Nat)
  /-- Takes the stretch of left elements that come next. -/
  | leftStretch
  /-- Takes the right element behind a left stretch of this length. -/
  | rightOne (lefts : Nat)
  /-- Takes the stretch of right elements that come next. -/
  | rightStretch (lefts : Nat)
  /-- Takes the left element behind stretches of these lengths. -/
  | leftOne (lefts rights : Nat)
  /-- Chooses between another round and single elements. -/
  | roundEnd (lefts rights : Nat)

/-- How many phases can follow each other without taking an element. -/
def Phase.rank : Phase → Nat
  | .roundEnd .. => 2
  | .leftStretch | .rightStretch _ => 1
  | _ => 0

/-- Whether the left one of two heads is taken first, seen from one side. Equal elements stay in the
order in which they are. -/
def leftNext? (side : Side) (left right : α) : Option Bool :=
  (before? right left).map (· == (side == .back))

/-- The rest of a merge that needs no more questions, because one run is used up or the run that is
not to be used up first has one element left, which is known to come last. -/
def settled? : Side → List α → List α → Option (List α)
  | _, [], right => some right
  | .front, left, [] => some left
  | .front, [x], right => some (right ++ [x])
  | .back, left, [] => some left
  | .back, left, [x] => some (left ++ [x])
  | _, _, _ => none

/-- Merges two runs, both seen from one side, behind the reversed elements `done`, and tells the
patience afterwards. -/
def mergeFrom (side : Side) (phase : Phase) (patience : Nat) (left right done : List α) :
    Option (List α × Nat) :=
  match settled? side left right with
  | some rest => some (done.reverse ++ rest, patience)
  | none =>
    match phase, left, right with
    | .single lefts rights, l :: ls, r :: rs => do
      if ← leftNext? before? side l r then
        mergeFrom side (if patience ≤ lefts + 1 then .leftStretch else .single (lefts + 1) 0)
          patience ls (r :: rs) (l :: done)
      else
        mergeFrom side (if patience ≤ rights + 1 then .leftStretch else .single 0 (rights + 1))
          patience (l :: ls) rs (r :: done)
    | .leftStretch, ls, r :: rs => do
      let n ← gallop side (leftNext? before? side · r) ls
      mergeFrom side (.rightOne n) patience (ls.drop n) (r :: rs) ((ls.take n).reverse ++ done)
    | .rightOne lefts, ls, r :: rs =>
      mergeFrom side (.rightStretch lefts) patience ls rs (r :: done)
    | .rightStretch lefts, l :: ls, rs => do
      let n ← gallop side (fun r => (leftNext? before? side l r).map not) rs
      mergeFrom side (.leftOne lefts n) patience (l :: ls) (rs.drop n)
        ((rs.take n).reverse ++ done)
    | .leftOne lefts rights, l :: ls, rs =>
      mergeFrom side (.roundEnd lefts rights) patience ls rs (l :: done)
    | .roundEnd lefts rights, ls, rs =>
      if longStretch ≤ lefts ∨ longStretch ≤ rights then
        mergeFrom side .leftStretch (max 1 (patience - 1)) ls rs done
      else mergeFrom side (.single 0 0) (patience + 1) ls rs done
    | _, _, _ => none
termination_by (left.length + right.length, phase.rank)
decreasing_by
  all_goals
    simp only [Prod.lex_def, List.length_cons, List.length_drop, Phase.rank, true_and]
    omega

/-- Merges two runs. -/
def merge? (patience : Nat) (left right : List α) : Option (List α × Nat) :=
  match right with
  | [] => some (left, patience)
  | first :: _ => do
    let low ← gallop .front (leftNext? before? .front · first) left
    match (left.drop low).getLast? with
    | none => return (left ++ right, patience)
    | some last =>
      let high ← gallop .back (fun r => (leftNext? before? .back last r).map not) right.reverse
      let innerLeft := left.drop low
      let innerRight := right.take (right.length - high)
      let (inner, patience) ←
        if innerLeft.length ≤ innerRight.length then
          match innerRight with
          | [] => some (innerLeft, patience)
          | r :: rs => mergeFrom before? .front (.single 0 0) patience innerLeft rs [r]
        else
          match innerLeft.reverse with
          | [] => some (innerRight, patience)
          | l :: ls => do
            let (merged, patience) ←
              mergeFrom before? .back (.single 0 0) patience ls innerRight.reverse [l]
            some (merged.reverse, patience)
      return (left.take low ++ inner ++ right.drop (right.length - high), patience)

end JsonSurvey.Sorting
