import JsonSurvey.Sorting.Merge

/-! A stable sort by a test that may have no answer. A list is cut into runs, each a natural one or
one made long enough by insertion, and runs that follow each other are merged in an order that the
places of their boundaries decide.

The sort has a result if every question that it asks has an answer. If the test answers all
questions and is a strict weak order, the result is the one list in order in which elements that
are not before each other stay as they were. If the answers contradict each other, as those about a
number that is neither below nor above any other do, the result is some order of the elements, and
which one follows from the questions asked. -/

namespace JsonSurvey.Sorting

variable {α : Type} (before? : α → α → Option Bool)

/-! ### Runs -/

/-- Inserts `x` into a run behind the elements that it is not before. -/
def insert? (run : List α) (x : α) : Option (List α) := do
  let n ← bisect .front (fun y => (before? x y).map not) run
  return run.take n ++ x :: run.drop n

/-- `runLength falls n last l` adds to `n` how many elements of `l` go on with a run that ends with
`last` and falls at each step or never does. -/
def runLength (falls : Bool) (n : Nat) (last : α) : List α → Option Nat
  | [] => some n
  | x :: rest => do
    if (← before? x last) == falls then runLength falls (n + 1) x rest else return n

/-- The longest run that a list begins with; one that falls is reversed. -/
def naturalRun? : List α → Option (List α)
  | x :: y :: rest => do
    let falls ← before? y x
    let run := (x :: y :: rest).take (← runLength before? falls 2 y rest)
    return if falls then run.reverse else run
  | l => some l

/-- The run that a list begins with, made up to `least` elements if the list has so many. -/
def firstRun? (least : Nat) (l : List α) : Option (List α) := do
  let run ← naturalRun? before? l
  ((l.drop run.length).take (least - run.length)).foldlM (insert? before?) run

/-- A list as runs of `least` elements at least, the last of them aside. -/
def runs? (least : Nat) : List α → Option (List (List α))
  | [] => some []
  | x :: rest => do
    let run ← firstRun? before? least (x :: rest)
    return run :: (← runs? least (rest.drop (run.length - 1)))
termination_by l => l.length
decreasing_by simp only [List.length_drop, List.length_cons]; omega

/-- The least length of a run in a list of so many elements: all of them if there are fewer than 64,
and otherwise a number from 32 to 64, so that the list has a power of two of such runs or a few
less. -/
def leastRunLength (length : Nat) : Nat :=
  (length + Nat.pow 2 (length.log2 - 5) - 1) / Nat.pow 2 (length.log2 - 5)

/-! ### The order of merges -/

/-- A run that waits for the runs behind it, with the depth of the boundary between it and the next
one. -/
structure Pending (α : Type) where
  run : List α
  depth : Nat

/-- The depth of the boundary between two runs of a list: how often the list has to be halved until
the middles of the two runs lie in different parts. The middles are given by twice their places. -/
def boundaryDepth (length middle nextMiddle : Nat) : Nat :=
  ((List.range' 1 (length.log2 + 1)).find? fun depth =>
    middle * Nat.pow 2 depth / (2 * length) != nextMiddle * Nat.pow 2 depth / (2 * length)).getD 0

/-- Merges a run with the pending ones before it as long as the boundary between them is deeper than
`depth`. The pending runs are in reversed order. -/
def mergeDeeper (depth patience : Nat) (run : List α) :
    List (Pending α) → Option (List α × List (Pending α) × Nat)
  | [] => some (run, [], patience)
  | p :: older =>
    if depth < p.depth then do
      let (merged, patience) ← merge? before? patience p.run run
      mergeDeeper depth patience merged older
    else some (run, p :: older, patience)

/-- Merges all runs, the last of them `run` and those before it in reversed order. -/
def mergeAll (patience : Nat) (run : List α) : List (List α) → Option (List α)
  | [] => some run
  | [second] => (merge? before? patience second run).map (·.1)
  | second :: third :: older =>
    if third.length < run.length then do
      let (merged, patience) ← merge? before? patience third second
      mergeAll patience run (merged :: older)
    else do
      let (merged, patience) ← merge? before? patience second run
      mergeAll patience merged (third :: older)
termination_by older => older.length

/-- Merges the runs of a list of `length` elements: those that are pending, in reversed order, then
`run`, which ends at the place `reached`, and then the others. -/
def mergeRuns (length reached patience : Nat) (pending : List (Pending α)) (run : List α) :
    List (List α) → Option (List α)
  | [] => mergeAll before? patience run (pending.map (·.run))
  | next :: others => do
    let depth :=
      boundaryDepth length (2 * reached - run.length) (2 * reached + next.length)
    let (merged, pending, patience) ← mergeDeeper before? depth patience run pending
    mergeRuns length (reached + next.length) patience (⟨merged, depth⟩ :: pending) next others

/-- The patience of the first merge. -/
def initialPatience : Nat := 7

/-- The list in order, if all questions that come up have answers. -/
def sort? (l : List α) : Option (List α) := do
  match ← runs? before? (leastRunLength l.length) l with
  | [] => return []
  | run :: others => mergeRuns before? l.length run.length initialPatience [] run others

end JsonSurvey.Sorting
