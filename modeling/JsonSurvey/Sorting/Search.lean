/-! Finding how far a property of the elements goes into a list, with few questions. A question may
have no answer, and then there is none to the whole search.

If the property holds up to some element and nowhere behind it, `bisect` and `gallop` both give the
number of elements that have it. On any other list the two may differ, and which elements they ask
about decides. -/

namespace JsonSurvey.Sorting

/-- The end of a run at which one begins to go through it. -/
inductive Side
  | front
  | back
deriving DecidableEq

/-- How many elements come before the middle one of a list that is seen from one side. Of the two
that an even number of elements has, the middle one is the one nearer to the back of the run. -/
def Side.middle : Side → Nat → Nat
  | .front, length => length / 2
  | .back, length => (length - 1) / 2

variable {α : Type} (side : Side) (holds? : α → Option Bool)

/-- How many elements at the beginning of a list have the property, by asking about the middle
one. -/
def bisect (l : List α) : Option Nat :=
  match _h : l.drop (side.middle l.length) with
  | [] => some 0
  | x :: rest => do
    if ← holds? x then return side.middle l.length + 1 + (← bisect rest)
    else bisect (l.take (side.middle l.length))
termination_by l.length
decreasing_by
  all_goals
    have hlength := congrArg List.length _h
    simp only [List.length_drop, List.length_cons, List.length_take] at hlength ⊢
    omega

/-- How many elements at the beginning of a list have the property, by asking about the one behind
`gap` elements: a yes leaves the elements behind it, with a gap more than twice as wide, and a no
leaves those before it to bisection. -/
def stretch (gap : Nat) (l : List α) : Option Nat :=
  match _h : l.drop gap with
  | [] => bisect side holds? l
  | x :: rest => do
    if ← holds? x then return gap + 1 + (← stretch (2 * gap + 1) rest)
    else bisect side holds? (l.take gap)
termination_by l.length
decreasing_by
  have hlength := congrArg List.length _h
  simp only [List.length_drop, List.length_cons] at hlength ⊢
  omega

/-- How many elements at the beginning of a list have the property, by asking about elements further
and further apart. -/
def gallop : List α → Option Nat
  | [] => some 0
  | x :: rest => do
    if ← holds? x then return 1 + (← stretch side holds? 0 rest) else return 0

end JsonSurvey.Sorting
