/-! The first occurrences of a list, in order, under a test for being the same. -/

namespace JsonSurvey

/-- The elements of a list that are not the same as an earlier one, in order. -/
def firstOccurrences {α : Type} (same : α → α → Bool) (l : List α) : List α :=
  l.foldr (fun x later => x :: later.filter fun y => !same x y) []

@[simp] theorem firstOccurrences_nil {α : Type} (same : α → α → Bool) :
    firstOccurrences same [] = [] := rfl

theorem firstOccurrences_cons {α : Type} (same : α → α → Bool) (x : α) (l : List α) :
    firstOccurrences same (x :: l) =
      x :: (firstOccurrences same l).filter fun y => !same x y := rfl

end JsonSurvey
