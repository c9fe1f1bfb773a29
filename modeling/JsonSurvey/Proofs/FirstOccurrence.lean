import JsonSurvey.FirstOccurrence
import Mathlib.Data.List.Nodup

/-! Laws of first occurrences. Under any test they stand as they do in the list, no two of them are
the same, and nothing in front of one of them is (`exists_append_of_mem_firstOccurrences`). A loop
that keeps the keys it has seen has what is left of them behind these keys
(`filter_firstOccurrences_cons`).

Under a lawful equality they are the duplicate-free list with the elements of the given one
(`mem_firstOccurrences`, `nodup_firstOccurrences`). Taking them part by part and then of the whole
is the same as taking them of the whole (`firstOccurrences_flatMap`), which is why lists of tags and
of keys may be merged in batches. -/

namespace JsonSurvey

variable {α β : Type}

/-- First occurrences commute with a map that respects the tests for being the same. -/
theorem firstOccurrences_map {same : α → α → Bool} {same' : β → β → Bool} {f : α → β}
    (hf : ∀ a b, same' (f a) (f b) = same a b) (l : List α) :
    firstOccurrences same' (l.map f) = (firstOccurrences same l).map f := by
  induction l with
  | nil => rfl
  | cons a l ih =>
    rw [List.map_cons, firstOccurrences_cons, firstOccurrences_cons, ih, List.filter_map,
      List.map_cons]
    simp only [Function.comp_def, hf]

section
variable {same : α → α → Bool}

theorem firstOccurrences_sublist (l : List α) : (firstOccurrences same l).Sublist l := by
  induction l with
  | nil => exact .slnil
  | cons a l ih => exact (List.filter_sublist.trans ih).cons_cons a

theorem firstOccurrences_eq_nil {l : List α} : firstOccurrences same l = [] ↔ l = [] := by
  cases l <;> simp [firstOccurrences_cons]

theorem pairwise_firstOccurrences (l : List α) :
    (firstOccurrences same l).Pairwise fun a b => same a b = false := by
  induction l with
  | nil => exact .nil
  | cons a l ih =>
    refine .cons (fun b hb => ?_) (ih.sublist List.filter_sublist)
    simpa using (List.mem_filter.mp hb).2

theorem firstOccurrences_of_pairwise {l : List α} (h : l.Pairwise fun a b => same a b = false) :
    firstOccurrences same l = l := by
  induction h with
  | nil => rfl
  | cons ha _ ih =>
    rw [firstOccurrences_cons, ih, List.filter_eq_self.mpr]
    intro b hb
    rw [ha b hb]
    rfl

/-- Nothing in front of a first occurrence is the same. -/
theorem exists_append_of_mem_firstOccurrences {a : α} {l : List α}
    (h : a ∈ firstOccurrences same l) :
    ∃ before after, l = before ++ a :: after ∧ ∀ b ∈ before, same b a = false := by
  induction l with
  | nil => contradiction
  | cons c l ih =>
    rcases List.mem_cons.mp h with rfl | h
    · exact ⟨[], l, rfl, List.forall_mem_nil _⟩
    · obtain ⟨hmem, hsame⟩ := List.mem_filter.mp h
      obtain ⟨before, after, rfl, hbefore⟩ := ih hmem
      exact ⟨c :: before, after, rfl, List.forall_mem_cons.mpr ⟨by simpa using hsame, hbefore⟩⟩

theorem firstOccurrences_congr {same' : α → α → Bool} {l : List α}
    (h : ∀ a ∈ l, ∀ b ∈ l, same a b = same' a b) :
    firstOccurrences same l = firstOccurrences same' l := by
  induction l with
  | nil => rfl
  | cons a l ih =>
    rw [firstOccurrences_cons, firstOccurrences_cons,
      ih fun b hb c hc => h b (.tail _ hb) c (.tail _ hc)]
    refine congrArg _ (List.filter_congr fun b hb => ?_)
    rw [h a List.mem_cons_self b (.tail _ ((firstOccurrences_sublist l).mem hb))]

end

section Keyed
variable [BEq β] [LawfulBEq β] (key : α → β)

/-- Every key of a list is the key of a first occurrence. -/
theorem exists_mem_firstOccurrences {a : α} {l : List α} (h : a ∈ l) :
    ∃ b ∈ firstOccurrences (fun a b => key a == key b) l, key b = key a := by
  induction l with
  | nil => contradiction
  | cons c l ih =>
    rw [firstOccurrences_cons]
    by_cases hkey : key c = key a
    · exact ⟨c, List.mem_cons_self, hkey⟩
    · rcases List.mem_cons.mp h with rfl | h
      · contradiction
      · obtain ⟨b, hb, heq⟩ := ih h
        refine ⟨b, .tail _ (List.mem_filter.mpr ⟨hb, ?_⟩), heq⟩
        simpa [heq] using hkey

theorem nodup_map_firstOccurrences (l : List α) :
    ((firstOccurrences (fun a b => key a == key b) l).map key).Nodup := by
  refine List.pairwise_map.mpr ((pairwise_firstOccurrences l).imp fun h => ?_)
  simpa using h

/-- What is left of first occurrences behind the keys that were seen, element by element. -/
theorem filter_firstOccurrences_cons (seen : List β) (a : α) (l : List α) :
    (firstOccurrences (fun a b => key a == key b) (a :: l)).filter
        (fun b => !seen.contains (key b)) =
      if seen.contains (key a) then
        (firstOccurrences (fun a b => key a == key b) l).filter fun b => !seen.contains (key b)
      else a :: (firstOccurrences (fun a b => key a == key b) l).filter
        fun b => !(key a :: seen).contains (key b) := by
  rw [firstOccurrences_cons, List.filter_cons, List.filter_filter]
  by_cases hseen : key a ∈ seen
  · simp only [List.contains_eq_mem, hseen, decide_true, Bool.not_true, if_true, if_false,
      Bool.false_eq_true]
    refine List.filter_congr fun b _ => ?_
    by_cases hb : key a = key b
    · simp [← hb, hseen]
    · simp [hb]
  · simp only [List.contains_eq_mem, hseen, decide_false, Bool.not_false, if_true, if_false,
      Bool.false_eq_true]
    refine congrArg _ (List.filter_congr fun b _ => ?_)
    by_cases hb : key a = key b
    · simp [hb]
    · simp [hb, Ne.symm hb]

end Keyed

section Lawful
variable [BEq α] [LawfulBEq α]

@[simp] theorem mem_firstOccurrences {a : α} {l : List α} :
    a ∈ firstOccurrences (· == ·) l ↔ a ∈ l := by
  induction l with
  | nil => simp
  | cons b l ih =>
    rw [firstOccurrences_cons, List.mem_cons, List.mem_filter, List.mem_cons, ih]
    by_cases h : a = b
    · simp [h]
    · simp [h, Ne.symm h]

theorem nodup_firstOccurrences (l : List α) : (firstOccurrences (· == ·) l).Nodup := by
  refine (pairwise_firstOccurrences l).imp fun h => ?_
  simpa using h

theorem firstOccurrences_eq_self {l : List α} (h : l.Nodup) :
    firstOccurrences (· == ·) l = l := by
  refine firstOccurrences_of_pairwise (h.imp fun hab => ?_)
  simpa using hab

/-- What a list adds to the first occurrences of the list in front of it. -/
theorem firstOccurrences_append (l m : List α) :
    firstOccurrences (· == ·) (l ++ m) = firstOccurrences (· == ·) l ++
      (firstOccurrences (· == ·) m).filter fun a => !l.contains a := by
  induction l with
  | nil => simp
  | cons b l ih =>
    rw [List.cons_append, firstOccurrences_cons, ih, List.filter_append, List.filter_filter,
      firstOccurrences_cons, List.cons_append]
    congr 2
    refine List.filter_congr fun a _ => ?_
    rw [List.contains_cons, Bool.not_or, BEq.comm]

/-- Elements that a list has already add nothing to its first occurrences. -/
theorem firstOccurrences_append_of_subset {l m : List α} (h : m ⊆ l) :
    firstOccurrences (· == ·) (l ++ m) = firstOccurrences (· == ·) l := by
  have hnone : (firstOccurrences (· == ·) m).filter (fun a => !l.contains a) = [] := by
    apply List.filter_eq_nil_iff.mpr
    intro a ha
    simpa using h (mem_firstOccurrences.mp ha)
  rw [firstOccurrences_append, hnone, List.append_nil]

theorem firstOccurrences_append_congr {l l' m m' : List α}
    (hl : firstOccurrences (· == ·) l = firstOccurrences (· == ·) l')
    (hm : firstOccurrences (· == ·) m = firstOccurrences (· == ·) m') :
    firstOccurrences (· == ·) (l ++ m) = firstOccurrences (· == ·) (l' ++ m') := by
  rw [firstOccurrences_append, firstOccurrences_append, hl, hm]
  congr 1
  refine List.filter_congr fun a _ => ?_
  have h : a ∈ l ↔ a ∈ l' := by rw [← mem_firstOccurrences, hl, mem_firstOccurrences]
  simp [h]

theorem firstOccurrences_flatMap (f : β → List α) (bs : List β) :
    firstOccurrences (· == ·) (bs.flatMap fun b => firstOccurrences (· == ·) (f b)) =
      firstOccurrences (· == ·) (bs.flatMap f) := by
  induction bs with
  | nil => rfl
  | cons b bs ih =>
    rw [List.flatMap_cons, List.flatMap_cons]
    exact firstOccurrences_append_congr (firstOccurrences_eq_self (nodup_firstOccurrences _)) ih

/-- Lists with the same elements have the same first occurrences up to order. -/
theorem perm_firstOccurrences {l m : List α} (h : ∀ a, a ∈ l ↔ a ∈ m) :
    (firstOccurrences (· == ·) l).Perm (firstOccurrences (· == ·) m) := by
  rw [List.perm_ext_iff_of_nodup (nodup_firstOccurrences l) (nodup_firstOccurrences m)]
  simpa using h

end Lawful

end JsonSurvey
