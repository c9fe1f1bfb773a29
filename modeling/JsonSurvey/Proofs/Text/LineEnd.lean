import JsonSurvey.Text.Newline
import Mathlib.Data.List.Basic

/-! Texts that differ in their line ends alone. Where the one text has code points of line ends, the
other has some as well, and the two are the same everywhere else (`SameLines`). A text and the one
with its line ends unified are so related (`sameLines_unifyLines`), and whatever takes all line ends
alike takes the two alike. -/

namespace JsonSurvey.Text

/-- A code point of a line end. -/
def IsLineEnd (c : CodePoint) : Prop := c = 0x0A ∨ c = 0x0D

instance : DecidablePred IsLineEnd := fun c => inferInstanceAs (Decidable (c = 0x0A ∨ c = 0x0D))

theorem IsLineEnd.ne {c d : CodePoint} (hc : IsLineEnd c) (hd : ¬ IsLineEnd d) : c ≠ d := by
  rintro rfl
  exact hd hc

/-- Two texts that are the same but for their runs of line ends. -/
inductive SameLines : Text → Text → Prop
  | nil : SameLines [] []
  | cons {c : CodePoint} {s t : Text} : ¬ IsLineEnd c → SameLines s t →
    SameLines (c :: s) (c :: t)
  | lineEnd {c d : CodePoint} {cs ds s t : Text} : IsLineEnd c → IsLineEnd d →
    (∀ e ∈ cs, IsLineEnd e) → (∀ e ∈ ds, IsLineEnd e) → SameLines s t →
    SameLines (c :: (cs ++ s)) (d :: (ds ++ t))

namespace SameLines

variable {s t : Text}

theorem symm (h : SameLines s t) : SameLines t s := by
  induction h with
  | nil => exact .nil
  | cons hc _ ih => exact .cons hc ih
  | lineEnd hc hd hcs hds _ ih => exact .lineEnd hd hc hds hcs ih

/-- A run of line ends may be a single one in the other text. -/
theorem single {c d : CodePoint} {cs : Text} (hc : IsLineEnd c) (hd : IsLineEnd d)
    (hcs : ∀ e ∈ cs, IsLineEnd e) (h : SameLines s t) : SameLines (c :: (cs ++ s)) (d :: t) := by
  have hnil : ∀ e ∈ ([] : Text), IsLineEnd e := List.forall_mem_nil _
  exact .lineEnd hc hd hcs hnil h

/-- What begins with no line end begins in the same way in both texts. -/
theorem exists_cons {c : CodePoint} (h : SameLines (c :: s) t) (hc : ¬ IsLineEnd c) :
    ∃ t', t = c :: t' ∧ SameLines s t' := by
  cases h with
  | cons _ h => exact ⟨_, rfl, h⟩
  | lineEnd hc' => exact absurd hc' hc

theorem exists_append {p : Text} (h : SameLines (p ++ s) t) (hp : ∀ c ∈ p, ¬ IsLineEnd c) :
    ∃ t', t = p ++ t' ∧ SameLines s t' := by
  induction p generalizing t with
  | nil => exact ⟨t, rfl, h⟩
  | cons c p ih =>
    obtain ⟨hc, hp⟩ := List.forall_mem_cons.mp hp
    obtain ⟨t₁, rfl, h₁⟩ := h.exists_cons hc
    obtain ⟨t₂, rfl, h₂⟩ := ih h₁ hp
    exact ⟨t₂, rfl, h₂⟩

theorem eq_nil (h : SameLines [] t) : t = [] := by
  cases h
  rfl

theorem ne_nil (h : SameLines s t) (hs : s ≠ []) : t ≠ [] := by
  cases h with
  | nil => contradiction
  | cons => exact List.cons_ne_nil _ _
  | lineEnd => exact List.cons_ne_nil _ _

/-! ### Prefixes -/

section
variable {p : CodePoint → Bool}

/-- Leaving out a class of code points that has all line ends leaves texts with the same lines, of
which no one begins with a line end. -/
theorem dropWhile (hp : ∀ c, IsLineEnd c → p c = true) (h : SameLines s t) :
    SameLines (s.dropWhile p) (t.dropWhile p) := by
  induction h with
  | nil => exact .nil
  | @cons c s t hc h ih =>
    rw [List.dropWhile_cons, List.dropWhile_cons]
    split
    · exact ih
    · exact .cons hc h
  | lineEnd hc hd hcs hds _ ih =>
    rw [List.dropWhile_cons_of_pos (hp _ hc), List.dropWhile_cons_of_pos (hp _ hd),
      List.dropWhile_append_of_pos fun e he => hp e (hcs e he),
      List.dropWhile_append_of_pos fun e he => hp e (hds e he)]
    exact ih

/-- Texts with the same lines begin with the same run of a class of code points that has no line
end, and go on with the same lines. -/
theorem span (hp : ∀ c, IsLineEnd c → p c = false) (h : SameLines s t) :
    s.takeWhile p = t.takeWhile p ∧ SameLines (s.dropWhile p) (t.dropWhile p) := by
  induction h with
  | nil => exact ⟨rfl, .nil⟩
  | @cons c s t hc h ih =>
    rw [List.takeWhile_cons, List.takeWhile_cons, List.dropWhile_cons, List.dropWhile_cons]
    split
    · exact ⟨congrArg _ ih.1, ih.2⟩
    · exact ⟨rfl, .cons hc h⟩
  | lineEnd hc hd hcs hds h =>
    have hc' := hp _ hc
    have hd' := hp _ hd
    rw [List.takeWhile_cons_of_neg (by simp [hc']), List.takeWhile_cons_of_neg (by simp [hd']),
      List.dropWhile_cons_of_neg (by simp [hc']), List.dropWhile_cons_of_neg (by simp [hd'])]
    exact ⟨rfl, .lineEnd hc hd hcs hds h⟩

theorem splitDigits (h : SameLines s t) : (Text.splitDigits s).1 = (Text.splitDigits t).1 ∧
    SameLines (Text.splitDigits s).2 (Text.splitDigits t).2 :=
  h.span fun _ hc => by rcases hc with rfl | rfl <;> rfl

end

end SameLines

/-! ### Unified line ends -/

/-- Unifying the line ends of a text keeps its lines; a line feed that belongs to a carriage return
before the text is left out. -/
theorem sameLines_unifyLinesOnto (done : Text) (afterReturn : Bool) (t : Text) :
    ∃ gap s u, t = gap ++ s ∧ (∀ c ∈ gap, IsLineEnd c) ∧ (afterReturn = false → gap = []) ∧
      unifyLinesOnto done afterReturn t = done.reverse ++ u ∧ SameLines s u := by
  fun_induction unifyLinesOnto done afterReturn t with
  | case1 done afterReturn =>
    exact ⟨[], [], [], rfl, List.forall_mem_nil _, fun _ => rfl, by simp, .nil⟩
  | case2 done afterReturn rest ih =>
    obtain ⟨gap, s, u, rfl, hgap, _, heq, hsame⟩ := ih
    refine ⟨[], 0x0D :: (gap ++ s), 0x0A :: u, rfl, List.forall_mem_nil _, fun _ => rfl, ?_, ?_⟩
    · rw [heq, List.reverse_cons, List.append_assoc, List.singleton_append]
    · exact .single (.inr rfl) (.inl rfl) hgap hsame
  | case3 done afterReturn c rest hc hfeed ih =>
    obtain ⟨gap, s, u, rfl, _, hnil, heq, hsame⟩ := ih
    obtain rfl := hnil rfl
    rw [Bool.and_eq_true, beq_iff_eq] at hfeed
    have hline : ∀ e ∈ [c], IsLineEnd e := by
      intro e he
      rw [List.mem_singleton.mp he]
      exact .inl hfeed.2
    exact ⟨[c], s, u, rfl, hline, fun hfalse => absurd (hfeed.1.symm.trans hfalse) nofun, heq,
      hsame⟩
  | case4 done afterReturn c rest hc hfeed ih =>
    obtain ⟨gap, s, u, rfl, _, hnil, heq, hsame⟩ := ih
    obtain rfl := hnil rfl
    refine ⟨[], c :: s, c :: u, rfl, List.forall_mem_nil _, fun _ => rfl, ?_, ?_⟩
    · rw [heq, List.reverse_cons, List.append_assoc, List.singleton_append]
    · by_cases hline : IsLineEnd c
      · have hnil : ∀ e ∈ ([] : Text), IsLineEnd e := List.forall_mem_nil _
        exact SameLines.single hline hline hnil hsame
      · exact .cons hline hsame

theorem sameLines_unifyLines (t : Text) : SameLines t (unifyLines t) := by
  obtain ⟨gap, s, u, ht, _, hnil, heq, hsame⟩ := sameLines_unifyLinesOnto [] false t
  obtain rfl := hnil rfl
  obtain rfl : t = s := ht
  rw [unifyLines, heq]
  exact hsame

end JsonSurvey.Text
