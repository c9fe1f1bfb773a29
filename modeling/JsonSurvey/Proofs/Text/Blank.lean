import JsonSurvey.Text.Blank
import Mathlib.Data.List.DropRight

/-! White space at the ends of a text. Stripping takes away blank texts at both ends and leaves
nothing blank there (`exists_strip`, `head?_strip`, `getLast?_strip`), and those three facts
determine what is left (`strip_append`). -/

namespace JsonSurvey.Text

variable {t lead lead' inner trail rest rest' : Text}

theorem isBlank_iff : t.isBlank = true ↔ ∀ c ∈ t, c.isBlank = true := List.all_eq_true

/-! ### White space in front -/

section
variable (hlead : lead.isBlank = true) (hrest : ∀ c ∈ rest.head?, c.isBlank = false)
include hlead hrest

theorem dropWhile_isBlank_append : (lead ++ rest).dropWhile CodePoint.isBlank = rest := by
  rw [List.dropWhile_append_of_pos (isBlank_iff.mp hlead)]
  cases rest with
  | nil => rfl
  | cons c rest => rw [List.dropWhile_cons, hrest c rfl, if_neg Bool.false_ne_true]

/-- A text is divided into white space and what follows in one way only. -/
theorem append_inj_of_isBlank (hlead' : lead'.isBlank = true)
    (hrest' : ∀ c ∈ rest'.head?, c.isBlank = false) (h : lead ++ rest = lead' ++ rest') :
    lead = lead' ∧ rest = rest' := by
  have hdrop := dropWhile_isBlank_append hlead hrest
  rw [h, dropWhile_isBlank_append hlead' hrest'] at hdrop
  rw [hdrop] at h
  exact ⟨List.append_cancel_right h, hdrop.symm⟩

end

/-! ### Stripping -/

theorem strip_eq (t : Text) :
    t.strip = (t.dropWhile CodePoint.isBlank).rdropWhile CodePoint.isBlank := rfl

theorem head?_dropWhile_isBlank (t : Text) :
    ∀ c ∈ (t.dropWhile CodePoint.isBlank).head?, c.isBlank = false := by
  intro c hc
  have h := List.head?_dropWhile_not CodePoint.isBlank t
  rw [Option.mem_def] at hc
  rw [hc] at h
  exact h

/-- Stripping takes away white space only. -/
theorem exists_strip (t : Text) :
    ∃ lead trail, lead.isBlank = true ∧ trail.isBlank = true ∧ t = lead ++ (t.strip ++ trail) := by
  refine ⟨t.takeWhile CodePoint.isBlank, (t.dropWhile CodePoint.isBlank).rtakeWhile
    CodePoint.isBlank, List.all_takeWhile, ?_, ?_⟩
  · exact isBlank_iff.mpr fun c hc => List.mem_rtakeWhile_imp hc
  · have hsplit := List.takeWhile_append_dropWhile (p := CodePoint.isBlank)
      (l := (t.dropWhile CodePoint.isBlank).reverse)
    have hinner := congrArg List.reverse hsplit
    rw [List.reverse_append, List.reverse_reverse] at hinner
    rw [strip_eq, List.rdropWhile, List.rtakeWhile, hinner, List.takeWhile_append_dropWhile]

theorem head?_strip (t : Text) : ∀ c ∈ t.strip.head?, c.isBlank = false := by
  intro c hc
  obtain ⟨trail, htrail⟩ := List.rdropWhile_prefix CodePoint.isBlank
    (t.dropWhile CodePoint.isBlank)
  refine head?_dropWhile_isBlank t c ?_
  rw [← htrail, List.head?_append_of_ne_nil]
  · exact hc
  · rintro hnil
    rw [strip_eq, hnil] at hc
    contradiction

theorem getLast?_strip (t : Text) : ∀ c ∈ t.strip.getLast?, c.isBlank = false := by
  intro c hc
  obtain ⟨hne, rfl⟩ := List.mem_getLast?_eq_getLast hc
  exact Bool.eq_false_iff.mpr (List.rdropWhile_last_not _ _ hne)

/-- What is left by stripping is what stands between white space and has none at its ends. -/
theorem strip_append (hlead : lead.isBlank = true) (htrail : trail.isBlank = true)
    (hne : inner ≠ []) (hhead : ∀ c ∈ inner.head?, c.isBlank = false)
    (hlast : ∀ c ∈ inner.getLast?, c.isBlank = false) :
    Text.strip (lead ++ (inner ++ trail)) = inner := by
  have hhead' : ∀ c ∈ (inner ++ trail).head?, c.isBlank = false := by
    rwa [List.head?_append_of_ne_nil _ hne]
  have htrail' : Text.isBlank trail.reverse = true := by
    rw [Text.isBlank, List.all_reverse]
    exact htrail
  have hlast' : ∀ c ∈ inner.reverse.head?, c.isBlank = false := by
    rwa [List.head?_reverse]
  rw [strip_eq, dropWhile_isBlank_append hlead hhead', List.rdropWhile, List.reverse_append,
    dropWhile_isBlank_append htrail' hlast', List.reverse_reverse]

theorem strip_eq_self (hne : t ≠ []) (hhead : ∀ c ∈ t.head?, c.isBlank = false)
    (hlast : ∀ c ∈ t.getLast?, c.isBlank = false) : t.strip = t := by
  have hnil : Text.isBlank [] = true := rfl
  have hstrip := strip_append hnil hnil hne hhead hlast
  rwa [List.append_nil, List.nil_append] at hstrip

theorem strip_ne_nil (h : t.isBlank = false) : t.strip ≠ [] := by
  intro hnil
  obtain ⟨lead, trail, hlead, htrail, ht⟩ := exists_strip t
  rw [hnil, List.nil_append] at ht
  rw [ht, Text.isBlank, List.all_append, Bool.and_eq_false_iff] at h
  rcases h with h | h
  · exact absurd hlead (Bool.eq_false_iff.mp h)
  · exact absurd htrail (Bool.eq_false_iff.mp h)

end JsonSurvey.Text
