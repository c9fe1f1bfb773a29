import JsonSurvey.Coordinate
import JsonSurvey.Proofs.Text
import Mathlib.Data.List.Basic

/-! Mentions of coordinates and the texts of their numbers. The number that is split off a text is
one that can be written, and its text is what is taken (`split?_eq_some`); written alone, it is read
as itself, so that its text tells it. No number has a comma in it, so the key of a mention tells the
texts of both numbers (`key_eq_iff`). -/

namespace JsonSurvey

namespace Numeral.Plain

/-- A number that can be written: digits only, of which one at least is before the point. -/
structure IsWritten (n : Plain) : Prop where
  whole_ne_nil : n.whole ≠ []
  whole : Text.IsDigits n.whole
  fraction : Text.IsDigits n.fraction

theorem text_eq (n : Plain) :
    n.text = (if n.negative then [0x2D] else []) ++
      (n.whole ++ if n.fraction = [] then [] else 0x2E :: n.fraction) := by
  simp [text, Text.concat]

theorem splitFraction_eq (t : Text) :
    Text.IsDigits (splitFraction t).1 ∧
      t = (if (splitFraction t).1 = [] then [] else 0x2E :: (splitFraction t).1) ++
        (splitFraction t).2 := by
  cases t with
  | nil => exact ⟨nofun, rfl⟩
  | cons c t =>
    rw [splitFraction]
    split
    · next hpoint =>
      refine ⟨Text.isDigits_splitDigits t, ?_⟩
      rw [if_neg hpoint.2, List.cons_append, Text.append_splitDigits, hpoint.1]
    · exact ⟨nofun, rfl⟩

theorem splitMagnitude_eq_some {negative : Bool} {t rest : Text} {n : Plain}
    (h : splitMagnitude negative t = some (n, rest)) :
    n.IsWritten ∧ n.negative = negative ∧
      t = n.whole ++ ((if n.fraction = [] then [] else 0x2E :: n.fraction) ++ rest) := by
  simp only [splitMagnitude] at h
  split at h
  · contradiction
  · next hne =>
    cases h
    obtain ⟨hfraction, heq⟩ := splitFraction_eq (Text.splitDigits t).2
    refine ⟨⟨hne, Text.isDigits_splitDigits t, hfraction⟩, rfl, ?_⟩
    rw [← heq, Text.append_splitDigits]

/-- The number that a text begins with can be written, and its text is what is taken. -/
theorem split?_eq_some {t rest : Text} {n : Plain} (h : split? t = some (n, rest)) :
    n.IsWritten ∧ t = n.text ++ rest := by
  unfold split? at h
  split at h
  · next c t =>
    split at h
    · next hminus =>
      obtain ⟨hwritten, hnegative, rfl⟩ := splitMagnitude_eq_some h
      refine ⟨hwritten, ?_⟩
      rw [text_eq, hnegative, hminus]
      simp
    · obtain ⟨hwritten, hnegative, heq⟩ := splitMagnitude_eq_some h
      refine ⟨hwritten, ?_⟩
      rw [text_eq, hnegative, heq]
      simp
  · contradiction

/-- A text that does not lengthen a number in front of it. -/
def EndsPlain (t : Text) : Prop := ∀ c ∈ t.head?, c.isDigit = false ∧ c ≠ 0x2E

section
variable {rest : Text} (hrest : EndsPlain rest)
include hrest

theorem splitFraction_append {fraction : Text} (h : Text.IsDigits fraction) :
    splitFraction ((if fraction = [] then [] else 0x2E :: fraction) ++ rest) =
      (fraction, rest) := by
  split
  · next hnil =>
    rw [hnil, List.nil_append]
    cases rest with
    | nil => rfl
    | cons c rest => exact if_neg fun hpoint => (hrest c rfl).2 hpoint.1
  · next hne =>
    rw [List.cons_append, splitFraction, Text.splitDigits_append h fun c hc => (hrest c hc).1]
    exact if_pos ⟨rfl, hne⟩

namespace IsWritten
variable {n : Plain} (h : n.IsWritten)
include h

theorem splitMagnitude_append (negative : Bool) :
    splitMagnitude negative
      (n.whole ++ ((if n.fraction = [] then [] else 0x2E :: n.fraction) ++ rest)) =
      some (⟨negative, n.whole, n.fraction⟩, rest) := by
  have hhead : ∀ c ∈ ((if n.fraction = [] then [] else 0x2E :: n.fraction) ++ rest).head?,
      CodePoint.isDigit c = false := by
    split
    · exact fun c hc => (hrest c hc).1
    · rintro c ⟨⟩
      rfl
  simp only [splitMagnitude, Text.splitDigits_append h.whole hhead, if_neg h.whole_ne_nil,
    splitFraction_append hrest h.fraction]

/-- A number is read as itself up to where nothing lengthens it. -/
theorem split?_append : split? (n.text ++ rest) = some (n, rest) := by
  obtain ⟨c, whole, hwhole⟩ := List.exists_cons_of_ne_nil h.whole_ne_nil
  have hc : c ≠ 0x2D := by
    rintro rfl
    exact absurd (h.whole 0x2D (hwhole ▸ List.mem_cons_self)) (by decide)
  rw [text_eq, List.append_assoc, List.append_assoc]
  cases hnegative : n.negative with
  | true =>
    change splitMagnitude true (n.whole ++ _) = _
    rw [h.splitMagnitude_append hrest, ← hnegative]
  | false =>
    have hmagnitude := h.splitMagnitude_append hrest false
    rw [hwhole, List.cons_append] at hmagnitude
    rw [if_neg Bool.false_ne_true, List.nil_append, hwhole, List.cons_append, split?, if_neg hc,
      hmagnitude, ← hnegative, ← hwhole]

end IsWritten

end

namespace IsWritten
variable {n : Plain} (h : n.IsWritten)
include h

theorem split?_text : split? n.text = some (n, []) := by
  have hnil : EndsPlain [] := nofun
  have hsplit := h.split?_append hnil
  rwa [List.append_nil] at hsplit

theorem comma_not_mem_text : (0x2C : CodePoint) ∉ n.text := by
  have hdigits {t : Text} (ht : t.IsDigits) : (0x2C : CodePoint) ∉ t := fun hmem =>
    absurd (ht _ hmem) (by decide)
  rw [text_eq]
  cases n.negative <;> split <;>
    simp +decide [hdigits h.whole, hdigits h.fraction]

end IsWritten

theorem eq_of_text_eq {n n' : Plain} (h : n.IsWritten) (h' : n'.IsWritten)
    (htext : n.text = n'.text) : n = n' := by
  have hread := h.split?_text
  rw [htext, h'.split?_text, Option.some.injEq, Prod.mk.injEq] at hread
  exact hread.1.symm

end Numeral.Plain

namespace Coordinate

/-- A mention of numbers that can be written. -/
structure Mention.IsWritten (m : Mention) : Prop where
  lat : m.lat.IsWritten
  lng : m.lng.IsWritten

theorem mention?_isWritten {t : Text} {m : Mention} (h : mention? t = some m) : m.IsWritten := by
  unfold mention? at h
  obtain ⟨afterScheme, _, h⟩ := Option.bind_eq_some_iff.mp h
  obtain ⟨⟨lat, afterLat⟩, hlat, h⟩ := Option.bind_eq_some_iff.mp h
  obtain ⟨afterComma, _, h⟩ := Option.bind_eq_some_iff.mp h
  obtain ⟨⟨lng, afterLng⟩, hlng, h⟩ := Option.bind_eq_some_iff.mp h
  obtain ⟨_, ⟨⟩⟩ := Option.ite_none_right_eq_some.mp h
  exact ⟨(Numeral.Plain.split?_eq_some hlat).1, (Numeral.Plain.split?_eq_some hlng).1⟩

theorem key_eq (m : Mention) : m.key = m.lat.text ++ 0x2C :: m.lng.text := by
  simp [Mention.key, Text.concat]
  rfl

section
variable {m m' : Mention} (h : m.IsWritten)
include h

/-- The key of a mention tells the texts of its numbers. -/
theorem key_eq_iff : m.key = m'.key ↔ m.lat.text = m'.lat.text ∧ m.lng.text = m'.lng.text := by
  rw [key_eq, key_eq, List.append_cons_inj_of_notMem h.lat.comma_not_mem_text
    h.lng.comma_not_mem_text]
  simp

theorem eq_of_key_eq (h' : m'.IsWritten) (hkey : m.key = m'.key) : m = m' := by
  obtain ⟨hlat, hlng⟩ := (key_eq_iff h).mp hkey
  cases m
  cases m'
  rw [Mention.mk.injEq]
  exact ⟨Numeral.Plain.eq_of_text_eq h.lat h'.lat hlat,
    Numeral.Plain.eq_of_text_eq h.lng h'.lng hlng⟩

end
end Coordinate
end JsonSurvey
