import JsonSurvey.Proofs.Json.Number

/-! What a writer writes of its own accord. Names, numbers, marks and line ends have nothing but
ASCII characters and line feeds in them, and so do escapes (`IsPlain`). Any other code point of a
written text comes from a string or a key, and stands for itself there. -/

namespace JsonSurvey.Json

variable {c : CodePoint} {t : Text}

/-- A line feed, or a character of ASCII that is no control character. -/
def IsPlain (c : CodePoint) : Prop := c = 0x0A ∨ 0x20 ≤ c.val ∧ c.val < 0x7F

instance : DecidablePred IsPlain :=
  fun c => inferInstanceAs (Decidable (c = 0x0A ∨ 0x20 ≤ c.val ∧ c.val < 0x7F))

/-- A text of plain code points only. -/
def AllPlain (t : Text) : Prop := ∀ c ∈ t, IsPlain c

instance : DecidablePred AllPlain := fun _ => List.decidableBAll IsPlain _

theorem allPlain_cons : AllPlain (c :: t) ↔ IsPlain c ∧ AllPlain t := List.forall_mem_cons

theorem allPlain_append {s : Text} : AllPlain (s ++ t) ↔ AllPlain s ∧ AllPlain t :=
  List.forall_mem_append

theorem allPlain_newLine (level : Nat) : AllPlain (newLine level) := by
  rw [newLine, allPlain_cons]
  refine ⟨.inl rfl, fun c hc => ?_⟩
  rw [List.eq_of_mem_replicate hc]
  decide

/-! ### Numbers -/

theorem allPlain_of_isDigits (h : Text.IsDigits t) : AllPlain t := by
  intro c hc
  have hdigit := h c hc
  simp only [CodePoint.isDigit, Bool.and_eq_true, decide_eq_true_eq] at hdigit
  exact .inr (by omega)

theorem Number.IsWritten.allPlain {n : Number} (h : n.IsWritten) : AllPlain n.text := by
  have hsign : AllPlain (if n.negative then [0x2D] else []) := by
    cases n.negative <;> decide
  have hfraction : AllPlain (fractionText n.fraction) := by
    cases hn : n.fraction with
    | none => exact List.forall_mem_nil _
    | some digits =>
      exact allPlain_cons.mpr ⟨by decide, allPlain_of_isDigits (h.fraction digits hn).2⟩
  have hexponent : AllPlain (exponentText n.exponent) := by
    cases hn : n.exponent with
    | none => exact List.forall_mem_nil _
    | some e =>
      refine allPlain_cons.mpr ⟨by decide, allPlain_cons.mpr
        ⟨?_, allPlain_of_isDigits (h.exponent e hn).2⟩⟩
      cases e.1 <;> decide
  simp only [text, allPlain_append]
  exact ⟨hsign, allPlain_of_isDigits h.whole, hfraction, hexponent⟩

theorem allPlain_ofInt (i : Int) : AllPlain (Text.ofInt i) := by
  rw [← Number.text_ofInt]
  exact (Number.isWritten_ofInt i).allPlain

theorem allPlain_toText (x : Binary64) : AllPlain x.toText := by
  cases x with
  | nan => decide
  | infinite negative => cases negative <;> decide
  | finite negative rank =>
    obtain ⟨n, hn, htext, _⟩ := exists_number_toText negative rank
    rw [← htext]
    exact hn.allPlain

/-! ### Strings -/

theorem allPlain_hex : ∀ n : Fin 0x20, AllPlain (Text.ofString "\\u00" ++ Text.hex 2 n.val) := by
  decide

/-- An escape is plain, and a code point without one is no control character. -/
theorem allPlain_escape_or (c : CodePoint) :
    AllPlain (escape c) ∨ escape c = [c] ∧ 0x20 ≤ c.val := by
  unfold escape
  split
  · next h => rcases h with rfl | rfl <;> exact .inl (by decide)
  split
  · exact .inl (by decide)
  split
  · exact .inl (by decide)
  split
  · exact .inl (by decide)
  split
  · exact .inl (by decide)
  split
  · exact .inl (by decide)
  split
  · next h => exact .inl (allPlain_hex ⟨c.val, h⟩)
  · next hcontrol => exact .inr ⟨rfl, Nat.not_lt.mp hcontrol⟩

/-- What is not plain in a written string is a code point of the string, and no control
character. -/
theorem isPlain_or_of_mem_quote (h : c ∈ quote t) : IsPlain c ∨ c ∈ t ∧ 0x20 ≤ c.val := by
  simp only [quote, List.mem_cons, List.mem_append, List.mem_flatMap, List.not_mem_nil,
    or_false] at h
  rcases h with rfl | ⟨d, hd, hc⟩ | rfl
  · exact .inl (by decide)
  · rcases allPlain_escape_or d with hplain | ⟨hself, hcontrol⟩
    · exact .inl (hplain c hc)
    · rw [hself] at hc
      obtain rfl := List.mem_singleton.mp hc
      exact .inr ⟨hd, hcontrol⟩
  · exact .inl (by decide)

end JsonSurvey.Json
