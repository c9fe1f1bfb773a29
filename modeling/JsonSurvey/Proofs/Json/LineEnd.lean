import JsonSurvey.Json.Reader
import JsonSurvey.Proofs.Json.Layout
import JsonSurvey.Proofs.Text.LineEnd

/-! Line ends in JSON texts. Between lexemes every line end is white space, and no lexeme has one: a
string with a line end in it is a fault wherever the line end stands. So texts that differ in their
line ends alone have the same lexemes up to the first fault, and are decoded to the same value or
are both refused (`decode_sameLines_iff`). They may be refused for different reasons, since a line
end that is one code point longer moves all places behind it. -/

namespace JsonSurvey.Json

open Text (IsLineEnd SameLines)

variable {s t rest : Text} {c : CodePoint}

/-- Two scans have the same result and go on with the same lines. -/
def SameScan {α : Type} (r r' : α × Text) : Prop := r.1 = r'.1 ∧ SameLines r.2 r'.2

theorem rel_cases {α : Type} {R : α → α → Prop} {r r' : Option α} (h : Option.Rel R r r') :
    (r = none ∧ r' = none) ∨ ∃ a a', r = some a ∧ r' = some a' ∧ R a a' := by
  cases h with
  | none => exact .inl ⟨rfl, rfl⟩
  | some ha => exact .inr ⟨_, _, rfl, rfl, ha⟩

/-! ### Strings -/

theorem hexValue?_of_isLineEnd (h : IsLineEnd c) : c.hexValue? = none := by
  rcases h with rfl | rfl <;> rfl

theorem not_isLineEnd_of_hexValue? {n : Nat} (h : c.hexValue? = some n) : ¬ IsLineEnd c := by
  intro hline
  rw [hexValue?_of_isLineEnd hline] at h
  contradiction

/-- No digit of an escape is a line end. -/
theorem not_isLineEnd_of_fourDigits? {h₁ h₂ h₃ h₄ u : CodePoint}
    (h : fourDigits? h₁ h₂ h₃ h₄ = some u) :
    ¬ IsLineEnd h₁ ∧ ¬ IsLineEnd h₂ ∧ ¬ IsLineEnd h₃ ∧ ¬ IsLineEnd h₄ := by
  unfold fourDigits? at h
  split at h
  · next hd₁ hd₂ hd₃ hd₄ =>
    exact ⟨not_isLineEnd_of_hexValue? hd₁, not_isLineEnd_of_hexValue? hd₂,
      not_isLineEnd_of_hexValue? hd₃, not_isLineEnd_of_hexValue? hd₄⟩
  · contradiction

theorem shortEscape?_of_isLineEnd (h : IsLineEnd c) : shortEscape? c = none := by
  rcases h with rfl | rfl <;> rfl

theorem not_isLineEnd_of_not_lt (h : ¬ c.val < 0x20) : ¬ IsLineEnd c := by
  rintro (rfl | rfl) <;> exact h (by decide)

theorem not_isLineEnd_backslash : ¬ IsLineEnd 0x5C := by decide

/-- A string that is scanned to its end has no line end in it. -/
theorem scanString_sameLines {start start' x : Text} {done : List Piece} (h : SameLines s t)
    (hscan : scanString start done s = (.string x, rest)) :
    ∃ rest', scanString start' done t = (.string x, rest') ∧ SameLines rest rest' := by
  fun_induction scanString start done s generalizing t with
  | case1 | case3 | case5 | case6 | case8 | case9 => simp at hscan
  | case2 done s =>
    obtain ⟨t, rfl, ht⟩ := h.exists_cons (by decide)
    cases hscan
    exact ⟨t, scanString_end, ht⟩
  | case4 done h₁ h₂ h₃ h₄ next s u hu _ ih =>
    obtain ⟨hh₁, hh₂, hh₃, hh₄⟩ := not_isLineEnd_of_fourDigits? hu
    have hletter : ¬ IsLineEnd 0x75 := by decide
    obtain ⟨t, rfl, ht⟩ := SameLines.exists_append (p := [0x5C, 0x75, h₁, h₂, h₃, h₄]) h
      (by simp [not_isLineEnd_backslash, hletter, hh₁, hh₂, hh₃, hh₄])
    simp only [List.cons_append, List.nil_append]
    rw [scanString_unit hu (ht.ne_nil (List.cons_ne_nil _ _))]
    exact ih ht hscan
  | case7 done e s he u hu _ ih =>
    have hline : ¬ IsLineEnd e := by
      intro hline
      rw [shortEscape?_of_isLineEnd hline] at hu
      contradiction
    obtain ⟨t, rfl, ht⟩ := SameLines.exists_append (p := [0x5C, e]) h
      (by simp [not_isLineEnd_backslash, hline])
    simp only [List.cons_append, List.nil_append]
    rw [scanString_short he hu]
    exact ih ht hscan
  | case10 done c s hquote hbackslash hcontrol ih =>
    obtain ⟨t, rfl, ht⟩ := h.exists_cons (not_isLineEnd_of_not_lt hcontrol)
    rw [scanString_plain hquote hbackslash hcontrol]
    exact ih ht hscan

/-! ### Numbers -/

theorem scanWhole_sameLines (h : SameLines s t) : SameScan (scanWhole s) (scanWhole t) := by
  have hdigits := h.splitDigits
  cases h with
  | nil => exact ⟨rfl, .nil⟩
  | cons _ h =>
    rw [scanWhole, scanWhole]
    split
    · exact ⟨rfl, h⟩
    · exact hdigits
  | lineEnd hc hd =>
    rw [scanWhole, scanWhole, if_neg (hc.ne (by decide)), if_neg (hd.ne (by decide))]
    exact hdigits

theorem scanFraction_sameLines (h : SameLines s t) :
    SameScan (scanFraction s) (scanFraction t) := by
  cases h with
  | nil => exact ⟨rfl, .nil⟩
  | cons hc h =>
    obtain ⟨hdigits, hrest⟩ := h.splitDigits
    rw [scanFraction, scanFraction, hdigits]
    split
    · exact ⟨rfl, hrest⟩
    · exact ⟨rfl, .cons hc h⟩
  | lineEnd hc hd hcs hds h =>
    rw [scanFraction, scanFraction, if_neg fun hpoint => hc.ne (by decide) hpoint.1,
      if_neg fun hpoint => hd.ne (by decide) hpoint.1]
    exact ⟨rfl, .lineEnd hc hd hcs hds h⟩

theorem splitSign_sameLines (h : SameLines s t) : SameScan (splitSign s) (splitSign t) := by
  cases h with
  | nil => exact ⟨rfl, .nil⟩
  | cons hc h =>
    rw [splitSign, splitSign]
    split
    · exact ⟨rfl, h⟩
    split
    · exact ⟨rfl, h⟩
    · exact ⟨rfl, .cons hc h⟩
  | lineEnd hc hd hcs hds h =>
    rw [splitSign, splitSign, if_neg (hc.ne (by decide)), if_neg (hc.ne (by decide)),
      if_neg (hd.ne (by decide)), if_neg (hd.ne (by decide))]
    exact ⟨rfl, .lineEnd hc hd hcs hds h⟩

theorem scanExponent_sameLines (h : SameLines s t) :
    SameScan (scanExponent s) (scanExponent t) := by
  have hletter {c : CodePoint} (hc : IsLineEnd c) : ¬ (c = 0x65 ∨ c = 0x45) :=
    not_or.mpr ⟨hc.ne (by decide), hc.ne (by decide)⟩
  cases h with
  | nil => exact ⟨rfl, .nil⟩
  | cons hc h =>
    obtain ⟨hsign, hbehind⟩ := splitSign_sameLines h
    obtain ⟨hdigits, hrest⟩ := hbehind.splitDigits
    rw [scanExponent, scanExponent, hsign, hdigits]
    split
    · exact ⟨rfl, hrest⟩
    · exact ⟨rfl, .cons hc h⟩
  | lineEnd hc hd hcs hds h =>
    rw [scanExponent, scanExponent, if_neg fun he => hletter hc he.1,
      if_neg fun he => hletter hd he.1]
    exact ⟨rfl, .lineEnd hc hd hcs hds h⟩

theorem scanMagnitude_sameLines (negative : Bool) (h : SameLines s t) :
    Option.Rel SameScan (scanMagnitude negative s) (scanMagnitude negative t) := by
  obtain ⟨hwhole, hrest⟩ := scanWhole_sameLines h
  obtain ⟨hfraction, hrest⟩ := scanFraction_sameLines hrest
  obtain ⟨hexponent, hrest⟩ := scanExponent_sameLines hrest
  simp only [scanMagnitude, hwhole, hfraction, hexponent]
  split
  · exact .none
  · exact .some ⟨rfl, hrest⟩

theorem scanNumber?_sameLines (h : SameLines s t) :
    Option.Rel SameScan (scanNumber? s) (scanNumber? t) := by
  have hmagnitude := scanMagnitude_sameLines false h
  cases h with
  | nil => exact .none
  | cons _ h =>
    rw [scanNumber?, scanNumber?]
    split
    · exact scanMagnitude_sameLines true h
    · exact hmagnitude
  | lineEnd hc hd =>
    rw [scanNumber?, scanNumber?, if_neg (hc.ne (by decide)), if_neg (hd.ne (by decide))]
    exact hmagnitude

/-! ### Names -/

theorem rel_findSome? {α β : Type} {R : β → β → Prop} {f g : α → Option β} {as : List α}
    (h : ∀ a ∈ as, Option.Rel R (f a) (g a)) : Option.Rel R (as.findSome? f) (as.findSome? g) := by
  induction as with
  | nil => exact .none
  | cons a as ih =>
    obtain ⟨ha, has⟩ := List.forall_mem_cons.mp h
    rw [List.findSome?_cons, List.findSome?_cons]
    rcases rel_cases ha with ⟨hf, hg⟩ | ⟨b, b', hf, hg, hb⟩
    · rw [hf, hg]
      exact ih has
    · rw [hf, hg]
      exact .some hb

theorem after?_sameLines {word : Text} (hword : ∀ c ∈ word, ¬ IsLineEnd c) (h : SameLines s t) :
    Option.Rel SameLines (after? word s) (after? word t) := by
  induction word generalizing s t with
  | nil => exact .some h
  | cons c word ih =>
    obtain ⟨hc, hword⟩ := List.forall_mem_cons.mp hword
    cases h with
    | nil => exact .none
    | cons _ h =>
      rw [after?, after?]
      split
      · exact ih hword h
      · exact .none
    | lineEnd hd he =>
      rw [after?, after?, if_neg (hd.ne hc).symm, if_neg (he.ne hc).symm]
      exact .none

theorem not_isLineEnd_names : ∀ m ∈ names, ∀ c ∈ m.1, ¬ IsLineEnd c := by
  have h : (names.all fun m => m.1.all fun c => !decide (IsLineEnd c)) = true := rfl
  simpa only [List.all_eq_true, Bool.not_eq_true', decide_eq_false_iff_not] using h

theorem scanName?_sameLines (h : SameLines s t) :
    Option.Rel SameScan (scanName? s) (scanName? t) := by
  refine rel_findSome? fun m hm => ?_
  dsimp only
  rcases rel_cases (after?_sameLines (not_isLineEnd_names m hm) h) with
    ⟨hs, ht⟩ | ⟨rest, rest', hs, ht, hrest⟩
  · rw [hs, ht]
    exact .none
  · rw [hs, ht]
    exact .some ⟨rfl, hrest⟩

/-! ### Lexemes -/

/-- The faults among the lexemes, which the reader accepts nowhere. -/
def Lexeme.IsFault : Lexeme → Prop
  | .unknown => True
  | .badString .. => True
  | _ => False

theorem scanString_string_or (start : Text) (done : List Piece) (t : Text) :
    (∃ x rest, scanString start done t = (.string x, rest)) ∨
      (scanString start done t).1.IsFault := by
  fun_induction scanString start done t with
  | case1 | case3 | case5 | case6 | case8 | case9 => exact .inr trivial
  | case2 => exact .inl ⟨_, _, rfl⟩
  | case4 _ _ _ _ _ _ _ _ _ _ ih => exact ih
  | case7 _ _ _ _ _ _ _ ih => exact ih
  | case10 _ _ _ _ _ _ ih => exact ih

/-- A lexeme that is no fault is found again in a text with the same lines. -/
theorem scan_sameLines (hc : ¬ IsLineEnd c) (h : SameLines s t)
    (hfault : ¬ (scan c s).1.IsFault) : SameScan (scan c s) (scan c t) := by
  have hname := scanName?_sameLines (.cons hc h)
  have hnumber := scanNumber?_sameLines (.cons hc h)
  unfold scan at hfault ⊢
  split
  · next hquote =>
    rw [if_pos hquote] at hfault
    obtain ⟨x, rest, hscan⟩ := (scanString_string_or _ _ _).resolve_right hfault
    obtain ⟨rest', hscan', hrest⟩ := scanString_sameLines h hscan
    rw [hscan, hscan']
    exact ⟨rfl, hrest⟩
  split
  · exact ⟨rfl, h⟩
  rcases rel_cases hname with ⟨hs, ht⟩ | ⟨r, r', hs, ht, hv, hrest⟩
  · rcases rel_cases hnumber with ⟨hs', ht'⟩ | ⟨r, r', hs', ht', hn, hrest⟩
    · rw [hs, ht, hs', ht']
      exact ⟨rfl, .nil⟩
    · rw [hs, ht, hs', ht']
      exact ⟨congrArg Lexeme.number hn, hrest⟩
  · rw [hs, ht]
    exact ⟨congrArg Lexeme.name hv, hrest⟩

/-! ### Reading -/

/-- Whether a token is accepted, and what the reader does with it, is up to its lexeme. -/
theorem take_eq_ok {limit : Nat} {stack stack' : List Frame} {expecting expecting' : Expecting}
    {lexeme : Lexeme} {text : Text}
    (h : take limit stack expecting ⟨lexeme, text⟩ = .ok (stack', expecting')) :
    ¬ lexeme.IsFault ∧
      ∀ text', take limit stack expecting ⟨lexeme, text'⟩ = .ok (stack', expecting') := by
  cases expecting with
  | value => cases lexeme <;> first | exact ⟨id, fun _ => h⟩ | contradiction
  | element => cases lexeme <;> first | exact ⟨id, fun _ => h⟩ | contradiction
  | key members mayEnd =>
    cases mayEnd <;> cases lexeme <;> first | exact ⟨id, fun _ => h⟩ | contradiction
  | colon => cases lexeme <;> first | exact ⟨id, fun _ => h⟩ | contradiction
  | complete =>
    rcases stack with _ | ⟨_ | _, _⟩ <;> cases lexeme <;>
      first | exact ⟨id, fun _ => h⟩ | contradiction

theorem run_cons_eq_ok {limit : Nat} {stack : List Frame} {expecting : Expecting} {token : Token}
    {tokens : List Token} {v : Value} (h : run limit stack expecting (token :: tokens) = .ok v) :
    ∃ stack' expecting', take limit stack expecting token = .ok (stack', expecting') ∧
      run limit stack' expecting' tokens = .ok v := by
  rw [run] at h
  split at h
  · next stack' expecting' htake => exact ⟨stack', expecting', htake, h⟩
  · contradiction

theorem isSpace_of_isLineEnd (h : IsLineEnd c) : isSpace c = true := by
  rcases h with rfl | rfl <;> rfl

/-- The reader comes to a value on both of two texts with the same lines or on neither. Each of its
steps takes the same lexeme from both, and behind it the texts again have the same lines. -/
theorem run_sameLines {limit : Nat} {v : Value} (h : SameLines s t) {stack : List Frame}
    {expecting : Expecting} (hrun : run limit stack expecting (tokens s) = .ok v) :
    run limit stack expecting (tokens t) = .ok v := by
  induction hlength : s.length using Nat.strongRecOn generalizing s t stack expecting with
  | ind n ih =>
    have hdrop := h.dropWhile fun _ => isSpace_of_isLineEnd
    cases hs : s.dropWhile isSpace with
    | nil =>
      rw [hs] at hdrop
      rwa [tokens_congr (hdrop.eq_nil.trans hs.symm)]
    | cons c rest =>
      have hspace : isSpace c = false := by
        have hhead := List.head?_dropWhile_not isSpace s
        rwa [hs] at hhead
      have hc : ¬ IsLineEnd c := fun hc =>
        absurd ((isSpace_of_isLineEnd hc).symm.trans hspace) nofun
      rw [hs] at hdrop
      obtain ⟨rest', ht, hrest⟩ := hdrop.exists_cons hc
      rw [tokens_cons hs] at hrun
      obtain ⟨stack', expecting', htake, hbehind⟩ := run_cons_eq_ok hrun
      obtain ⟨hfault, htake'⟩ := take_eq_ok htake
      obtain ⟨hlexeme, hafter⟩ := scan_sameLines hc hrest hfault
      have hlt : (scan c rest).2.length < n := by
        have hscan := scan_length_le c rest
        have hle := (List.dropWhile_suffix (p := isSpace) (l := s)).length_le
        rw [hs, List.length_cons] at hle
        omega
      rw [tokens_cons ht, ← hlexeme, run_of_take (htake' _)]
      exact ih _ hlt hafter hbehind rfl

theorem hasMark_sameLines (h : SameLines s t) (hs : hasMark s = true) : hasMark t = true := by
  cases s with
  | nil => contradiction
  | cons c s =>
    have hc : c = 0xFEFF := Option.some.inj (beq_iff_eq.mp hs)
    subst hc
    obtain ⟨t, rfl, _⟩ := h.exists_cons (by decide)
    rfl

theorem decode_eq_ok_iff {limit : Nat} {v : Value} :
    decodeWithin limit t = .ok v ↔ hasMark t = false ∧ run limit [] .value (tokens t) = .ok v := by
  unfold decodeWithin
  cases hasMark t <;> cases run limit [] .value (tokens t) <;> simp [Except.mapError]

/-- Texts that differ in their line ends alone are decoded to the same value, if to any. -/
theorem decode_sameLines {limit : Nat} {v : Value} (h : SameLines s t)
    (hs : decodeWithin limit s = .ok v) : decodeWithin limit t = .ok v := by
  rw [decode_eq_ok_iff] at hs ⊢
  refine ⟨?_, run_sameLines h hs.2⟩
  rw [Bool.eq_false_iff]
  exact fun ht => absurd (hs.1.symm.trans (hasMark_sameLines h.symm ht)) nofun

theorem decode_unifyLines {limit : Nat} {v : Value} :
    decodeWithin limit t.unifyLines = .ok v ↔ decodeWithin limit t = .ok v :=
  ⟨decode_sameLines (Text.sameLines_unifyLines t).symm,
    decode_sameLines (Text.sameLines_unifyLines t)⟩

end JsonSurvey.Json
