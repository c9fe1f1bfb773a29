import JsonSurvey.Proofs.Json.Layout

/-! The grammar of JSON texts (`IsText`). It admits the names of all values that have one, and tells
which are named; standard JSON names no number (`IsStandard`). The scanner finds the names that the
grammar tells, in their order (`IsText.named_append`), so that they can be told from the text, and
none of the names for numbers that are not finite is among the lexemes of a standard text. -/

namespace JsonSurvey.Json

/-! ### Numbers and strings -/

/-- A fraction, which may be left out. -/
inductive IsFraction : Text → Prop
  | none : IsFraction []
  | point {digits : Text} : digits ≠ [] → Text.IsDigits digits → IsFraction (0x2E :: digits)

/-- An exponent, which may be left out, with a sign or without one. -/
inductive IsExponent : Text → Prop
  | none : IsExponent []
  | letter {letter : CodePoint} {sign digits : Text} : letter = 0x65 ∨ letter = 0x45 →
    sign = [] ∨ sign = [0x2B] ∨ sign = [0x2D] → digits ≠ [] → Text.IsDigits digits →
    IsExponent (letter :: (sign ++ digits))

/-- A number: a minus sign or none, digits with no zero in front of others, a fraction and an
exponent. -/
inductive IsNumeral : Text → Prop
  | mk (negative : Bool) {whole fraction exponent : Text} : whole ≠ [] → Text.IsDigits whole →
    whole = [0x30] ∨ whole.head? ≠ some 0x30 → IsFraction fraction → IsExponent exponent →
    IsNumeral ((if negative then [0x2D] else []) ++ (whole ++ (fraction ++ exponent)))

/-- What stands behind the opening quote of a string, the closing one included. -/
inductive IsStringTail : Text → Prop
  | quote : IsStringTail [0x22]
  | plain {c : CodePoint} {t : Text} : c ≠ 0x22 → c ≠ 0x5C → 0x20 ≤ c.val → IsStringTail t →
    IsStringTail (c :: t)
  | short {c : CodePoint} {t : Text} : c ∈ Text.ofString "\"\\/bfnrt" → IsStringTail t →
    IsStringTail (0x5C :: c :: t)
  | unit {h₁ h₂ h₃ h₄ : CodePoint} {t : Text} : (∀ h ∈ [h₁, h₂, h₃, h₄], h.hexValue?.isSome) →
    IsStringTail t → IsStringTail (0x5C :: 0x75 :: h₁ :: h₂ :: h₃ :: h₄ :: t)

/-! ### Values -/

/-- The parts of the grammar: values; values with white space around them, as whole texts are; the
elements of an array or the members of an object with the mark at their end. -/
inductive Part
  | value
  | padded
  | elements
  | members

/-- The texts of a part, with the values that are named in them, in order. -/
inductive IsText : Part → Text → List Value → Prop
  | name {m : Text × Value} : m ∈ names → IsText .value m.1 [m.2]
  | numeral {t : Text} : IsNumeral t → IsText .value t []
  | string {t : Text} : IsStringTail t → IsText .value (0x22 :: t) []
  | emptyArray {gap : Text} : IsSpaces gap → IsText .value (0x5B :: (gap ++ [0x5D])) []
  | array {t : Text} {named : List Value} :
    IsText .elements t named → IsText .value (0x5B :: t) named
  | emptyObject {gap : Text} : IsSpaces gap → IsText .value (0x7B :: (gap ++ [0x7D])) []
  | object {t : Text} {named : List Value} :
    IsText .members t named → IsText .value (0x7B :: t) named
  | padded {gap gap' t : Text} {named : List Value} : IsSpaces gap → IsText .value t named →
    IsSpaces gap' → IsText .padded (gap ++ (t ++ gap')) named
  | lastElement {t : Text} {named : List Value} : IsText .padded t named →
    IsText .elements (t ++ [0x5D]) named
  | element {t ts : Text} {named named' : List Value} : IsText .padded t named →
    IsText .elements ts named' → IsText .elements (t ++ 0x2C :: ts) (named ++ named')
  | lastMember {gap gap' key t : Text} {named : List Value} : IsSpaces gap → IsStringTail key →
    IsSpaces gap' → IsText .padded t named →
    IsText .members (gap ++ 0x22 :: (key ++ (gap' ++ 0x3A :: (t ++ [0x7D])))) named
  | member {gap gap' key t ts : Text} {named named' : List Value} : IsSpaces gap →
    IsStringTail key → IsSpaces gap' → IsText .padded t named → IsText .members ts named' →
    IsText .members (gap ++ 0x22 :: (key ++ (gap' ++ 0x3A :: (t ++ 0x2C :: ts)))) (named ++ named')

/-- A text of standard JSON names nothing but null and the truth values. -/
def IsStandard (t : Text) : Prop :=
  ∃ named, IsText .padded t named ∧ ∀ v ∈ named, v = .null ∨ v = .bool true ∨ v = .bool false

/-! ### Scanning -/

section
variable {t rest : Text}

theorem head?_append_of {p : CodePoint → Prop} (ht : ∀ c ∈ t.head?, p c)
    (hrest : ∀ c ∈ rest.head?, p c) : ∀ c ∈ (t ++ rest).head?, p c := by
  cases t with
  | nil => exact hrest
  | cons c t => exact ht

theorem IsExponent.head (h : IsExponent t) : ∀ c ∈ t.head?, c.isDigit = false ∧ c ≠ 0x2E := by
  cases h with
  | none => nofun
  | letter hletter =>
    rintro c ⟨⟩
    rcases hletter with rfl | rfl <;> decide

theorem IsFraction.head (h : IsFraction t) : ∀ c ∈ t.head?, c.isDigit = false := by
  cases h with
  | none => nofun
  | point =>
    rintro c ⟨⟩
    rfl

theorem exists_splitSign {sign digits : Text} (hsign : sign = [] ∨ sign = [0x2B] ∨ sign = [0x2D])
    (hne : digits ≠ []) (hdigits : Text.IsDigits digits) (rest : Text) :
    ∃ negative, splitSign (sign ++ (digits ++ rest)) = (negative, digits ++ rest) := by
  rcases hsign with rfl | rfl | rfl
  · obtain ⟨c, digits, rfl⟩ := List.exists_cons_of_ne_nil hne
    have hc := hdigits c List.mem_cons_self
    refine ⟨false, ?_⟩
    change (if c = 0x2D then _ else if c = 0x2B then _ else _) = _
    rw [if_neg (ne_of_isDigit hc rfl), if_neg (ne_of_isDigit hc rfl)]
    rfl
  · exact ⟨false, rfl⟩
  · exact ⟨true, rfl⟩

theorem IsExponent.exists_scan (h : IsExponent t) (hrest : EndsNumber rest) :
    ∃ exponent, scanExponent (t ++ rest) = (exponent, rest) := by
  cases h with
  | none => exact ⟨_, scanExponent_none hrest⟩
  | @letter letter sign digits hletter hsign hne hdigits =>
    obtain ⟨negative, hsplit⟩ := exists_splitSign hsign hne hdigits rest
    refine ⟨some (negative, digits), ?_⟩
    rw [List.cons_append, List.append_assoc, scanExponent, hsplit,
      Text.splitDigits_append hdigits fun c hc => (hrest c hc).1]
    exact if_pos ⟨hletter, hne⟩

theorem IsFraction.exists_scan (h : IsFraction t)
    (hrest : ∀ c ∈ rest.head?, c.isDigit = false ∧ c ≠ 0x2E) :
    ∃ fraction, scanFraction (t ++ rest) = (fraction, rest) := by
  cases h with
  | none => exact ⟨_, scanFraction_none fun c hc => (hrest c hc).2⟩
  | point hne hdigits =>
    exact ⟨_, scanFraction_append (fun c hc => (hrest c hc).1) hne hdigits⟩

/-- A number is scanned as one. -/
theorem IsNumeral.exists_tokens (h : IsNumeral t) (hrest : EndsNumber rest) :
    ∃ n, tokens (t ++ rest) = ⟨.number n, t ++ rest⟩ :: tokens rest := by
  cases h with
  | @mk negative whole fraction exponent hne hwhole hleading hfraction hexponent =>
    have hbehind : ∀ c ∈ (exponent ++ rest).head?, c.isDigit = false ∧ c ≠ 0x2E :=
      head?_append_of hexponent.head fun c hc => ⟨(hrest c hc).1, (hrest c hc).2.1⟩
    have hbehind' : ∀ c ∈ (fraction ++ (exponent ++ rest)).head?, c.isDigit = false :=
      head?_append_of hfraction.head fun c hc => (hbehind c hc).1
    obtain ⟨f, hscanFraction⟩ := hfraction.exists_scan hbehind
    obtain ⟨e, hscanExponent⟩ := hexponent.exists_scan hrest
    have hscan : scanMagnitude negative (whole ++ (fraction ++ (exponent ++ rest))) =
        some (⟨negative, whole, f, e⟩, rest) := by
      simp only [scanMagnitude, scanWhole_append hbehind' hne hwhole hleading, if_neg hne,
        hscanFraction, hscanExponent]
    obtain ⟨c, digits, rfl⟩ := List.exists_cons_of_ne_nil hne
    have htext : (if negative then [0x2D] else []) ++ (c :: digits ++ (fraction ++ exponent)) ++
        rest = if negative then 0x2D :: c :: (digits ++ (fraction ++ (exponent ++ rest)))
          else c :: (digits ++ (fraction ++ (exponent ++ rest))) := by
      cases negative <;> simp
    rw [htext]
    exact ⟨_, tokens_magnitude (hwhole c List.mem_cons_self) hscan⟩

theorem IsStringTail.ne_nil (h : IsStringTail t) : t ≠ [] := by
  cases h <;> exact List.cons_ne_nil _ _

theorem exists_shortEscape {c : CodePoint} (h : c ∈ Text.ofString "\"\\/bfnrt") :
    c ≠ 0x75 ∧ ∃ u, shortEscape? c = some u := by
  have hall : (Text.ofString "\"\\/bfnrt").all (fun c => c != 0x75 && (shortEscape? c).isSome) =
      true := rfl
  have hc := List.all_eq_true.mp hall c h
  rw [Bool.and_eq_true, bne_iff_ne, Option.isSome_iff_exists] at hc
  exact hc

theorem exists_fourDigits {h₁ h₂ h₃ h₄ : CodePoint}
    (h : ∀ h ∈ [h₁, h₂, h₃, h₄], h.hexValue?.isSome) : ∃ u, fourDigits? h₁ h₂ h₃ h₄ = some u := by
  simp only [List.forall_mem_cons, Option.isSome_iff_exists] at h
  obtain ⟨⟨v₁, hv₁⟩, ⟨v₂, hv₂⟩, ⟨v₃, hv₃⟩, ⟨v₄, hv₄⟩, _⟩ := h
  exact ⟨_, by rw [fourDigits?, hv₁, hv₂, hv₃, hv₄]⟩

/-- A string is scanned up to its closing quote. -/
theorem IsStringTail.exists_scan (h : IsStringTail t) (start : Text) (done : List Piece)
    (rest : Text) : ∃ s, scanString start done (t ++ rest) = (.string s, rest) := by
  induction h generalizing done with
  | quote => exact ⟨_, scanString_end⟩
  | plain hquote hbackslash hcontrol _ ih =>
    rw [List.cons_append, scanString_plain hquote hbackslash (Nat.not_lt.mpr hcontrol)]
    exact ih _
  | short hc _ ih =>
    obtain ⟨hne, u, hu⟩ := exists_shortEscape hc
    rw [List.cons_append, List.cons_append, scanString_short hne hu]
    exact ih _
  | unit hhex htail ih =>
    obtain ⟨u, hu⟩ := exists_fourDigits hhex
    simp only [List.cons_append]
    rw [scanString_unit hu (List.append_ne_nil_of_left_ne_nil htail.ne_nil _)]
    exact ih _

theorem IsStringTail.exists_tokens (h : IsStringTail t) (rest : Text) :
    ∃ s, tokens (0x22 :: (t ++ rest)) = ⟨.string s, 0x22 :: (t ++ rest)⟩ :: tokens rest := by
  obtain ⟨s, hs⟩ := h.exists_scan (0x22 :: (t ++ rest)) [] rest
  exact ⟨s, tokens_eq rfl ((if_pos rfl).trans hs)⟩

end

/-! ### Names -/

/-- The value that a lexeme names. -/
def Lexeme.named? : Lexeme → Option Value
  | .name v => some v
  | _ => none

/-- The values that are named in a text, in order. -/
def named (t : Text) : List Value := (tokens t).filterMap fun token => token.lexeme.named?

section
variable {t rest gap : Text}

theorem named_nil : named [] = [] := by
  rw [named, tokens_nil]
  rfl

theorem named_eq {token : Token} (h : tokens t = token :: tokens rest) :
    named t = token.lexeme.named?.toList ++ named rest := by
  rw [named, h, List.filterMap_cons, named]
  cases token.lexeme.named? <;> rfl

theorem named_spaces (h : IsSpaces gap) (t : Text) : named (gap ++ t) = named t := by
  rw [named, tokens_spaces h, named]

theorem named_mark {c : CodePoint} {mark : Lexeme} (hmark : mark? c = some mark)
    (hnamed : mark.named? = none) (rest : Text) : named (c :: rest) = named rest := by
  rw [named_eq (tokens_mark hmark rest), hnamed]
  rfl

theorem named_string (h : IsStringTail t) (rest : Text) :
    named (0x22 :: (t ++ rest)) = named rest := by
  obtain ⟨s, hs⟩ := h.exists_tokens rest
  exact named_eq hs

end

/-- The names of the lexemes of a text are those that the grammar tells. -/
theorem IsText.named_append {part : Part} {t : Text} {used : List Value} (h : IsText part t used)
    {rest : Text} (hrest : EndsNumber rest) : named (t ++ rest) = used ++ named rest := by
  induction h generalizing rest with
  | name hm => exact named_eq (tokens_name hm rest)
  | numeral ht =>
    obtain ⟨n, hn⟩ := ht.exists_tokens hrest
    exact named_eq hn
  | string ht => rw [List.cons_append, named_string ht, List.nil_append]
  | emptyArray hgap | emptyObject hgap =>
    rw [List.cons_append, named_mark rfl rfl, List.append_assoc, named_spaces hgap,
      List.singleton_append, named_mark rfl rfl, List.nil_append]
  | array _ ih | object _ ih => rw [List.cons_append, named_mark rfl rfl, ih hrest]
  | padded hgap _ hgap' ih =>
    rw [List.append_assoc, named_spaces hgap, List.append_assoc, ih (.spaces hgap' hrest),
      named_spaces hgap']
  | lastElement _ ih =>
    rw [List.append_assoc, List.singleton_append, ih (endsNumber_mark rfl _), named_mark rfl rfl]
  | element _ _ ih ih' =>
    rw [List.append_assoc, List.cons_append, ih (endsNumber_mark rfl _), named_mark rfl rfl,
      ih' hrest, List.append_assoc]
  | lastMember hgap hkey hgap' _ ih =>
    simp only [List.append_assoc, List.cons_append, List.nil_append]
    rw [named_spaces hgap, named_string hkey, named_spaces hgap', named_mark rfl rfl,
      ih (endsNumber_mark rfl _), named_mark rfl rfl]
  | member hgap hkey hgap' _ _ ih ih' =>
    simp only [List.append_assoc, List.cons_append]
    rw [named_spaces hgap, named_string hkey, named_spaces hgap', named_mark rfl rfl,
      ih (endsNumber_mark rfl _), named_mark rfl rfl, ih' hrest]

/-- The names that the grammar tells are those of the text. -/
theorem IsText.named_eq {part : Part} {t : Text} {used : List Value} (h : IsText part t used) :
    named t = used := by
  have happend := h.named_append endsNumber_nil
  rwa [List.append_nil, named_nil, List.append_nil] at happend

end JsonSurvey.Json
