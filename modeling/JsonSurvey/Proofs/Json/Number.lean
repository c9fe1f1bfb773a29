import JsonSurvey.Json.Printer
import JsonSurvey.Json.Reader
import JsonSurvey.Proofs.Binary64.Decimal
import JsonSurvey.Proofs.Json.Lexeme
import JsonSurvey.Proofs.Text
import Mathlib.Data.List.Basic

/-! Numbers read back. A number that can be written is scanned as itself, provided that nothing
behind it lengthens it (`tokens_number`). The numeral of an integer is the text of such a number,
which stands for the integer (`Number.text_ofInt`, `Number.value_ofInt`). So is the text of a finite
floating-point number: with a point or an exponent, its digits without the zeros at their end are
read as the decimal number that was written (`isMagnitude_decimalText`), and that one is rounded to
the floating-point number (`exists_number_toText`). -/

namespace JsonSurvey.Json

/-- A text that does not lengthen a number in front of it. -/
def EndsNumber (t : Text) : Prop :=
  ∀ c ∈ t.head?, c.isDigit = false ∧ c ≠ 0x2E ∧ c ≠ 0x65 ∧ c ≠ 0x45

namespace Number

/-- The text of a fraction that may be left out. -/
def fractionText : Option Text → Text
  | none => []
  | some digits => 0x2E :: digits

/-- The text of an exponent that may be left out; its sign is not. -/
def exponentText : Option (Bool × Text) → Text
  | none => []
  | some (negative, digits) => 0x65 :: (if negative then 0x2D else 0x2B) :: digits

/-- The text of a number. -/
def text (n : Number) : Text :=
  (if n.negative then [0x2D] else []) ++
    (n.whole ++ (fractionText n.fraction ++ exponentText n.exponent))

/-- A number that can be written: there are digits wherever the text needs them, and none is a zero
in front of other digits. -/
structure IsWritten (n : Number) : Prop where
  whole_ne_nil : n.whole ≠ []
  whole : Text.IsDigits n.whole
  leading : n.whole = [0x30] ∨ n.whole.head? ≠ some 0x30
  fraction : ∀ digits ∈ n.fraction, digits ≠ [] ∧ Text.IsDigits digits
  exponent : ∀ e ∈ n.exponent, e.2 ≠ [] ∧ Text.IsDigits e.2

end Number

/-! ### Scanning -/

section
variable {digits rest : Text} (hrest : ∀ c ∈ rest.head?, c.isDigit = false)
include hrest

theorem scanWhole_append (hne : digits ≠ []) (hdigits : Text.IsDigits digits)
    (hleading : digits = [0x30] ∨ digits.head? ≠ some 0x30) :
    scanWhole (digits ++ rest) = (digits, rest) := by
  rcases hleading with rfl | hhead
  · rfl
  · obtain ⟨c, digits, rfl⟩ := List.exists_cons_of_ne_nil hne
    have hc : c ≠ 0x30 := fun h => hhead (congrArg some h)
    rw [List.cons_append, scanWhole, if_neg hc, ← List.cons_append,
      Text.splitDigits_append hdigits hrest]

theorem scanFraction_append (hne : digits ≠ []) (hdigits : Text.IsDigits digits) :
    scanFraction (0x2E :: digits ++ rest) = (some digits, rest) := by
  rw [List.cons_append, scanFraction, Text.splitDigits_append hdigits hrest]
  exact if_pos ⟨rfl, hne⟩

theorem scanExponent_append (negative : Bool) (hne : digits ≠ []) (hdigits : Text.IsDigits digits) :
    scanExponent (Number.exponentText (some (negative, digits)) ++ rest) =
      (some (negative, digits), rest) := by
  have hsign : splitSign ((if negative then 0x2D else 0x2B) :: (digits ++ rest)) =
      (negative, digits ++ rest) := by
    cases negative <;> rfl
  rw [Number.exponentText, List.cons_append, List.cons_append, scanExponent, hsign,
    Text.splitDigits_append hdigits hrest]
  exact if_pos ⟨.inl rfl, hne⟩

end

theorem scanFraction_none {t : Text} (h : ∀ c ∈ t.head?, c ≠ 0x2E) :
    scanFraction t = (none, t) := by
  cases t with
  | nil => rfl
  | cons c t => exact if_neg fun hc => h c rfl hc.1

theorem scanExponent_none {t : Text} (h : EndsNumber t) : scanExponent t = (none, t) := by
  cases t with
  | nil => rfl
  | cons c t =>
    obtain ⟨_, _, he, hE⟩ := h c rfl
    exact if_neg fun hc => hc.1.elim he hE

section
variable {rest : Text} (hrest : EndsNumber rest)
include hrest

theorem head?_exponentText (exponent : Option (Bool × Text)) :
    ∀ c ∈ (Number.exponentText exponent ++ rest).head?, c.isDigit = false ∧ c ≠ 0x2E := by
  intro c hc
  cases exponent with
  | none => exact ⟨(hrest c hc).1, (hrest c hc).2.1⟩
  | some e =>
    cases hc
    decide

theorem head?_fractionText (fraction : Option Text) (exponent : Option (Bool × Text)) :
    ∀ c ∈ (Number.fractionText fraction ++ (Number.exponentText exponent ++ rest)).head?,
      c.isDigit = false := by
  intro c hc
  cases fraction with
  | none => exact (head?_exponentText hrest exponent c hc).1
  | some digits =>
    cases hc
    decide

variable {n : Number} (h : n.IsWritten)
include h

theorem scanExponent_text :
    scanExponent (Number.exponentText n.exponent ++ rest) = (n.exponent, rest) := by
  cases hexponent : n.exponent with
  | none => exact scanExponent_none hrest
  | some e =>
    obtain ⟨hne, hdigits⟩ := h.exponent e hexponent
    exact scanExponent_append (fun c hc => (hrest c hc).1) e.1 hne hdigits

theorem scanFraction_text :
    scanFraction (Number.fractionText n.fraction ++ (Number.exponentText n.exponent ++ rest)) =
      (n.fraction, Number.exponentText n.exponent ++ rest) := by
  have hhead := head?_exponentText hrest n.exponent
  cases hfraction : n.fraction with
  | none => exact scanFraction_none fun c hc => (hhead c hc).2
  | some digits =>
    obtain ⟨hne, hdigits⟩ := h.fraction digits hfraction
    exact scanFraction_append (fun c hc => (hhead c hc).1) hne hdigits

theorem scanMagnitude_text :
    scanMagnitude n.negative
      (n.whole ++ (Number.fractionText n.fraction ++ (Number.exponentText n.exponent ++ rest))) =
      some (n, rest) := by
  have hwhole := scanWhole_append (head?_fractionText hrest n.fraction n.exponent) h.whole_ne_nil
    h.whole h.leading
  simp only [scanMagnitude, hwhole, if_neg h.whole_ne_nil, scanFraction_text hrest h,
    scanExponent_text hrest h]

end

section
variable {n : Number} (h : n.IsWritten)
include h

theorem Number.IsWritten.exists_digit :
    ∃ c digits, n.whole = c :: digits ∧ c.isDigit = true := by
  obtain ⟨c, digits, hwhole⟩ := List.exists_cons_of_ne_nil h.whole_ne_nil
  refine ⟨c, digits, hwhole, h.whole c ?_⟩
  rw [hwhole]
  exact List.mem_cons_self

/-- The text of a number begins with a digit, or with a minus sign and a digit. -/
theorem Number.IsWritten.text_append_eq (rest : Text) :
    ∃ c after, c.isDigit = true ∧
      n.whole ++ (fractionText n.fraction ++ (exponentText n.exponent ++ rest)) = c :: after ∧
      n.text ++ rest = if n.negative then 0x2D :: c :: after else c :: after := by
  obtain ⟨c, digits, hwhole, hc⟩ := h.exists_digit
  refine ⟨c, _, hc, by rw [hwhole]; rfl, ?_⟩
  rw [Number.text, hwhole]
  cases n.negative <;> simp

end

theorem ne_of_isDigit {c d : CodePoint} (hc : c.isDigit = true) (hd : d.isDigit = false) :
    c ≠ d := by
  rintro rfl
  rw [hc] at hd
  contradiction

theorem after?_eq_none {word : Text} {c d : CodePoint} (hword : word.head? = some c) (h : c ≠ d)
    (t : Text) : after? word (d :: t) = none := by
  cases word with
  | nil => contradiction
  | cons =>
    cases hword
    exact if_neg h

/-- No name begins as a number does. -/
theorem scanName?_eq_none {c : CodePoint} (hc : c.isDigit = true) (negative : Bool) (after : Text) :
    scanName? (if negative then 0x2D :: c :: after else c :: after) = none := by
  have hne {d : CodePoint} (hd : d.isDigit = false) : d ≠ c := (ne_of_isDigit hc hd).symm
  rw [scanName?, List.findSome?_eq_none_iff]
  intro m hm
  rw [Option.map_eq_none_iff]
  simp only [names, List.mem_cons, List.not_mem_nil, or_false] at hm
  cases negative with
  | false =>
    rcases hm with rfl | rfl | rfl | rfl | rfl | rfl <;> exact after?_eq_none rfl (hne rfl) after
  | true =>
    rcases hm with rfl | rfl | rfl | rfl | rfl | rfl
    case inr.inr.inr.inr.inr =>
      have hInfinity : after? (Text.ofString "Infinity") (c :: after) = none :=
        after?_eq_none rfl (hne rfl) after
      exact hInfinity
    all_goals exact after?_eq_none rfl (by decide) _

theorem scan_number {c : CodePoint} {t rest : Text} {n : Number}
    (hc : c.isDigit = true ∨ c = 0x2D) (hname : scanName? (c :: t) = none)
    (hnumber : scanNumber? (c :: t) = some (n, rest)) :
    scan c t = (.number n, rest) := by
  have hne {d : CodePoint} (hd : d.isDigit = false) (hminus : d ≠ 0x2D) : c ≠ d := by
    rcases hc with hc | rfl
    · exact ne_of_isDigit hc hd
    · exact hminus.symm
  have hmark : mark? c = none := by
    rw [mark?, if_neg (hne rfl (by decide)), if_neg (hne rfl (by decide)),
      if_neg (hne rfl (by decide)), if_neg (hne rfl (by decide)), if_neg (hne rfl (by decide)),
      if_neg (hne rfl (by decide))]
  rw [scan, if_neg (hne rfl (by decide)), hmark, hname, hnumber]

/-- A text that begins with a magnitude, or with a minus sign in front of one, begins with the
number that is scanned there. -/
theorem tokens_magnitude {c : CodePoint} {after rest : Text} {n : Number} {negative : Bool}
    (hc : c.isDigit = true) (hscan : scanMagnitude negative (c :: after) = some (n, rest)) :
    tokens (if negative then 0x2D :: c :: after else c :: after) =
      ⟨.number n, if negative then 0x2D :: c :: after else c :: after⟩ :: tokens rest := by
  have hname := scanName?_eq_none hc negative after
  cases negative with
  | true => exact tokens_eq rfl (scan_number (.inr rfl) hname hscan)
  | false =>
    have hminus : c ≠ 0x2D := ne_of_isDigit hc rfl
    have hspace : isSpace c = false := by
      simp only [isSpace, Bool.or_eq_false_iff, beq_eq_false_iff_ne]
      exact ⟨⟨⟨ne_of_isDigit hc rfl, ne_of_isDigit hc rfl⟩, ne_of_isDigit hc rfl⟩,
        ne_of_isDigit hc rfl⟩
    exact tokens_eq hspace (scan_number (.inl hc) hname ((if_neg hminus).trans hscan))

/-- The text of a number is scanned as the number. -/
theorem tokens_number {n : Number} (h : n.IsWritten) {rest : Text} (hrest : EndsNumber rest) :
    tokens (n.text ++ rest) = ⟨.number n, n.text ++ rest⟩ :: tokens rest := by
  obtain ⟨c, after, hc, hmagnitude, htext⟩ := h.text_append_eq rest
  have hscan := scanMagnitude_text hrest h
  rw [hmagnitude] at hscan
  rw [htext]
  exact tokens_magnitude hc hscan

/-! ### Integers -/

namespace Number

/-- The number that an integer is written as. -/
def ofInt (i : Int) : Number := ⟨decide (i < 0), Text.ofNat i.natAbs, none, none⟩

theorem text_ofInt (i : Int) : (ofInt i).text = Text.ofInt i := by
  cases i with
  | ofNat n => simp [ofInt, text, fractionText, exponentText, Text.ofInt]
  | negSucc n =>
    simp [ofInt, text, fractionText, exponentText, Text.ofInt, Int.negSucc_lt_zero]
    rfl

theorem isWritten_ofInt (i : Int) : (ofInt i).IsWritten where
  whole_ne_nil := Text.ofNat_ne_nil _
  whole := Text.isDigits_ofNat _
  leading := by
    rcases Nat.eq_zero_or_pos i.natAbs with hzero | hpos
    · left
      change Text.ofNat i.natAbs = [0x30]
      rw [hzero, Text.ofNat]
      rfl
    · exact .inr (Text.head?_ofNat hpos)
  fraction := nofun
  exponent := nofun

theorem value_ofInt {i : Int} (h : (Text.ofNat i.natAbs).length ≤ Text.maxDigits) :
    (ofInt i).value = .ok (.int i) := by
  have hint : (if decide (i < 0) then -(i.natAbs : Int) else i.natAbs) = i := by
    simp only [decide_eq_true_eq]
    split
    · omega
    · omega
  simp only [ofInt, value, if_neg (Nat.not_lt.mpr h), Text.toNat_ofNat, hint]

end Number

/-! ### Floating-point numbers -/

/-- A text without a sign that is read, behind either sign, as a decimal number rounded. -/
def IsMagnitude (t : Text) (d : Decimal) : Prop :=
  ∀ negative, ∃ n : Number, n.IsWritten ∧ n.text = (if negative then 0x2D :: t else t) ∧
    n.value = .ok (.float (Binary64.ofDecimal negative d))

theorem IsMagnitude.of_eq {t : Text} {d d' : Decimal} (h : IsMagnitude t d)
    (heq : ∀ negative, Binary64.ofDecimal negative d = Binary64.ofDecimal negative d') :
    IsMagnitude t d' := by
  intro negative
  obtain ⟨n, hn, htext, hvalue⟩ := h negative
  exact ⟨n, hn, htext, by rw [hvalue, heq]⟩

/-- Digits with a point between them. -/
theorem isMagnitude_point {whole fraction : Text} (hne : whole ≠ []) (hwhole : Text.IsDigits whole)
    (hleading : whole = [0x30] ∨ whole.head? ≠ some 0x30) (hne' : fraction ≠ [])
    (hfraction : Text.IsDigits fraction) :
    IsMagnitude (whole ++ 0x2E :: fraction)
      ⟨Text.toNat (whole ++ fraction), 0 - fraction.length⟩ := by
  intro negative
  refine ⟨⟨negative, whole, some fraction, none⟩, ⟨hne, hwhole, hleading, ?_, nofun⟩, ?_, rfl⟩
  · rintro _ ⟨⟩
    exact ⟨hne', hfraction⟩
  · cases negative <;> simp [Number.text, Number.fractionText, Number.exponentText]

/-- The exponent that is written for a place, and the number that is read for it. -/
theorem exists_exponent (place : Int) :
    ∃ negative digits, digits ≠ [] ∧ Text.IsDigits digits ∧
      0x65 :: Binary64.exponentText place = Number.exponentText (some (negative, digits)) ∧
      (match negative with
        | true => -(Text.toNat digits : Int)
        | false => Text.toNat digits) = place := by
  cases place with
  | ofNat n =>
    refine ⟨false, Text.padNat 2 n, Text.padNat_ne_nil _ _, Text.isDigits_padNat _ _, rfl, ?_⟩
    exact congrArg Int.ofNat (Text.toNat_padNat 2 n)
  | negSucc n =>
    refine ⟨true, Text.padNat 2 (n + 1), Text.padNat_ne_nil _ _, Text.isDigits_padNat _ _, rfl, ?_⟩
    exact congrArg (fun k : Nat => -(k : Int)) (Text.toNat_padNat 2 (n + 1))

/-- Digits with an exponent behind them, and a point between them or none. -/
theorem isMagnitude_exponent {whole : Text} {fraction : Option Text} (hne : whole ≠ [])
    (hwhole : Text.IsDigits whole) (hleading : whole = [0x30] ∨ whole.head? ≠ some 0x30)
    (hfraction : ∀ digits ∈ fraction, digits ≠ [] ∧ Text.IsDigits digits) (place : Int) :
    IsMagnitude (whole ++ (Number.fractionText fraction ++ 0x65 :: Binary64.exponentText place))
      ⟨Text.toNat (whole ++ fraction.getD []), place - (fraction.getD []).length⟩ := by
  intro sign
  obtain ⟨negative, digits, hne', hdigits, htext, hplace⟩ := exists_exponent place
  refine ⟨⟨sign, whole, fraction, some (negative, digits)⟩,
    ⟨hne, hwhole, hleading, hfraction, ?_⟩, ?_, ?_⟩
  · rintro _ ⟨⟩
    exact ⟨hne', hdigits⟩
  · rw [htext]
    cases sign <;> simp [Number.text]
  · subst hplace
    cases fraction <;> cases negative <;> rfl

section
variable {digits : Text} (hne : digits ≠ []) (hdigits : Text.IsDigits digits)
  (hhead : digits.head? ≠ some 0x30)
include hdigits hhead

/-- Digits on both sides of the point. -/
theorem isMagnitude_split {n : Nat} (hlt : n + 1 < digits.length) :
    IsMagnitude (digits.take (n + 1) ++ 0x2E :: digits.drop (n + 1))
      ⟨Text.toNat digits, Int.ofNat n + 1 - digits.length⟩ := by
  have htake : digits.take (n + 1) ≠ [] := by
    apply List.ne_nil_of_length_pos
    rw [List.length_take]
    omega
  have hdrop : digits.drop (n + 1) ≠ [] := by
    apply List.ne_nil_of_length_pos
    rw [List.length_drop]
    omega
  have hhead' : (digits.take (n + 1)).head? ≠ some 0x30 := by
    rwa [List.head?_take, if_neg (Nat.succ_ne_zero n)]
  have hmagnitude := isMagnitude_point htake
    (fun c hc => hdigits c (List.mem_of_mem_take hc)) (.inr hhead') hdrop
    (fun c hc => hdigits c (List.mem_of_mem_drop hc))
  have hexponent : (0 - (digits.drop (n + 1)).length : Int) =
      Int.ofNat n + 1 - digits.length := by
    rw [List.length_drop, Int.ofNat_eq_natCast]
    omega
  rwa [List.take_append_drop, hexponent] at hmagnitude

include hne

omit hhead in
/-- Digits behind the point and behind zeros. -/
theorem isMagnitude_negSucc (n : Nat) :
    IsMagnitude (0x30 :: 0x2E :: (List.replicate n 0x30 ++ digits))
      ⟨Text.toNat digits, Int.negSucc n + 1 - digits.length⟩ := by
  have hzeros := Text.isDigits_replicate_zero
  have hmagnitude := @isMagnitude_point [0x30] (List.replicate n 0x30 ++ digits)
    (List.cons_ne_nil _ _) (hzeros 1) (.inl rfl) (List.append_ne_nil_of_right_ne_nil _ hne)
    (Text.isDigits_append.mpr ⟨hzeros n, hdigits⟩)
  have hcoefficient : Text.toNat ([0x30] ++ (List.replicate n 0x30 ++ digits)) =
      Text.toNat digits :=
    (Text.toNat_zeros_append 1 _).trans (Text.toNat_zeros_append n _)
  have hexponent : (0 - (List.replicate n (0x30 : CodePoint) ++ digits).length : Int) =
      Int.negSucc n + 1 - digits.length := by
    rw [List.length_append, List.length_replicate]
    omega
  rwa [hcoefficient, hexponent] at hmagnitude

/-- Digits and zeros before the point. -/
theorem isMagnitude_whole {n : Nat} (hle : digits.length ≤ n + 1) :
    IsMagnitude (digits ++ (List.replicate (n + 1 - digits.length) 0x30 ++ ([0x2E, 0x30] : Text)))
      ⟨Text.toNat digits, Int.ofNat n + 1 - digits.length⟩ := by
  have hzeros := Text.isDigits_replicate_zero
  have hhead' : (digits ++ List.replicate (n + 1 - digits.length) 0x30).head? ≠ some 0x30 := by
    rwa [List.head?_append_of_ne_nil _ hne]
  have hmagnitude := @isMagnitude_point (digits ++ List.replicate (n + 1 - digits.length) 0x30)
    [0x30] (List.append_ne_nil_of_left_ne_nil hne _)
    (Text.isDigits_append.mpr ⟨hdigits, hzeros _⟩) (.inr hhead') (List.cons_ne_nil _ _) (hzeros 1)
  rw [List.append_assoc] at hmagnitude
  refine hmagnitude.of_eq fun negative => ?_
  -- the zero behind the point is one more zero behind the digits
  have hexponent : (0 - ([0x30] : Text).length : Int) + (n + 1 - digits.length + 1 : Nat) =
      Int.ofNat n + 1 - digits.length := by
    rw [List.length_singleton, Int.ofNat_eq_natCast]
    omega
  rw [← hexponent, ← Binary64.ofDecimal_shift, List.append_assoc, ← Text.toNat_append_zeros,
    List.replicate_succ', ← List.append_assoc]

theorem isMagnitude_positional (place : Int) :
    IsMagnitude (Binary64.positional digits place)
      ⟨Text.toNat digits, place + 1 - digits.length⟩ := by
  cases place with
  | negSucc n => exact isMagnitude_negSucc hne hdigits n
  | ofNat n =>
    rw [Binary64.positional]
    split
    · next hle => exact isMagnitude_whole hne hdigits hhead hle
    · next hlt => exact isMagnitude_split hdigits hhead (Nat.not_le.mp hlt)

theorem isMagnitude_scientific (place : Int) :
    IsMagnitude (Binary64.scientific digits place)
      ⟨Text.toNat digits, place + 1 - digits.length⟩ := by
  obtain ⟨c, rest, rfl⟩ := List.exists_cons_of_ne_nil hne
  have hc : Text.IsDigits [c] := by
    intro d hd
    rw [List.mem_singleton.mp hd]
    exact hdigits c List.mem_cons_self
  have hrest : Text.IsDigits rest := fun d hd => hdigits d (.tail _ hd)
  have hexponent : place + 1 - (c :: rest).length = place - rest.length := by
    rw [List.length_cons]
    omega
  rw [hexponent]
  cases rest with
  | nil =>
    exact @isMagnitude_exponent [c] none (List.cons_ne_nil _ _) hc (.inr hhead) nofun place
  | cons d rest =>
    refine @isMagnitude_exponent [c] (some (d :: rest)) (List.cons_ne_nil _ _) hc (.inr hhead) ?_
      place
    rintro _ ⟨⟩
    exact ⟨List.cons_ne_nil _ _, hrest⟩

end

/-- The digits of a number without the zeros at their end, and how many those are. -/
theorem exists_zeros (digits : Text) :
    ∃ zeros, digits = (digits.reverse.dropWhile (· == 0x30)).reverse ++
      List.replicate zeros 0x30 := by
  refine ⟨(digits.reverse.takeWhile (· == 0x30)).length, ?_⟩
  have hzeros : digits.reverse.takeWhile (· == 0x30) =
      List.replicate (digits.reverse.takeWhile (· == 0x30)).length 0x30 := by
    rw [List.eq_replicate_iff]
    exact ⟨rfl, fun c hc => beq_iff_eq.mp (List.all_eq_true.mp List.all_takeWhile c hc)⟩
  rw [← List.reverse_replicate, ← hzeros, ← List.reverse_append, List.takeWhile_append_dropWhile,
    List.reverse_reverse]

/-- The text of a decimal number is read as the number. -/
theorem isMagnitude_decimalText {d : Decimal} (h : 0 < d.coefficient) :
    IsMagnitude (Binary64.decimalText d) d := by
  simp only [Binary64.decimalText]
  obtain ⟨zeros, hzeros⟩ := exists_zeros (Text.ofNat d.coefficient)
  have htoNat := Text.toNat_ofNat d.coefficient
  have hdigits := Text.isDigits_ofNat d.coefficient
  have hhead := Text.head?_ofNat h
  generalize ((Text.ofNat d.coefficient).reverse.dropWhile (· == 0x30)).reverse = significant
    at hzeros ⊢
  rw [hzeros] at htoNat hdigits hhead ⊢
  rw [Text.toNat_append_zeros] at htoNat
  have hne : significant ≠ [] := by
    rintro rfl
    rw [← htoNat] at h
    exact absurd h (by simp [Text.toNat])
  rw [List.head?_append_of_ne_nil _ hne] at hhead
  have hdigits' := (Text.isDigits_append.mp hdigits).1
  have heq (negative : Bool) : Binary64.ofDecimal negative
      ⟨Text.toNat significant, d.exponent + (significant ++ List.replicate zeros 0x30).length - 1 +
        1 - significant.length⟩ = Binary64.ofDecimal negative d := by
    have hshift := Binary64.ofDecimal_shift negative (Text.toNat significant) zeros d.exponent
    rw [htoNat] at hshift
    rw [hshift, List.length_append, List.length_replicate]
    congr 2
    omega
  split
  · exact (isMagnitude_positional hne hdigits' hhead _).of_eq heq
  · exact (isMagnitude_scientific hne hdigits' hhead _).of_eq heq

theorem isMagnitude_zero : IsMagnitude (Text.ofString "0.0") ⟨0, -1⟩ :=
  @isMagnitude_point [0x30] [0x30] (List.cons_ne_nil _ _) (Text.isDigits_replicate_zero 1)
    (.inl rfl) (List.cons_ne_nil _ _) (Text.isDigits_replicate_zero 1)

/-- The text of a finite number is that of a number that is read as it. -/
theorem exists_number_toText (negative : Bool) (rank : Fin (2047 * Nat.pow 2 52)) :
    ∃ n : Number, n.IsWritten ∧ n.text = (Binary64.finite negative rank).toText ∧
      n.value = .ok (.float (.finite negative rank)) := by
  rw [Binary64.toText]
  by_cases hzero : rank.val = 0
  · obtain ⟨n, hn, htext, hvalue⟩ := isMagnitude_zero negative
    refine ⟨n, hn, ?_, by rw [hvalue, Binary64.ofDecimal_zero _ _ hzero]⟩
    rw [if_pos hzero]
    exact htext
  · have hpos := Binary64.shortest_coefficient_pos hzero
    obtain ⟨n, hn, htext, hvalue⟩ := isMagnitude_decimalText hpos negative
    refine ⟨n, hn, ?_, by rw [hvalue, Binary64.ofDecimal_shortest]⟩
    rw [if_neg hzero]
    exact htext

end JsonSurvey.Json
