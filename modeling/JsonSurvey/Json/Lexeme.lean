import JsonSurvey.Fault
import JsonSurvey.Value
import JsonSurvey.Binary64.Decimal

/-! The lexemes of JSON texts: the six marks, the names of values, numbers and strings. `tokens`
cuts a text into lexemes; where none begins it ends with a fault, which the reader judges by what it
expects there. Each token keeps the text from its start on, so that a place can be told later. -/

namespace JsonSurvey.Json

/-- The white space between lexemes. -/
def isSpace (c : CodePoint) : Bool := c == 0x20 || c == 0x0A || c == 0x0D || c == 0x09

/-- A written number: its sign, the digits before and after the point, and the exponent with its
sign. -/
structure Number where
  negative : Bool
  whole : Text
  fraction : Option Text
  exponent : Option (Bool × Text)
deriving DecidableEq

/-- A lexeme, or the fault found where one was to begin. The fault of a string comes with the text
from its place on. -/
inductive Lexeme
  | beginArray
  | endArray
  | beginObject
  | endObject
  | colon
  | comma
  | name (v : Value)
  | number (n : Number)
  | string (t : Text)
  | unknown
  | badString (issue : Issue) (place : Text)

/-- A lexeme with the text that begins with it. -/
structure Token where
  lexeme : Lexeme
  text : Text

/-! ### Strings -/

/-- A part of a string: a code point that stands for itself, or the number of an escape `\u`. -/
inductive Piece
  | plain (c : CodePoint)
  | unit (c : CodePoint)
deriving DecidableEq

/-- The code point that a short escape stands for. -/
def shortEscape? (c : CodePoint) : Option CodePoint :=
  if c = 0x22 ∨ c = 0x5C ∨ c = 0x2F then some c
  else if c = 0x62 then some 0x08
  else if c = 0x66 then some 0x0C
  else if c = 0x6E then some 0x0A
  else if c = 0x72 then some 0x0D
  else if c = 0x74 then some 0x09
  else none

/-- The number of four hexadecimal digits. -/
def fourDigits? (a b c d : CodePoint) : Option CodePoint :=
  match a.hexValue?, b.hexValue?, c.hexValue?, d.hexValue? with
  | some a, some b, some c, some d => some (Fin.ofNat _ (((a * 16 + b) * 16 + c) * 16 + d))
  | _, _, _, _ => none

/-- The code point of a high and a low surrogate. -/
def joinSurrogates (high low : CodePoint) : CodePoint :=
  Fin.ofNat _ (0x10000 + (high.val - 0xD800) * 0x400 + (low.val - 0xDC00))

/-- The text of pieces in reverse order, put in front of `done`. Escapes for the two halves of a
pair, one right after the other, stand for one code point. -/
def joinPieces (done : Text) : List Piece → Text
  | [] => done
  | .plain c :: rest => joinPieces (c :: done) rest
  | .unit low :: .unit high :: rest =>
    if high.isHighSurrogate && low.isLowSurrogate then
      joinPieces (joinSurrogates high low :: done) rest
    else joinPieces (low :: done) (.unit high :: rest)
  | .unit c :: rest => joinPieces (c :: done) rest
termination_by pieces => pieces.length

/-- Reads the rest of a string behind the reversed pieces `done`: its text and what comes after the
closing quote. `start` is the text from the opening quote on. -/
def scanString (start : Text) (done : List Piece) : Text → Lexeme × Text
  | [] => (.badString .unterminatedString start, [])
  | c :: rest =>
    if c = 0x22 then (.string (joinPieces [] done), rest)
    else if c = 0x5C then
      match rest with
      | [] => (.badString .unterminatedString start, [])
      | e :: rest =>
        if e = 0x75 then
          match rest with
          | h₁ :: h₂ :: h₃ :: h₄ :: next :: rest =>
            match fourDigits? h₁ h₂ h₃ h₄ with
            | some u => scanString start (.unit u :: done) (next :: rest)
            | none => (.badString .unicodeEscape (e :: h₁ :: h₂ :: h₃ :: h₄ :: next :: rest), [])
          | _ => (.badString .unicodeEscape (e :: rest), [])
        else match shortEscape? e with
          | some u => scanString start (.plain u :: done) rest
          | none => (.badString .escape (c :: e :: rest), [])
    else if c.val < 0x20 then (.badString .controlCharacter (c :: rest), [])
    else scanString start (.plain c :: done) rest
termination_by t => t.length

/-! ### Numbers -/

/-- The fraction that a text begins with: a point and at least one digit. -/
def scanFraction (t : Text) : Option Text × Text :=
  match t with
  | c :: rest =>
    if c = 0x2E ∧ (Text.splitDigits rest).1 ≠ [] then
      (some (Text.splitDigits rest).1, (Text.splitDigits rest).2)
    else (none, t)
  | [] => (none, t)

/-- A sign that may be left out, and what comes after it. -/
def splitSign (t : Text) : Bool × Text :=
  match t with
  | c :: rest => if c = 0x2D then (true, rest) else if c = 0x2B then (false, rest) else (false, t)
  | [] => (false, t)

/-- The exponent that a text begins with: the letter, a sign or none, and at least one digit. -/
def scanExponent (t : Text) : Option (Bool × Text) × Text :=
  match t with
  | c :: rest =>
    if (c = 0x65 ∨ c = 0x45) ∧ (Text.splitDigits (splitSign rest).2).1 ≠ [] then
      (some ((splitSign rest).1, (Text.splitDigits (splitSign rest).2).1),
        (Text.splitDigits (splitSign rest).2).2)
    else (none, t)
  | [] => (none, t)

/-- The digits before the point: a zero, or digits that do not begin with one. -/
def scanWhole (t : Text) : Text × Text :=
  match t with
  | c :: rest => if c = 0x30 then ([c], rest) else Text.splitDigits t
  | [] => ([], [])

/-- The longest number that a text begins with, after the sign. -/
def scanMagnitude (negative : Bool) (t : Text) : Option (Number × Text) :=
  let (whole, rest) := scanWhole t
  if whole = [] then none
  else
    let (fraction, rest) := scanFraction rest
    let (exponent, rest) := scanExponent rest
    some (⟨negative, whole, fraction, exponent⟩, rest)

/-- The longest number that a text begins with. -/
def scanNumber? (t : Text) : Option (Number × Text) :=
  match t with
  | c :: rest => if c = 0x2D then scanMagnitude true rest else scanMagnitude false t
  | [] => none

/-! ### All lexemes -/

/-- The names of values, and the values. -/
def names : List (Text × Value) :=
  [("null", .null), ("true", .bool true), ("false", .bool false), ("NaN", .float .nan),
    ("Infinity", .float (.infinite false)), ("-Infinity", .float (.infinite true))]

/-- What comes after `word` in a text that begins with it. -/
def after? (word t : Text) : Option Text :=
  match word, t with
  | [], t => some t
  | _ :: _, [] => none
  | c :: word, d :: t => if c = d then after? word t else none

/-- The value whose name a text begins with. -/
def scanName? (t : Text) : Option (Value × Text) :=
  names.findSome? fun (word, v) => (after? word t).map (v, ·)

/-- The mark that a code point is. -/
def mark? (c : CodePoint) : Option Lexeme :=
  if c = 0x5B then some .beginArray
  else if c = 0x5D then some .endArray
  else if c = 0x7B then some .beginObject
  else if c = 0x7D then some .endObject
  else if c = 0x3A then some .colon
  else if c = 0x2C then some .comma
  else none

/-- The lexeme that the text `c :: rest` begins with, and what comes after it. Nothing comes after
a fault. -/
def scan (c : CodePoint) (rest : Text) : Lexeme × Text :=
  if c = 0x22 then scanString (c :: rest) [] rest
  else match mark? c with
    | some mark => (mark, rest)
    | none =>
      match scanName? (c :: rest) with
      | some (v, rest) => (.name v, rest)
      | none =>
        match scanNumber? (c :: rest) with
        | some (n, rest) => (.number n, rest)
        | none => (.unknown, [])

/-! ### Each lexeme takes part of the text -/

theorem scanString_length_le (start : Text) (done : List Piece) (t : Text) :
    (scanString start done t).2.length ≤ t.length := by
  fun_induction scanString start done t <;> simp_all <;> omega

theorem splitSign_length_le (t : Text) : (splitSign t).2.length ≤ t.length := by
  unfold splitSign
  repeat' split
  all_goals simp

theorem scanFraction_length_le (t : Text) : (scanFraction t).2.length ≤ t.length := by
  unfold scanFraction
  repeat' split
  case isTrue c rest _ =>
    have := Text.splitDigits_length rest
    simp only [List.length_cons]
    omega
  all_goals exact Nat.le_refl _

theorem scanExponent_length_le (t : Text) : (scanExponent t).2.length ≤ t.length := by
  unfold scanExponent
  repeat' split
  case isTrue c rest _ =>
    have := Text.splitDigits_length (splitSign rest).2
    have := splitSign_length_le rest
    simp only [List.length_cons]
    omega
  all_goals exact Nat.le_refl _

theorem scanWhole_length (t : Text) :
    (scanWhole t).1.length + (scanWhole t).2.length = t.length := by
  unfold scanWhole
  repeat' split
  · simp [Nat.add_comm]
  · exact Text.splitDigits_length _
  · rfl

theorem scanMagnitude_length_lt {negative : Bool} {t rest : Text} {n : Number}
    (h : scanMagnitude negative t = some (n, rest)) : rest.length < t.length := by
  have hwhole := scanWhole_length t
  have hfraction := scanFraction_length_le (scanWhole t).2
  have hexponent := scanExponent_length_le (scanFraction (scanWhole t).2).2
  simp only [scanMagnitude] at h
  split at h
  · contradiction
  · next hne =>
    cases h
    have := List.length_pos_iff.mpr hne
    omega

theorem scanNumber?_length_lt {t rest : Text} {n : Number}
    (h : scanNumber? t = some (n, rest)) : rest.length < t.length := by
  unfold scanNumber? at h
  split at h
  · split at h
    · have := scanMagnitude_length_lt h
      simp only [List.length_cons]
      omega
    · exact scanMagnitude_length_lt h
  · contradiction

theorem eq_append_of_after? {word t rest : Text} (h : after? word t = some rest) :
    t = word ++ rest := by
  induction word generalizing t with
  | nil => simpa [after?] using h
  | cons c word ih =>
    cases t with
    | nil => simp [after?] at h
    | cons d t =>
      simp only [after?] at h
      split at h
      · next hcd => rw [hcd, ih h, List.cons_append]
      · contradiction

theorem scanName?_length_lt {t rest : Text} {v : Value}
    (h : scanName? t = some (v, rest)) : rest.length < t.length := by
  obtain ⟨⟨word, w⟩, hmem, hword⟩ := List.exists_of_findSome?_eq_some h
  obtain ⟨_, hafter, heq⟩ := Option.map_eq_some_iff.mp hword
  cases heq
  have hpos : 0 < word.length := by
    simp only [names, List.mem_cons, Prod.mk.injEq, List.not_mem_nil, or_false] at hmem
    rcases hmem with h | h | h | h | h | h <;> simp only [h.1] <;> decide
  rw [eq_append_of_after? hafter, List.length_append]
  omega

theorem scan_length_le (c : CodePoint) (rest : Text) : (scan c rest).2.length ≤ rest.length := by
  unfold scan
  repeat' split
  · exact scanString_length_le _ _ _
  · exact Nat.le_refl _
  · next h =>
    have := scanName?_length_lt h
    simp only [List.length_cons] at this ⊢
    omega
  · next h =>
    have := scanNumber?_length_lt h
    simp only [List.length_cons] at this ⊢
    omega
  · exact Nat.zero_le _

/-- The tokens of a text, behind the reversed tokens `done`. -/
def tokensOnto (done : List Token) (t : Text) : List Token :=
  match _h : t.dropWhile isSpace with
  | [] => done.reverse
  | c :: rest =>
    match _hscan : scan c rest with
    | (lexeme, after) => tokensOnto (⟨lexeme, c :: rest⟩ :: done) after
termination_by t.length
decreasing_by
  have hdrop := (List.dropWhile_suffix (p := isSpace) (l := t)).length_le
  have hscan := scan_length_le c rest
  rw [_h, List.length_cons] at hdrop
  rw [_hscan] at hscan
  dsimp only at hscan
  omega

/-- The tokens of a text. At the first place where no lexeme begins there is a fault, and it is the
last token. -/
def tokens (t : Text) : List Token := tokensOnto [] t

end JsonSurvey.Json
