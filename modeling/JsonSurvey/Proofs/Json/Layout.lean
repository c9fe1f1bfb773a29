import JsonSurvey.Proofs.Json.Number
import JsonSurvey.Proofs.Value

/-! Texts that are read as values. A text is read as a value if the reader goes over it from any
place where a value may come, and has the value, with the same containers open as before (`Reads`).
A text of a container is read as the container once the texts of its parts are, however many spaces
stand between its lexemes; so a writer is free in its layout, and what it writes is decoded to the
value it wrote (`decode_of_reads`). -/

namespace JsonSurvey.Json

variable {limit level : Nat} {stack stack' : List Frame} {expecting expecting' : Expecting}
  {token : Token} {t ts gap gap' key : Text} {v : Value} {vs : List Value}
  {ms : List (Text × Value)}

/-! ### Steps of the reader -/

theorem run_of_take (h : take limit stack expecting token = .ok (stack', expecting'))
    (rest : List Token) :
    run limit stack expecting (token :: rest) = run limit stack' expecting' rest := by
  rw [run, h]

theorem take_beginArray (h : stack.length < limit) (text : Text) :
    take limit stack .value ⟨.beginArray, text⟩ = .ok (stack, .element) := if_pos h

theorem take_beginObject (h : stack.length < limit) (text : Text) :
    take limit stack .value ⟨.beginObject, text⟩ = .ok (stack, .key [] true) := if_pos h

/-- Where the first element of an array may come, a token that does not end the array is taken as
the beginning of the element. -/
theorem run_element (h : token.lexeme ≠ .endArray) (rest : List Token) :
    run limit stack .element (token :: rest) =
      run limit (.array [] :: stack) .value (token :: rest) := by
  have htake : take limit stack .element token = take limit (.array [] :: stack) .value token := by
    obtain ⟨lexeme, text⟩ := token
    cases lexeme with
    | endArray => contradiction
    | _ => rfl
  rw [run, run, htake]

/-! ### Spaces -/

/-- A text of spaces only. -/
def IsSpaces (t : Text) : Prop := ∀ c ∈ t, isSpace c = true

theorem tokens_congr {s t : Text} (h : s.dropWhile isSpace = t.dropWhile isSpace) :
    tokens s = tokens t := by
  cases ht : t.dropWhile isSpace with
  | nil => rw [tokens, tokens, tokensOnto_nil (h.trans ht), tokensOnto_nil ht]
  | cons c rest => rw [tokens_cons (h.trans ht), tokens_cons ht]

theorem tokens_spaces (h : IsSpaces gap) (t : Text) : tokens (gap ++ t) = tokens t :=
  tokens_congr (List.dropWhile_append_of_pos h)

theorem endsNumber_nil : EndsNumber [] := nofun

theorem endsNumber_cons {c : CodePoint} (hdigit : c.isDigit = false)
    (hpoint : c ≠ 0x2E) (he : c ≠ 0x65) (hE : c ≠ 0x45) (t : Text) : EndsNumber (c :: t) := by
  rintro _ ⟨⟩
  exact ⟨hdigit, hpoint, he, hE⟩

theorem endsNumber_mark {c : CodePoint} {mark : Lexeme} (h : mark? c = some mark) (t : Text) :
    EndsNumber (c :: t) := by
  rintro _ ⟨⟩
  unfold mark? at h
  repeat
    split at h
    · next hc =>
      rw [hc]
      decide
  contradiction

/-- A space ends a number as well as what comes behind it. -/
theorem EndsNumber.spaces (h : IsSpaces gap) (ht : EndsNumber t) : EndsNumber (gap ++ t) := by
  cases gap with
  | nil => exact ht
  | cons c gap =>
    have hc : isSpace c = true := h c List.mem_cons_self
    simp only [isSpace, Bool.or_eq_true, beq_iff_eq] at hc
    rcases hc with ((rfl | rfl) | rfl) | rfl <;>
      exact endsNumber_cons rfl (by decide) (by decide) (by decide) _

/-! ### Values -/

/-- Inside `level` open containers the text is read as the value. What it begins with is not the
end of an array, so that the value may be the first element of one. -/
def Reads (limit level : Nat) (t : Text) (v : Value) : Prop :=
  ∀ rest, EndsNumber rest → ∃ token after, tokens (t ++ rest) = token :: after ∧
    token.lexeme ≠ .endArray ∧ ∀ stack : List Frame, stack.length = level →
      run limit stack .value (token :: after) = run limit stack (.complete v) (tokens rest)

theorem Reads.run_value (h : Reads limit level t v) {rest : Text} (hrest : EndsNumber rest)
    (hlevel : stack.length = level) :
    run limit stack .value (tokens (t ++ rest)) = run limit stack (.complete v) (tokens rest) := by
  obtain ⟨token, after, htokens, _, hrun⟩ := h rest hrest
  rw [htokens, hrun stack hlevel]

theorem Reads.run_element (h : Reads limit (level + 1) t v) {rest : Text} (hrest : EndsNumber rest)
    (hlevel : stack.length = level) :
    run limit stack .element (tokens (t ++ rest)) =
      run limit (.array [] :: stack) (.complete v) (tokens rest) := by
  obtain ⟨token, after, htokens, hlexeme, hrun⟩ := h rest hrest
  rw [htokens, Json.run_element hlexeme, hrun _ (congrArg (· + 1) hlevel)]

/-- A text with one lexeme that is taken as a value is read as the value. -/
theorem Reads.of_take {lexeme : Lexeme}
    (htokens : ∀ rest, EndsNumber rest → tokens (t ++ rest) = ⟨lexeme, t ++ rest⟩ :: tokens rest)
    (hlexeme : lexeme ≠ .endArray)
    (htake : ∀ stack text, take limit stack .value ⟨lexeme, text⟩ = .ok (stack, .complete v)) :
    Reads limit level t v := fun rest hrest =>
  ⟨_, _, htokens rest hrest, hlexeme, fun stack _ => run_of_take (htake stack _) _⟩

theorem reads_name {m : Text × Value} (hm : m ∈ names) : Reads limit level m.1 m.2 :=
  .of_take (fun rest _ => tokens_name hm rest) nofun fun _ _ => rfl

theorem reads_string (t : Text) : Reads limit level (quote t) (.string t) :=
  .of_take (fun rest _ => tokens_quote t rest) nofun fun _ _ => rfl

theorem reads_number {n : Number} (h : n.IsWritten) (hvalue : n.value = .ok v) :
    Reads limit level n.text v := by
  refine .of_take (fun rest hrest => tokens_number h hrest) nofun fun stack text => ?_
  change (do return (stack, .complete (← n.value)) : Step) = _
  rw [hvalue]
  rfl

theorem reads_null : Reads limit level (Text.ofString "null") .null :=
  @reads_name _ _ ("null", .null) (by simp [names])

theorem reads_true : Reads limit level (Text.ofString "true") (.bool true) :=
  @reads_name _ _ ("true", .bool true) (by simp [names])

theorem reads_false : Reads limit level (Text.ofString "false") (.bool false) :=
  @reads_name _ _ ("false", .bool false) (by simp [names])

theorem reads_int {i : Int} (h : (Text.ofNat i.natAbs).length ≤ Text.maxDigits) :
    Reads limit level (Text.ofInt i) (.int i) := by
  rw [← Number.text_ofInt]
  exact reads_number (Number.isWritten_ofInt i) (Number.value_ofInt h)

theorem reads_float (x : Binary64) : Reads limit level x.toText (.float x) := by
  cases x with
  | nan => exact @reads_name _ _ ("NaN", .float .nan) (by simp [names])
  | infinite negative =>
    cases negative with
    | false => exact @reads_name _ _ ("Infinity", .float (.infinite false)) (by simp [names])
    | true => exact @reads_name _ _ ("-Infinity", .float (.infinite true)) (by simp [names])
  | finite negative rank =>
    obtain ⟨n, hn, htext, hvalue⟩ := exists_number_toText negative rank
    rw [← htext]
    exact reads_number hn hvalue

/-! ### Arrays -/

/-- Inside `level` open containers, the innermost of them an array with an element, the text is read
as the further elements and the end of the array. -/
structure ReadsElements (limit level : Nat) (t : Text) (vs : List Value) : Prop where
  endsNumber : ∀ rest, EndsNumber (t ++ rest)
  run_eq : ∀ (stack : List Frame) (done : List Value) (v : Value) (rest : Text),
    stack.length + 1 = level →
      run limit (.array done :: stack) (.complete v) (tokens (t ++ rest)) =
        run limit stack (.complete (.list (done.reverse ++ v :: vs))) (tokens rest)

theorem readsElements_nil (hgap : IsSpaces gap) : ReadsElements limit level (gap ++ [0x5D]) [] where
  endsNumber rest := by
    rw [List.append_assoc]
    exact .spaces hgap (endsNumber_mark rfl _)
  run_eq stack done v rest _ := by
    rw [List.append_assoc, tokens_spaces hgap, List.singleton_append, tokens_mark rfl,
      run_of_take rfl, List.reverse_cons]

theorem readsElements_cons (hgap : IsSpaces gap) (hv : Reads limit level t v)
    (hvs : ReadsElements limit level ts vs) :
    ReadsElements limit level (0x2C :: (gap ++ (t ++ ts))) (v :: vs) where
  endsNumber rest := endsNumber_mark rfl _
  run_eq stack done w rest hlevel := by
    have hinner : (Frame.array (w :: done) :: stack).length = level := hlevel
    rw [List.cons_append, tokens_mark rfl, run_of_take rfl, List.append_assoc, tokens_spaces hgap,
      List.append_assoc, hv.run_value (hvs.endsNumber rest) hinner, hvs.run_eq _ _ _ _ hlevel,
      List.reverse_cons, List.append_assoc]
    rfl

theorem reads_emptyArray (hdepth : level < limit) :
    Reads limit level (Text.ofString "[]") (.list []) := by
  intro rest _
  refine ⟨_, _, tokens_mark rfl _, nofun, ?_⟩
  rintro stack rfl
  rw [run_of_take (take_beginArray hdepth _)]
  change run limit stack .element (tokens (0x5D :: rest)) = _
  rw [tokens_mark rfl, run_of_take rfl]

theorem reads_array (hdepth : level < limit) (hgap : IsSpaces gap)
    (hv : Reads limit (level + 1) t v) (hvs : ReadsElements limit (level + 1) ts vs) :
    Reads limit level (0x5B :: (gap ++ (t ++ ts))) (.list (v :: vs)) := by
  intro rest _
  rw [List.cons_append]
  refine ⟨_, _, tokens_mark rfl _, nofun, ?_⟩
  rintro stack rfl
  rw [run_of_take (take_beginArray hdepth _), List.append_assoc, tokens_spaces hgap,
    List.append_assoc, hv.run_element (hvs.endsNumber rest) rfl, hvs.run_eq _ _ _ _ rfl]
  rfl

/-! ### Objects -/

/-- Inside `level` open containers, the innermost of them an object with a member, the text is read
as the further members and the end of the object. -/
structure ReadsMembers (limit level : Nat) (t : Text) (ms : List (Text × Value)) : Prop where
  endsNumber : ∀ rest, EndsNumber (t ++ rest)
  run_eq : ∀ (stack : List Frame) (done : List (Text × Value)) (key : Text) (v : Value)
    (rest : Text), stack.length + 1 = level → ((done ++ (key, v) :: ms).map (·.1)).Nodup →
      run limit (.object done key :: stack) (.complete v) (tokens (t ++ rest)) =
        run limit stack (.complete (.object (done ++ (key, v) :: ms))) (tokens rest)

theorem readsMembers_nil (hgap : IsSpaces gap) : ReadsMembers limit level (gap ++ [0x7D]) [] where
  endsNumber rest := by
    rw [List.append_assoc]
    exact .spaces hgap (endsNumber_mark rfl _)
  run_eq stack done key v rest _ hkeys := by
    rw [List.append_assoc, tokens_spaces hgap, List.singleton_append, tokens_mark rfl,
      run_of_take rfl, Value.put_of_nodup hkeys]

/-- A key, the colon and the value of a member are read onto the frame of their object. -/
theorem run_member (hgap : IsSpaces gap') (hv : Reads limit (level + 1) t v)
    {done : List (Text × Value)} {mayEnd : Bool} {rest : Text} (hrest : EndsNumber rest)
    (hlevel : stack.length = level) :
    run limit stack (.key done mayEnd) (tokens (quote key ++ 0x3A :: (gap' ++ (t ++ rest)))) =
      run limit (.object done key :: stack) (.complete v) (tokens rest) := by
  rw [tokens_quote, run_of_take rfl, tokens_mark rfl, run_of_take rfl, tokens_spaces hgap,
    hv.run_value hrest (congrArg (· + 1) hlevel)]

theorem readsMembers_cons (hgap : IsSpaces gap) (hgap' : IsSpaces gap')
    (hv : Reads limit level t v) (hms : ReadsMembers limit level ts ms) :
    ReadsMembers limit level (0x2C :: (gap ++ (quote key ++ 0x3A :: (gap' ++ (t ++ ts)))))
      ((key, v) :: ms) where
  endsNumber rest := endsNumber_mark rfl _
  run_eq stack done key' w rest hlevel hkeys := by
    subst hlevel
    have hsplit : done ++ (key', w) :: (key, v) :: ms =
        done ++ [(key', w)] ++ (key, v) :: ms := by simp
    rw [List.cons_append, tokens_mark rfl, run_of_take rfl, Value.put_of_nodup hkeys]
    simp only [List.append_assoc, List.cons_append]
    rw [tokens_spaces hgap, run_member hgap' hv (hms.endsNumber rest) rfl,
      hms.run_eq _ _ _ _ _ rfl (hsplit ▸ hkeys), hsplit]

theorem reads_emptyObject (hdepth : level < limit) :
    Reads limit level (Text.ofString "\x7b\x7d") (.object []) := by
  intro rest _
  refine ⟨_, _, tokens_mark rfl _, nofun, ?_⟩
  rintro stack rfl
  rw [run_of_take (take_beginObject hdepth _)]
  change run limit stack (.key [] true) (tokens (0x7D :: rest)) = _
  rw [tokens_mark rfl, run_of_take rfl]

theorem reads_object (hdepth : level < limit) (hgap : IsSpaces gap) (hgap' : IsSpaces gap')
    (hkeys : (((key, v) :: ms).map (·.1)).Nodup) (hv : Reads limit (level + 1) t v)
    (hms : ReadsMembers limit (level + 1) ts ms) :
    Reads limit level (0x7B :: (gap ++ (quote key ++ 0x3A :: (gap' ++ (t ++ ts)))))
      (.object ((key, v) :: ms)) := by
  intro rest _
  rw [List.cons_append]
  refine ⟨_, _, tokens_mark rfl _, nofun, ?_⟩
  rintro stack rfl
  rw [run_of_take (take_beginObject hdepth _)]
  simp only [List.append_assoc, List.cons_append]
  rw [tokens_spaces hgap, run_member hgap' hv (hms.endsNumber rest) rfl]
  exact hms.run_eq stack [] key v rest rfl hkeys

/-! ### Decoding -/

/-- A text that is read as a value is decoded to it. -/
theorem decode_of_reads (h : Reads limit 0 t v) : decodeWithin limit t = .ok v := by
  have hrun : run limit [] .value (tokens t) = .ok v := by
    have hvalue := @Reads.run_value limit 0 [] t v h [] endsNumber_nil rfl
    rw [List.append_nil, tokens_nil] at hvalue
    exact hvalue
  -- no lexeme begins with a byte order mark
  have hmark : hasMark t = false := by
    rw [Bool.eq_false_iff]
    intro hmark
    obtain ⟨rest, rfl⟩ : ∃ rest, t = 0xFEFF :: rest := by
      cases t with
      | nil => contradiction
      | cons c rest => exact ⟨rest, by rw [Option.some.inj (beq_iff_eq.mp hmark)]⟩
    have hscan : scan 0xFEFF rest = (.unknown, []) := rfl
    rw [tokens_eq rfl hscan] at hrun
    contradiction
  rw [decodeWithin, hmark, if_neg Bool.false_ne_true, hrun]
  rfl

end JsonSurvey.Json
