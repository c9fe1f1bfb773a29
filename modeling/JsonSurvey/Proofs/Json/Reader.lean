import JsonSurvey.Proofs.Json.Compact

/-! What the reader keeps. A property that passes from values to the containers made of them
(`IsKept`) is kept of all values that the reader holds, the parts of the containers that are still
open and what it has read last, provided that the lexemes give such values (`decode_keeps`).

So what is read is a value that can be written and read back (`decode_isReadable`). The keys of an
object stay distinct because a member under a known key takes the place of the member that was
there, and an integer has no more digits than the text that it was read from. -/

namespace JsonSurvey.Json

/-! ### Lexemes -/

/-- A lexeme that names a value names a readable one, and a number has digits in front. -/
def Lexeme.IsReadable : Lexeme → Prop
  | .name v => Json.IsReadable v
  | .number n => n.whole ≠ [] ∧ Text.IsDigits n.whole
  | _ => True

theorem scanString_isReadable (start : Text) (done : List Piece) (t : Text) :
    (scanString start done t).1.IsReadable := by
  fun_induction scanString start done t <;> trivial

theorem mark?_isReadable {c : CodePoint} {mark : Lexeme} (h : mark? c = some mark) :
    mark.IsReadable := by
  unfold mark? at h
  repeat' split at h
  all_goals cases h
  all_goals trivial

theorem names_isReadable : ∀ m ∈ names, IsReadable m.2 := by
  simp only [names, List.forall_mem_cons]
  exact ⟨.null, .bool _, .bool _, .float _, .float _, .float _, List.forall_mem_nil _⟩

theorem isDigits_scanWhole (t : Text) : Text.IsDigits (scanWhole t).1 := by
  unfold scanWhole
  split
  · split
    · next hc =>
      subst hc
      exact Text.isDigits_singleton_digit 0
    · exact Text.isDigits_splitDigits _
  · exact List.forall_mem_nil _

theorem scanMagnitude_isReadable {negative : Bool} {t rest : Text} {n : Number}
    (h : scanMagnitude negative t = some (n, rest)) : (Lexeme.number n).IsReadable := by
  simp only [scanMagnitude] at h
  split at h
  · contradiction
  · next hne =>
    cases h
    exact ⟨hne, isDigits_scanWhole t⟩

theorem scanNumber?_isReadable {t rest : Text} {n : Number}
    (h : scanNumber? t = some (n, rest)) : (Lexeme.number n).IsReadable := by
  unfold scanNumber? at h
  split at h
  · split at h
    · exact scanMagnitude_isReadable h
    · exact scanMagnitude_isReadable h
  · contradiction

theorem scan_isReadable (c : CodePoint) (rest : Text) : (scan c rest).1.IsReadable := by
  unfold scan
  split
  · exact scanString_isReadable _ _ _
  split
  · next hmark => exact mark?_isReadable hmark
  split
  · next hname =>
    obtain ⟨m, hm, hafter⟩ := List.exists_of_findSome?_eq_some hname
    obtain ⟨_, _, ⟨⟩⟩ := Option.map_eq_some_iff.mp hafter
    exact names_isReadable m hm
  split
  · next hnumber => exact scanNumber?_isReadable hnumber
  · trivial

theorem tokensOnto_isReadable {done : List Token} (hdone : ∀ token ∈ done, token.lexeme.IsReadable)
    (t : Text) : ∀ token ∈ tokensOnto done t, token.lexeme.IsReadable := by
  fun_induction tokensOnto done t with
  | case1 done t hdrop =>
    intro token htoken
    exact hdone token (List.mem_reverse.mp htoken)
  | case2 done t c rest hdrop lexeme after hscan ih =>
    have hlexeme := scan_isReadable c rest
    rw [hscan] at hlexeme
    exact ih (List.forall_mem_cons.mpr ⟨hlexeme, hdone⟩)

/-! ### Steps of the reader -/

/-- A property of values that strings have, and containers of values that have it. -/
structure IsKept (holds : Value → Prop) : Prop where
  string (t : Text) : holds (.string t)
  list {es : List Value} : (∀ e ∈ es, holds e) → holds (.list es)
  empty : holds (.object [])
  put {members : List (Text × Value)} {v : Value} : holds (.object members) → ∀ key, holds v →
    holds (.object (Value.put members key v))

/-- The value that a lexeme stands for, if it does, has a property. -/
def Lexeme.Gives (holds : Value → Prop) : Lexeme → Prop
  | .name v => holds v
  | .number n => ∀ v, n.value = .ok v → holds v
  | _ => True

/-- The parts of an open container have a property. -/
def Frame.Keeps (holds : Value → Prop) : Frame → Prop
  | .array elements => ∀ e ∈ elements, holds e
  | .object members _ => holds (.object members)

/-- What the reader has when it expects something is made of values with a property. -/
def Expecting.Keeps (holds : Value → Prop) : Expecting → Prop
  | .value | .element => True
  | .key members _ | .colon members _ => holds (.object members)
  | .complete v => holds v

/-- All values that the reader holds have a property. -/
def Keeps (holds : Value → Prop) (stack : List Frame) (expecting : Expecting) : Prop :=
  (∀ frame ∈ stack, frame.Keeps holds) ∧ expecting.Keeps holds

section
variable {holds : Value → Prop} (hkept : IsKept holds) {limit : Nat} {stack stack' : List Frame}
  {expecting expecting' : Expecting} {token : Token}
include hkept

theorem openContainer_keeps {container : Container} (hstack : ∀ frame ∈ stack, frame.Keeps holds)
    (h : openContainer limit stack container = .ok (stack', expecting')) :
    Keeps holds stack' expecting' := by
  unfold openContainer at h
  split at h
  · cases h
    cases container with
    | array => exact ⟨hstack, trivial⟩
    | object => exact ⟨hstack, hkept.empty⟩
  · contradiction

theorem takeValue_keeps (htoken : token.lexeme.Gives holds)
    (hstack : ∀ frame ∈ stack, frame.Keeps holds)
    (h : takeValue limit stack token = .ok (stack', expecting')) :
    Keeps holds stack' expecting' := by
  obtain ⟨lexeme, text⟩ := token
  cases lexeme with
  | name v => cases h; exact ⟨hstack, htoken⟩
  | string t => cases h; exact ⟨hstack, hkept.string t⟩
  | number n =>
    cases hvalue : n.value with
    | error refusal => simp [takeValue, hvalue] at h
    | ok v =>
      simp only [takeValue, hvalue] at h
      cases h
      exact ⟨hstack, htoken v hvalue⟩
  | beginArray => exact openContainer_keeps hkept hstack h
  | beginObject => exact openContainer_keeps hkept hstack h
  | _ => contradiction

theorem takeElement_keeps (htoken : token.lexeme.Gives holds)
    (hstack : ∀ frame ∈ stack, frame.Keeps holds)
    (h : takeElement limit stack token = .ok (stack', expecting')) :
    Keeps holds stack' expecting' := by
  have hempty : (Frame.array []).Keeps holds := by intro e he; contradiction
  unfold takeElement at h
  split at h
  · cases h; exact ⟨hstack, hkept.list nofun⟩
  · exact takeValue_keeps hkept htoken (List.forall_mem_cons.mpr ⟨hempty, hstack⟩) h

omit hkept in
theorem takeKey_keeps {members : List (Text × Value)} {mayEnd : Bool}
    (hstack : ∀ frame ∈ stack, frame.Keeps holds) (hmembers : holds (.object members))
    (h : takeKey stack members mayEnd token = .ok (stack', expecting')) :
    Keeps holds stack' expecting' := by
  unfold takeKey at h
  split at h
  · cases h; exact ⟨hstack, hmembers⟩
  · split at h
    · cases h; exact ⟨hstack, hmembers⟩
    · contradiction
  · contradiction
  · contradiction

omit hkept in
theorem takeColon_keeps {members : List (Text × Value)} {key : Text}
    (hstack : ∀ frame ∈ stack, frame.Keeps holds) (hmembers : holds (.object members))
    (h : takeColon stack members key token = .ok (stack', expecting')) :
    Keeps holds stack' expecting' := by
  unfold takeColon at h
  split at h
  · cases h; exact ⟨List.forall_mem_cons.mpr ⟨hmembers, hstack⟩, trivial⟩
  · contradiction

theorem takeNext_keeps {v : Value} (hv : holds v) (hstack : ∀ frame ∈ stack, frame.Keeps holds)
    (h : takeNext stack v token = .ok (stack', expecting')) : Keeps holds stack' expecting' := by
  unfold takeNext at h
  split at h
  · contradiction
  · next elements stack =>
    obtain ⟨helements, hstack⟩ := List.forall_mem_cons.mp hstack
    have hall : ∀ e ∈ v :: elements, holds e := List.forall_mem_cons.mpr ⟨hv, helements⟩
    split at h
    · cases h; exact ⟨List.forall_mem_cons.mpr ⟨hall, hstack⟩, trivial⟩
    · cases h; exact ⟨hstack, hkept.list fun e he => hall e (List.mem_reverse.mp he)⟩
    · contradiction
  · next members key stack =>
    obtain ⟨hmembers, hstack⟩ := List.forall_mem_cons.mp hstack
    split at h
    · cases h; exact ⟨hstack, hkept.put hmembers key hv⟩
    · cases h; exact ⟨hstack, hkept.put hmembers key hv⟩
    · contradiction

/-- The reader goes from values with a kept property to such values. -/
theorem take_keeps (htoken : token.lexeme.Gives holds) (hkeeps : Keeps holds stack expecting)
    (h : take limit stack expecting token = .ok (stack', expecting')) :
    Keeps holds stack' expecting' := by
  obtain ⟨hstack, hexpecting⟩ := hkeeps
  cases expecting with
  | value => exact takeValue_keeps hkept htoken hstack h
  | element => exact takeElement_keeps hkept htoken hstack h
  | key members mayEnd => exact takeKey_keeps hstack hexpecting h
  | colon members key => exact takeColon_keeps hstack hexpecting h
  | complete v => exact takeNext_keeps hkept hexpecting hstack h

/-! ### Runs of the reader -/

theorem run_keeps {tokens : List Token} (htokens : ∀ token ∈ tokens, token.lexeme.Gives holds)
    (hkeeps : Keeps holds stack expecting) {v : Value}
    (h : run limit stack expecting tokens = .ok v) : holds v := by
  induction tokens generalizing stack expecting with
  | nil =>
    rw [run] at h
    cases expecting with
    | complete w =>
      rw [finish] at h
      split at h
      · cases h; exact hkeeps.2
      · contradiction
    | _ => contradiction
  | cons token tokens ih =>
    obtain ⟨htoken, htokens⟩ := List.forall_mem_cons.mp htokens
    rw [run] at h
    split at h
    · next htake => exact ih htokens (take_keeps hkept htoken hkeeps htake) h
    · contradiction

/-- What a text is decoded to has a kept property if the values of its lexemes have it. -/
theorem decode_keeps {t : Text} {v : Value}
    (htokens : ∀ token ∈ tokens t, token.lexeme.Gives holds)
    (h : decodeWithin limit t = .ok v) : holds v := by
  unfold decodeWithin at h
  split at h
  · contradiction
  · cases hrun : run limit [] .value (tokens t) with
    | error refusal => rw [hrun] at h; contradiction
    | ok w =>
      rw [hrun] at h
      cases h
      have hkeeps : Keeps holds [] .value := ⟨List.forall_mem_nil _, trivial⟩
      exact run_keeps hkept htokens hkeeps hrun

end

/-! ### Readable values -/

theorem isReadable_empty : IsReadable (.object []) := .object List.nodup_nil nofun

theorem IsReadable.put {members : List (Text × Value)} {v : Value}
    (h : IsReadable (.object members)) (key : Text) (hv : IsReadable v) :
    IsReadable (.object (Value.put members key v)) := by
  cases h with
  | object hkeys hmembers =>
    refine .object (Value.nodup_keys_put hkeys key v) fun m hm => ?_
    rcases Value.mem_put hm with rfl | hm
    · exact hv
    · exact hmembers m hm

theorem isKept_isReadable : IsKept IsReadable where
  string := .string
  list := .list
  empty := isReadable_empty
  put := .put

theorem number_isReadable {n : Number} {v : Value} (hne : n.whole ≠ [])
    (hdigits : Text.IsDigits n.whole) (h : n.value = .ok v) : IsReadable v := by
  have hlength := Text.length_ofNat_toNat_le hdigits hne
  unfold Number.value at h
  split at h
  · split at h
    · contradiction
    · next hmax =>
      cases h
      refine .int ?_
      cases n.negative <;> simp <;> omega
  · cases h; exact .float _

theorem Lexeme.IsReadable.gives {lexeme : Lexeme} (h : lexeme.IsReadable) :
    lexeme.Gives Json.IsReadable := by
  cases lexeme with
  | name v => exact h
  | number n => exact fun v hv => number_isReadable h.1 h.2 hv
  | _ => trivial

/-- Whatever a text is decoded to can be written and read back. -/
theorem decode_isReadable {limit : Nat} {t : Text} {v : Value}
    (h : decodeWithin limit t = .ok v) : IsReadable v := by
  have htokens := tokensOnto_isReadable (List.forall_mem_nil _) t
  exact decode_keeps isKept_isReadable (fun token htoken => (htokens token htoken).gives) h

end JsonSurvey.Json
