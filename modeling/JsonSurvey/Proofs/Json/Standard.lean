import JsonSurvey.Proofs.Binary64.Overflow
import JsonSurvey.Proofs.Json.Grammar
import JsonSurvey.Proofs.Json.Indented
import JsonSurvey.Proofs.Json.Reader

/-! Floating-point numbers and standard JSON. What is written of a value is a JSON text that names
the numbers of the value that are not finite, so that it is standard exactly if there are none
(`isStandard_indented_iff`). What a standard text is decoded to has such numbers nevertheless where
a written number is beyond the format: every floating-point number that is read is rounded from one
of the numbers of the text (`exists_number_of_decode`). -/

namespace JsonSurvey

/-! ### Numbers in values -/

/-- A floating-point number is a leaf of a value. -/
inductive Value.HasFloat (x : Binary64) : Value → Prop
  | self : HasFloat x (.float x)
  | element {form : ArrayForm} {es : List Value} {e : Value} : e ∈ es → HasFloat x e →
    HasFloat x (.array form es)
  | member {ms : List (Text × Value)} {m : Text × Value} : m ∈ ms → HasFloat x m.2 →
    HasFloat x (.object ms)

namespace Value

variable {x y : Binary64}

theorem not_hasFloat_null : ¬ null.HasFloat x := by
  rintro ⟨⟩

theorem not_hasFloat_bool {b : Bool} : ¬ (bool b).HasFloat x := by
  rintro ⟨⟩

@[simp] theorem hasFloat_float : (float y).HasFloat x ↔ x = y := by
  constructor
  · rintro ⟨⟩
    rfl
  · rintro rfl
    exact .self

@[simp] theorem not_hasFloat_string {t : Text} : ¬ (string t).HasFloat x := nofun

@[simp] theorem hasFloat_array {form : ArrayForm} {es : List Value} :
    (array form es).HasFloat x ↔ ∃ e ∈ es, e.HasFloat x := by
  constructor
  · rintro (_ | ⟨he, hx⟩)
    exact ⟨_, he, hx⟩
  · rintro ⟨e, he, hx⟩
    exact .element he hx

theorem not_hasFloat_emptyArray {form : ArrayForm} : ¬ (array form []).HasFloat x := by
  rw [hasFloat_array]
  rintro ⟨_, ⟨⟩, _⟩

@[simp] theorem hasFloat_object {ms : List (Text × Value)} :
    (object ms).HasFloat x ↔ ∃ m ∈ ms, m.2.HasFloat x := by
  constructor
  · rintro (_ | _ | ⟨hm, hx⟩)
    exact ⟨_, hm, hx⟩
  · rintro ⟨m, hm, hx⟩
    exact .member hm hx

theorem not_hasFloat_emptyObject : ¬ (object []).HasFloat x := by
  rw [hasFloat_object]
  rintro ⟨_, ⟨⟩, _⟩

end Value

namespace Json

/-! ### Written texts -/

theorem mem_names {m : Text × Value} (h : m ∈ names) :
    m.2 = .null ∨ m.2 = .bool true ∨ m.2 = .bool false ∨ ∃ x, m.2 = .float x := by
  simp only [names, List.mem_cons, List.not_mem_nil, or_false] at h
  rcases h with rfl | rfl | rfl | rfl | rfl | rfl <;> simp

theorem IsText.mem_names {part : Part} {t : Text} {used : List Value} (h : IsText part t used) :
    ∀ v ∈ used, ∃ m ∈ names, m.2 = v := by
  induction h with
  | @name m hm => exact List.forall_mem_singleton.mpr ⟨m, hm, rfl⟩
  | numeral | string | emptyArray | emptyObject => exact List.forall_mem_nil _
  | array _ ih | object _ ih | lastElement _ ih => exact ih
  | padded _ _ _ ih | lastMember _ _ _ _ ih => exact ih
  | element _ _ ih ih' | member _ _ _ _ _ ih ih' => exact List.forall_mem_append.mpr ⟨ih, ih'⟩

/-- The names that stand in a written text are those of its numbers that are not finite, besides
null and the truth values. -/
def NamesFloats (v : Value) (used : List Value) : Prop :=
  ∀ x, .float x ∈ used ↔ v.HasFloat x ∧ ¬ x.IsFinite

/-- If all chunks of a value are written, they make up a JSON text of it behind the lead. -/
def WritesText (v : Value) : Prop :=
  ∀ (level : Nat) (lead : Text) (texts : List Text), texts.map .ok = chunks level lead v →
    ∃ t used, texts.flatten = lead ++ t ∧ IsText .value t used ∧ NamesFloats v used

theorem isHex_hexDigit : ∀ n : Fin 0x20,
    [0x30, 0x30, CodePoint.hexDigit (n.val / 16), CodePoint.hexDigit n.val].all
      (fun h => (CodePoint.hexValue? h).isSome) = true := by
  decide

theorem isStringTail_escape (c : CodePoint) {t : Text} (ht : IsStringTail t) :
    IsStringTail (escape c ++ t) := by
  unfold escape
  split
  · next h => rcases h with rfl | rfl <;> exact .short (by decide) ht
  split
  · exact .short (by decide) ht
  split
  · exact .short (by decide) ht
  split
  · exact .short (by decide) ht
  split
  · exact .short (by decide) ht
  split
  · exact .short (by decide) ht
  split
  · next h => exact .unit (List.all_eq_true.mp (isHex_hexDigit ⟨c.val, h⟩)) ht
  · next h _ _ _ _ _ hcontrol =>
    rw [not_or] at h
    exact .plain h.1 h.2 (Nat.not_lt.mp hcontrol) ht

theorem isStringTail_quote (t : Text) : IsStringTail (t.flatMap escape ++ [0x22]) := by
  induction t with
  | nil => exact .quote
  | cons c t ih =>
    rw [List.flatMap_cons, List.append_assoc]
    exact isStringTail_escape c ih

theorem Number.IsWritten.isNumeral {n : Number} (h : n.IsWritten) : IsNumeral n.text := by
  refine .mk n.negative h.whole_ne_nil h.whole h.leading ?_ ?_
  · cases hfraction : n.fraction with
    | none => exact .none
    | some digits =>
      obtain ⟨hne, hdigits⟩ := h.fraction digits hfraction
      exact .point hne hdigits
  · cases hexponent : n.exponent with
    | none => exact .none
    | some e =>
      obtain ⟨hne, hdigits⟩ := h.exponent e hexponent
      have hsign : [if e.1 then (0x2D : CodePoint) else 0x2B] = [] ∨
          [if e.1 then (0x2D : CodePoint) else 0x2B] = [0x2B] ∨
          [if e.1 then (0x2D : CodePoint) else 0x2B] = [0x2D] := by
        cases e.1 <;> simp
      exact .letter (.inl rfl) hsign hne hdigits

section
variable {v : Value}

theorem namesFloats_nil (h : ∀ x, v.HasFloat x → x.IsFinite) : NamesFloats v [] := by
  intro x
  constructor
  · nofun
  · rintro ⟨hx, hfinite⟩
    exact absurd (h x hx) hfinite

theorem namesFloats_singleton {x : Binary64} (h : ¬ x.IsFinite) :
    NamesFloats (.float x) [.float x] := by
  intro y
  rw [List.mem_singleton, Value.float.injEq, Value.hasFloat_float]
  constructor
  · rintro rfl
    exact ⟨rfl, h⟩
  · exact And.left

theorem namesFloats_emptyArray {form : ArrayForm} : NamesFloats (.array form []) [] :=
  namesFloats_nil fun _ hx => absurd hx Value.not_hasFloat_emptyArray

theorem namesFloats_emptyObject : NamesFloats (.object []) [] :=
  namesFloats_nil fun _ hx => absurd hx Value.not_hasFloat_emptyObject

variable {used used' : List Value} (h : NamesFloats v used)
include h

theorem NamesFloats.array_cons {form form' : ArrayForm} {vs : List Value}
    (h' : NamesFloats (.array form' vs) used') :
    NamesFloats (.array form (v :: vs)) (used ++ used') := by
  intro x
  rw [List.mem_append, h, h', Value.hasFloat_array, Value.hasFloat_array, List.exists_mem_cons_iff,
    or_and_right]

theorem NamesFloats.object_cons {key : Text} {ms : List (Text × Value)}
    (h' : NamesFloats (.object ms) used') :
    NamesFloats (.object ((key, v) :: ms)) (used ++ used') := by
  intro x
  rw [List.mem_append, h, h', Value.hasFloat_object, Value.hasFloat_object,
    List.exists_mem_cons_iff, or_and_right]

end

/-- The text of a number is its name unless it is finite. -/
theorem exists_isText_float (x : Binary64) :
    ∃ used, IsText .value x.toText used ∧ NamesFloats (.float x) used := by
  have hname (hname : (x.toText, .float x) ∈ names) (hfinite : ¬ x.IsFinite) :
      ∃ used, IsText .value x.toText used ∧ NamesFloats (.float x) used :=
    ⟨[.float x], .name hname, namesFloats_singleton hfinite⟩
  cases x with
  | nan => exact hname (by simp [names, Binary64.toText]) Binary64.not_isFinite_nan
  | infinite negative =>
    refine hname ?_ (Binary64.not_isFinite_infinite negative)
    cases negative <;> simp [names, Binary64.toText]
  | finite negative rank =>
    obtain ⟨n, hn, htext, _⟩ := exists_number_toText negative rank
    rw [← htext]
    refine ⟨[], .numeral hn.isNumeral, namesFloats_nil fun x hx => ?_⟩
    rw [Value.hasFloat_float.mp hx]
    exact ⟨negative, rank, rfl⟩

section
variable {level : Nat} {texts : List Text}

theorem exists_isText_leaf {v : Value} {lead t : Text} {used : List Value}
    (ht : IsText .value t used) (hused : NamesFloats v used)
    (hok : texts.map .ok = [(.ok (lead ++ t) : Chunk)]) :
    ∃ t used, texts.flatten = lead ++ t ∧ IsText .value t used ∧ NamesFloats v used := by
  rw [eq_singleton_of_map_ok hok]
  exact ⟨t, used, List.flatten_singleton, ht, hused⟩

/-- The chunks behind the first element of an array, whatever it is, go on with its elements. -/
theorem exists_isText_elements {vs : List Value} (h : ∀ v ∈ vs, WritesText v)
    (hok : texts.map .ok = elementChunks level vs) :
    ∃ used, NamesFloats (.list vs) used ∧ ∀ gap t used', IsSpaces gap → IsText .value t used' →
      IsText .elements (gap ++ (t ++ texts.flatten)) (used' ++ used) := by
  induction vs generalizing texts with
  | nil =>
    rw [elementChunks] at hok
    obtain ⟨inner, rfl, hinner⟩ := exists_of_map_ok hok
    rw [eq_singleton_of_map_ok hinner]
    refine ⟨[], namesFloats_emptyArray, fun gap t used' hgap ht => ?_⟩
    have helements := (ht.padded hgap (isSpaces_newLine (level - 1))).lastElement
    simpa using helements
  | cons v vs ih =>
    obtain ⟨hv, hvs⟩ := List.forall_mem_cons.mp h
    rw [elementChunks] at hok
    obtain ⟨first, rest, rfl, hfirst, hrest⟩ := List.map_eq_append_iff.mp hok
    obtain ⟨t, used, htext, ht, hused⟩ := hv _ _ _ hfirst
    obtain ⟨used', hused', helements⟩ := ih hvs hrest
    refine ⟨used ++ used', hused.array_cons hused', fun gap t' used'' hgap ht' => ?_⟩
    have hafter := helements _ _ _ (isSpaces_newLine level) ht
    have hbefore := (ht'.padded hgap isSpaces_nil).element hafter
    rw [List.flatten_append, htext]
    simpa using hbefore

/-- The chunks behind the first member of an object, whatever it is, go on with its members. -/
theorem exists_isText_members {ms : List (Text × Value)} (h : ∀ m ∈ ms, WritesText m.2)
    (hok : texts.map .ok = memberChunks level ms) :
    ∃ used, NamesFloats (.object ms) used ∧ ∀ gap key t used', IsSpaces gap →
      IsText .value t used' →
      IsText .members (gap ++ (quote key ++ 0x3A :: 0x20 :: (t ++ texts.flatten)))
        (used' ++ used) := by
  induction ms generalizing texts with
  | nil =>
    rw [memberChunks] at hok
    obtain ⟨inner, rfl, hinner⟩ := exists_of_map_ok hok
    rw [eq_singleton_of_map_ok hinner]
    refine ⟨[], namesFloats_emptyObject, fun gap key t used' hgap ht => ?_⟩
    have hvalue := ht.padded isSpaces_behindColon (isSpaces_newLine (level - 1))
    have hmember := hvalue.lastMember hgap (isStringTail_quote key) isSpaces_nil
    simpa [quote] using hmember
  | cons m ms ih =>
    obtain ⟨hm, hms⟩ := List.forall_mem_cons.mp h
    rw [memberChunks] at hok
    obtain ⟨_, rfl, hkey⟩ := exists_of_map_ok hok
    obtain ⟨_, rfl, hcolon⟩ := exists_of_map_ok hkey
    obtain ⟨_, rfl, hvalue⟩ := exists_of_map_ok hcolon
    obtain ⟨first, rest, rfl, hfirst, hrest⟩ := List.map_eq_append_iff.mp hvalue
    obtain ⟨t, used, htext, ht, hused⟩ := hm _ _ _ hfirst
    obtain ⟨used', hused', hmembers⟩ := ih hms hrest
    refine ⟨used ++ used', hused.object_cons hused', fun gap key t' used'' hgap ht' => ?_⟩
    have hafter := hmembers _ m.1 _ _ (isSpaces_newLine level) ht
    have hbefore := (ht'.padded isSpaces_behindColon isSpaces_nil).member hgap
      (isStringTail_quote key) isSpaces_nil hafter
    simpa [quote, htext] using hbefore

end

theorem writesText_array {form : ArrayForm} {es : List Value} (h : ∀ e ∈ es, WritesText e) :
    WritesText (.array form es) := by
  intro level lead texts hok
  cases es with
  | nil =>
    rw [chunks] at hok
    obtain ⟨_, inner, rfl, hinner⟩ := exists_of_container hok
    rw [eq_singleton_of_map_ok hinner]
    refine ⟨_, [], ?_, .emptyArray isSpaces_nil, namesFloats_emptyArray⟩
    rw [List.flatten_cons, List.flatten_singleton]
    rfl
  | cons v vs =>
    obtain ⟨hv, hvs⟩ := List.forall_mem_cons.mp h
    rw [chunks] at hok
    obtain ⟨_, inner, rfl, hinner⟩ := exists_of_container hok
    obtain ⟨first, rest, rfl, hfirst, hrest⟩ := List.map_eq_append_iff.mp hinner
    obtain ⟨t, used, htext, ht, hused⟩ := hv _ _ _ hfirst
    obtain ⟨used', hused', helements⟩ := exists_isText_elements hvs hrest
    have harray := (helements _ _ _ (isSpaces_newLine (level + 1)) ht).array
    refine ⟨_, _, ?_, harray, hused.array_cons hused'⟩
    simp [htext]

theorem writesText_object {ms : List (Text × Value)} (h : ∀ m ∈ ms, WritesText m.2) :
    WritesText (.object ms) := by
  intro level lead texts hok
  cases ms with
  | nil =>
    rw [chunks] at hok
    obtain ⟨_, inner, rfl, hinner⟩ := exists_of_container hok
    rw [eq_singleton_of_map_ok hinner]
    refine ⟨_, [], ?_, .emptyObject isSpaces_nil, namesFloats_emptyObject⟩
    rw [List.flatten_cons, List.flatten_singleton]
    rfl
  | cons m ms =>
    obtain ⟨hm, hms⟩ := List.forall_mem_cons.mp h
    rw [chunks] at hok
    obtain ⟨_, inner, rfl, hopen⟩ := exists_of_container hok
    obtain ⟨_, rfl, hgap⟩ := exists_of_map_ok hopen
    obtain ⟨_, rfl, hkey⟩ := exists_of_map_ok hgap
    obtain ⟨_, rfl, hcolon⟩ := exists_of_map_ok hkey
    obtain ⟨_, rfl, hvalue⟩ := exists_of_map_ok hcolon
    obtain ⟨first, rest, rfl, hfirst, hrest⟩ := List.map_eq_append_iff.mp hvalue
    obtain ⟨t, used, htext, ht, hused⟩ := hm _ _ _ hfirst
    obtain ⟨used', hused', hmembers⟩ := exists_isText_members hms hrest
    have hobject := (hmembers _ m.1 _ _ (isSpaces_newLine (level + 1)) ht).object
    refine ⟨_, _, ?_, hobject, hused.object_cons hused'⟩
    simp [htext]

theorem writesText_name {name : Text} {v : Value} (hname : (name, v) ∈ names)
    (hfloat : ∀ x, ¬ v.HasFloat x)
    (hchunks : ∀ level lead, chunks level lead v = [.ok (lead ++ name)]) : WritesText v := by
  intro level lead texts hok
  rw [hchunks] at hok
  have hused : NamesFloats v [v] := by
    intro x
    rw [List.mem_singleton]
    constructor
    · rintro rfl
      exact absurd .self (hfloat x)
    · rintro ⟨hx, _⟩
      exact absurd hx (hfloat x)
  exact exists_isText_leaf (.name hname) hused hok

/-- What is written of a value is a JSON text that names its numbers that are not finite. -/
theorem writesText (v : Value) : WritesText v := by
  induction v with
  | null =>
    exact writesText_name (by simp [names]) (fun _ => Value.not_hasFloat_null) fun _ _ => rfl
  | bool b =>
    cases b with
    | false =>
      exact writesText_name (by simp [names]) (fun _ => Value.not_hasFloat_bool) fun _ _ => rfl
    | true =>
      exact writesText_name (by simp [names]) (fun _ => Value.not_hasFloat_bool) fun _ _ => rfl
  | int i =>
    intro level lead texts hok
    rw [chunks, integerText] at hok
    split at hok
    · exact absurd hok not_map_ok_error
    · have hnumeral := (Number.isWritten_ofInt i).isNumeral
      rw [Number.text_ofInt] at hnumeral
      exact exists_isText_leaf (.numeral hnumeral) (namesFloats_nil fun x hx => by cases hx) hok
  | float x =>
    intro level lead texts hok
    obtain ⟨used, ht, hused⟩ := exists_isText_float x
    exact exists_isText_leaf ht hused hok
  | string t =>
    intro level lead texts hok
    exact exists_isText_leaf (.string (isStringTail_quote t))
      (namesFloats_nil fun x hx => by cases hx) hok
  | array form es ih => exact writesText_array ih
  | object ms ih => exact writesText_object ih
  | foreign leaf =>
    intro level lead texts hok
    rw [chunks] at hok
    obtain ⟨inner, rfl, hinner⟩ := exists_of_map_ok hok
    exact absurd hinner not_map_ok_error

/-- The indented text of a value is standard JSON exactly if its numbers are all finite. -/
theorem isStandard_indented_iff {v : Value} {texts : List Text}
    (hok : texts.map .ok = indented v) :
    IsStandard texts.flatten ↔ ∀ x, v.HasFloat x → x.IsFinite := by
  obtain ⟨t, used, htext, ht, hused⟩ := writesText v 0 [] texts hok
  have hpadded : IsText .padded t used := by
    have hpadded := ht.padded isSpaces_nil isSpaces_nil
    rwa [List.append_nil, List.nil_append] at hpadded
  rw [htext, List.nil_append]
  constructor
  · rintro ⟨used', ht', hstandard⟩ x hx
    by_contra hfinite
    rw [← ht'.named_eq, hpadded.named_eq] at hstandard
    have hfloat := hstandard _ ((hused x).mpr ⟨hx, hfinite⟩)
    simp at hfloat
  · intro hfinite
    refine ⟨used, hpadded, fun w hw => ?_⟩
    obtain ⟨m, hm, rfl⟩ := ht.mem_names w hw
    rcases mem_names hm with hnull | htrue | hfalse | ⟨x, hx⟩
    · exact .inl hnull
    · exact .inr (.inl htrue)
    · exact .inr (.inr hfalse)
    · obtain ⟨hfloat, hinfinite⟩ := (hused x).mp (hx ▸ hw)
      exact absurd (hfinite x hfloat) hinfinite

/-! ### Numbers that are read -/

/-- The decimal number that a written number with a fraction or an exponent stands for. -/
def Number.decimal (n : Number) : Decimal where
  coefficient := Text.toNat (n.whole ++ n.fraction.getD [])
  exponent := (match n.exponent with
    | none => 0
    | some (true, digits) => -(Text.toNat digits : Int)
    | some (false, digits) => Text.toNat digits) - (n.fraction.getD []).length

/-- A written number with a fraction or an exponent is rounded; any other one is an integer. -/
def Number.IsRounded (n : Number) : Prop := n.fraction ≠ none ∨ n.exponent ≠ none

theorem Number.value_cases {n : Number} {v : Value} (h : n.value = .ok v) :
    (∃ i, v = .int i) ∨
      n.IsRounded ∧ v = .float (Binary64.ofDecimal n.negative n.decimal) := by
  unfold Number.value at h
  split at h
  · split at h
    · contradiction
    · cases h
      exact .inl ⟨_, rfl⟩
  · next hparts =>
    cases h
    refine .inr ⟨?_, rfl⟩
    by_cases hfraction : n.fraction = none
    · exact .inr (hparts hfraction)
    · exact .inl hfraction

/-- A number stands among the lexemes of a text. -/
def HasNumber (t : Text) (n : Number) : Prop := ∃ token ∈ tokens t, token.lexeme = .number n

theorem isKept_hasFloat (p : Binary64 → Prop) : IsKept fun v => ∀ x, v.HasFloat x → p x where
  string t x hx := by cases hx
  list h x hx := by
    obtain ⟨e, he, hx⟩ := Value.hasFloat_array.mp hx
    exact h e he x hx
  empty x hx := absurd hx Value.not_hasFloat_emptyObject
  put h key hv x hx := by
    obtain ⟨m, hm, hx⟩ := Value.hasFloat_object.mp hx
    rcases Value.mem_put hm with rfl | hm
    · exact hv x hx
    · exact h x (.member hm hx)

/-- The floating-point numbers that are read from a standard text are rounded from its numbers. -/
theorem exists_number_of_decode {limit : Nat} {t : Text} {v : Value} (hstandard : IsStandard t)
    (h : decodeWithin limit t = .ok v) : ∀ x, v.HasFloat x →
      ∃ n, HasNumber t n ∧ n.IsRounded ∧ x = Binary64.ofDecimal n.negative n.decimal := by
  obtain ⟨used, ht, hnames⟩ := hstandard
  refine decode_keeps (isKept_hasFloat _) (fun token htoken => ?_) h
  obtain ⟨lexeme, text⟩ := token
  cases lexeme with
  | name v =>
    intro x hx
    have hnamed : v ∈ named t := List.mem_filterMap.mpr ⟨_, htoken, rfl⟩
    rw [ht.named_eq] at hnamed
    rcases hnames v hnamed with rfl | rfl | rfl <;> cases hx
  | number n =>
    intro v hv x hx
    rcases Number.value_cases hv with ⟨i, rfl⟩ | ⟨hrounded, rfl⟩
    · cases hx
    · exact ⟨n, ⟨_, htoken, rfl⟩, hrounded, Value.hasFloat_float.mp hx⟩
  | _ => trivial

end Json
end JsonSurvey
