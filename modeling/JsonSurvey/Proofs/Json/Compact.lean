import JsonSurvey.Proofs.Json.Layout

/-! Compact texts read back. The compact text of a value is read as the value (`reads_compact`), so
it is decoded to the value (`decode_compact`), and values with one text are equal. The induction is
on the value; the compact texts of the elements of an array and of the members of an object are
without any space between them.

`IsReadable` tells the values that JSON text decodes to; `IsTextual` leaves those without numbers,
which is all that schemas are made of. -/

namespace JsonSurvey.Json

/-- The values that are read back from their texts: no array is a tuple, an object has each key
once, and no integer has too many digits. -/
inductive IsReadable : Value → Prop
  | null : IsReadable .null
  | bool (b : Bool) : IsReadable (.bool b)
  | int {i : Int} : (Text.ofNat i.natAbs).length ≤ Text.maxDigits → IsReadable (.int i)
  | float (x : Binary64) : IsReadable (.float x)
  | string (t : Text) : IsReadable (.string t)
  | list {es : List Value} : (∀ e ∈ es, IsReadable e) → IsReadable (.list es)
  | object {ms : List (Text × Value)} : (ms.map (·.1)).Nodup → (∀ m ∈ ms, IsReadable m.2) →
    IsReadable (.object ms)

/-- The values of JSON without numbers in them. -/
inductive IsTextual : Value → Prop
  | null : IsTextual .null
  | bool (b : Bool) : IsTextual (.bool b)
  | string (t : Text) : IsTextual (.string t)
  | list {es : List Value} : (∀ e ∈ es, IsTextual e) → IsTextual (.list es)
  | object {ms : List (Text × Value)} : (ms.map (·.1)).Nodup → (∀ m ∈ ms, IsTextual m.2) →
    IsTextual (.object ms)

theorem IsTextual.isReadable {v : Value} (h : IsTextual v) : IsReadable v := by
  induction h with
  | null => exact .null
  | bool b => exact .bool b
  | string t => exact .string t
  | list _ ih => exact .list ih
  | object hkeys _ ih => exact .object hkeys ih

/-! ### Values without a fault -/

theorem textFault?_int_eq_none {i : Int} :
    textFault? (.int i) = none ↔ (Text.ofNat i.natAbs).length ≤ Text.maxDigits := by
  rw [textFault?, integerText]
  by_cases h : Text.maxDigits < (Text.ofNat i.natAbs).length
  · simp [h]
  · simpa [if_neg h] using Nat.le_of_not_lt h

theorem elementsFault?_eq_none {vs : List Value} :
    elementsFault? vs = none ↔ ∀ v ∈ vs, textFault? v = none := by
  induction vs with
  | nil => simp [elementsFault?]
  | cons v vs ih => simp [elementsFault?, Option.or_eq_none_iff, ih]

theorem membersFault?_eq_none {ms : List (Text × Value)} :
    membersFault? ms = none ↔ ∀ m ∈ ms, textFault? m.2 = none := by
  induction ms with
  | nil => simp [membersFault?]
  | cons m ms ih => simp [membersFault?, Option.or_eq_none_iff, ih]

/-- The readable values are the decoded ones of which every leaf has a text. -/
theorem isReadable_iff {v : Value} : IsReadable v ↔ v.IsDecoded ∧ textFault? v = none := by
  constructor
  · intro h
    induction h with
    | null => exact ⟨.null, rfl⟩
    | bool b => exact ⟨.bool b, rfl⟩
    | int hdigits => exact ⟨.int _, textFault?_int_eq_none.mpr hdigits⟩
    | float x => exact ⟨.float x, rfl⟩
    | string t => exact ⟨.string t, rfl⟩
    | list _ ih =>
      exact ⟨.list fun e he => (ih e he).1, elementsFault?_eq_none.mpr fun e he => (ih e he).2⟩
    | object hkeys _ ih =>
      exact ⟨.object hkeys fun m hm => (ih m hm).1,
        membersFault?_eq_none.mpr fun m hm => (ih m hm).2⟩
  · rintro ⟨hdecoded, hfault⟩
    induction hdecoded with
    | null => exact .null
    | bool b => exact .bool b
    | int i => exact .int (textFault?_int_eq_none.mp hfault)
    | float x => exact .float x
    | string t => exact .string t
    | list _ ih =>
      rw [textFault?, elementsFault?_eq_none] at hfault
      exact .list fun e he => ih e he (hfault e he)
    | object hkeys _ ih =>
      rw [textFault?, membersFault?_eq_none] at hfault
      exact .object hkeys fun m hm => ih m hm (hfault m hm)

theorem IsReadable.isJson {v : Value} (h : IsReadable v) : v.IsJson :=
  (isReadable_iff.mp h).1.isJson

theorem IsTextual.isDecoded {v : Value} (h : IsTextual v) : v.IsDecoded :=
  (isReadable_iff.mp h.isReadable).1

theorem IsTextual.textFault?_eq_none {v : Value} (h : IsTextual v) : textFault? v = none :=
  (isReadable_iff.mp h.isReadable).2

/-! ### Compact texts -/

section
variable {leaf : Foreign → Text} {limit level : Nat}

theorem isSpaces_nil : IsSpaces [] := nofun

theorem reads_compactElements {vs : List Value}
    (h : ∀ v ∈ vs, Reads limit level (compact leaf v) v) :
    ReadsElements limit level (compactElements leaf vs) vs := by
  induction vs with
  | nil => exact readsElements_nil isSpaces_nil
  | cons v vs ih =>
    obtain ⟨hv, hvs⟩ := List.forall_mem_cons.mp h
    rw [compactElements]
    exact readsElements_cons isSpaces_nil hv (ih hvs)

theorem reads_compactMembers {ms : List (Text × Value)}
    (h : ∀ m ∈ ms, Reads limit level (compact leaf m.2) m.2) :
    ReadsMembers limit level (compactMembers leaf ms) ms := by
  induction ms with
  | nil => exact readsMembers_nil isSpaces_nil
  | cons m ms ih =>
    obtain ⟨hm, hms⟩ := List.forall_mem_cons.mp h
    rw [compactMembers]
    exact readsMembers_cons isSpaces_nil isSpaces_nil hm (ih hms)

/-- A value that does not nest too deeply is read from its compact text. -/
theorem reads_compact {v : Value} (h : IsReadable v)
    (hdepth : v.nestsWithin (limit - level) = true) : Reads limit level (compact leaf v) v := by
  induction h generalizing level with
  | null => exact reads_null
  | bool b =>
    cases b with
    | false => exact reads_false
    | true => exact reads_true
  | int hdigits => exact reads_int hdigits
  | float x => exact reads_float x
  | string t => exact reads_string t
  | @list es _ ih =>
    obtain ⟨inner, hinner, hes⟩ := Value.nestsWithin_array.mp hdepth
    have hlevel : level < limit := by omega
    have hread : ∀ e ∈ es, Reads limit (level + 1) (compact leaf e) e := fun e he =>
      ih e he (by rw [show limit - (level + 1) = inner by omega]; exact hes e he)
    cases es with
    | nil => exact reads_emptyArray hlevel
    | cons v vs =>
      obtain ⟨hv, hvs⟩ := List.forall_mem_cons.mp hread
      rw [compact]
      exact reads_array hlevel isSpaces_nil hv (reads_compactElements hvs)
  | @object ms hkeys _ ih =>
    obtain ⟨inner, hinner, hms⟩ := Value.nestsWithin_object.mp hdepth
    have hlevel : level < limit := by omega
    have hread : ∀ m ∈ ms, Reads limit (level + 1) (compact leaf m.2) m.2 := fun m hm =>
      ih m hm (by rw [show limit - (level + 1) = inner by omega]; exact hms m hm)
    cases ms with
    | nil => exact reads_emptyObject hlevel
    | cons m ms =>
      obtain ⟨hm, hms⟩ := List.forall_mem_cons.mp hread
      rw [compact]
      exact reads_object hlevel isSpaces_nil isSpaces_nil hkeys hm (reads_compactMembers hms)

/-- The compact text of a value is decoded to the value. -/
theorem decode_compact {v : Value} (h : IsReadable v) (hdepth : v.nestsWithin maxDepth = true) :
    decode (compact leaf v) = .ok v :=
  decode_of_reads (reads_compact h hdepth)

/-- Values without numbers that have one compact text are equal. -/
theorem compact_injective {v w : Value} (hv : IsTextual v) (hw : IsTextual w)
    (hdepthv : v.nestsWithin maxDepth = true) (hdepthw : w.nestsWithin maxDepth = true)
    (h : compact leaf v = compact leaf w) : v = w := by
  have hdecode : decode (compact leaf v) = .ok v := decode_compact hv.isReadable hdepthv
  rw [h, decode_compact hw.isReadable hdepthw] at hdecode
  exact (Except.ok.inj hdecode).symm

end

end JsonSurvey.Json
