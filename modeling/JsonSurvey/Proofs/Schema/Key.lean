import JsonSurvey.Proofs.Json.Reader
import JsonSurvey.Proofs.Schema.Reordering
import JsonSurvey.Proofs.Value.Path

/-! Keys read back. The key of a value is the compact text of its canonical form, and this text is
decoded to the form whatever the keys and strings of the value hold
(`decode_of_canonicalKey_eq_ok`). A value with a canonical form has a key exactly if all its leaves
have a text (`exists_canonicalKey_iff`): the form is a reordering of the value, and a reordering has
the same leaves. The only leaves of a decoded value without a text are integers with too many
digits, and they are in no value that comes from a text. -/

namespace JsonSurvey.Schema

open Json (textFault? elementsFault? membersFault? elementsFault?_eq_none membersFault?_eq_none
  textFault?_int_eq_none)

/-! ### Leaves without a text -/

/-- Every leaf of a value has a text exactly if every leaf of a reordering has one. -/
theorem Reordering.textFault?_eq_none_iff {v w : Value} (h : Reordering v w) :
    textFault? v = none ↔ textFault? w = none := by
  induction h with
  | refl v => exact .rfl
  | symm _ ih => exact ih.symm
  | trans _ _ ih ih' => exact ih.trans ih'
  | members h => simp only [textFault?, membersFault?_eq_none, h.mem_iff]
  | tags before after h =>
    simp only [textFault?, membersFault?_eq_none, elementsFault?_eq_none, List.forall_mem_append,
      List.forall_mem_cons, h.mem_iff]
  | element before after _ ih =>
    simp only [textFault?, elementsFault?_eq_none, List.forall_mem_append, List.forall_mem_cons, ih]
  | member key before after _ ih =>
    simp only [textFault?, membersFault?_eq_none, List.forall_mem_append, List.forall_mem_cons, ih]

/-- Every leaf of a decoded value has a text exactly if no integer in it has too many digits. -/
theorem textFault?_eq_none_iff {v : Value} (h : v.IsDecoded) :
    textFault? v = none ↔
      ∀ i, (Value.int i).IsPart v → (Text.ofNat i.natAbs).length ≤ Text.maxDigits := by
  induction h with
  | int i =>
    rw [textFault?_int_eq_none]
    simp [Value.isPart_leaf]
  | @list es _ ih =>
    rw [textFault?, elementsFault?_eq_none]
    simp only [Value.isPart_array, reduceCtorEq, false_or, forall_exists_index, and_imp]
    constructor
    · intro h i e he hpart
      exact (ih e he).mp (h e he) i hpart
    · intro h e he
      exact (ih e he).mpr fun i hpart => h i e he hpart
  | @object ms hkeys _ ih =>
    rw [textFault?, membersFault?_eq_none]
    simp only [Value.isPart_object hkeys, reduceCtorEq, false_or, forall_exists_index, and_imp]
    constructor
    · intro h i m hm hpart
      exact (ih m hm).mp (h m hm) i hpart
    · intro h m hm
      exact (ih m hm).mpr fun i hpart => h i m hm hpart
  | _ => simp [textFault?, Value.isPart_leaf]

/-! ### Keys -/

/-- The key of a value is the compact text of its canonical form. -/
theorem canonicalKey_eq_ok_iff {v : Value} {key : Text} :
    canonicalKey v = .ok key ↔ ∃ form, canonicalize v = .ok form ∧ textFault? form = none ∧
      key = Json.compact Foreign.name form := by
  rw [canonicalKey]
  cases canonicalize v with
  | error fault => simp [bind, Except.bind]
  | ok form =>
    change compactText form = .ok key ↔ _
    rw [compactText]
    cases hfault : textFault? form <;> simp [hfault, eq_comm]

theorem nestsWithin_of_canonicalize {v form : Value} (h : canonicalize v = .ok form) :
    v.nestsWithin maxCanonicalDepth = true := by
  rw [canonicalize] at h
  split at h
  · assumption
  · contradiction

section
variable {v form : Value} (hv : IsOrderable v) (hform : canonicalize v = .ok form)
include hv hform

theorem nestsWithin_form : form.nestsWithin Json.maxDepth = true := by
  rw [eq_canonical_of_canonicalize hform, hv.hasTextUnions.nestsWithin_canonical]
  exact Value.nestsWithin_mono (show maxCanonicalDepth ≤ Json.maxDepth by decide)
    (nestsWithin_of_canonicalize hform)

theorem isDecoded_form : form.IsDecoded := by
  rw [eq_canonical_of_canonicalize hform]
  exact (isOrderable_canonical hv).isDecoded

theorem textFault?_form : textFault? form = none ↔ textFault? v = none := by
  rw [eq_canonical_of_canonicalize hform]
  exact (reordering_canonical hv).textFault?_eq_none_iff

/-- The key of a value is decoded to the canonical form of the value. -/
theorem decode_of_canonicalKey_eq_ok {key : Text} (hkey : canonicalKey v = .ok key) :
    Json.decode key = .ok form := by
  obtain ⟨form', hform', hfault, rfl⟩ := canonicalKey_eq_ok_iff.mp hkey
  obtain rfl : form = form' := Except.ok.inj (hform.symm.trans hform')
  apply Json.decode_compact
  · exact Json.isReadable_iff.mpr ⟨isDecoded_form hv hform, hfault⟩
  · exact nestsWithin_form hv hform

theorem exists_canonicalKey_iff : (∃ key, canonicalKey v = .ok key) ↔ textFault? v = none := by
  rw [← textFault?_form hv hform]
  constructor
  · rintro ⟨key, hkey⟩
    obtain ⟨form', hform', hfault, -⟩ := canonicalKey_eq_ok_iff.mp hkey
    obtain rfl : form = form' := Except.ok.inj (hform.symm.trans hform')
    exact hfault
  · intro hfault
    exact ⟨_, canonicalKey_eq_ok_iff.mpr ⟨form, hform, hfault, rfl⟩⟩

end

/-- The key of a value loses nothing of its canonical form. It is decoded to the form, so that two
values with one key have one form. A value has a key unless it holds an integer with too many digits
to be written, and none of the values that a text is decoded to does. -/
theorem decode_canonicalKey {v form : Value} (hv : v.IsDecoded) (htags : HasTextUnions v)
    (hform : canonicalize v = .ok form) :
    (∀ key, canonicalKey v = .ok key → Json.decode key = .ok form) ∧
      ((∃ key, canonicalKey v = .ok key) ↔
        ∀ i, (Value.int i).IsPart v → (Text.ofNat i.natAbs).length ≤ Text.maxDigits) ∧
      (∀ t, Json.decode t = .ok v → ∃ key, canonicalKey v = .ok key) ∧
      ∀ w key, w.IsDecoded → HasTextUnions w → canonicalKey v = .ok key →
        canonicalKey w = .ok key → canonicalize w = .ok form := by
  have horderable : IsOrderable v := ⟨hv, htags⟩
  have hdecode {key : Text} (hkey : canonicalKey v = .ok key) : Json.decode key = .ok form :=
    decode_of_canonicalKey_eq_ok horderable hform hkey
  refine ⟨fun key => hdecode, ?_, fun t ht => ?_, fun w key hw htagsw hkey hkeyw => ?_⟩
  · rw [exists_canonicalKey_iff horderable hform, textFault?_eq_none_iff hv]
  · rw [exists_canonicalKey_iff horderable hform]
    exact (Json.isReadable_iff.mp (Json.decode_isReadable ht)).2
  · obtain ⟨formw, hformw, -⟩ := canonicalKey_eq_ok_iff.mp hkeyw
    have hdecodew := decode_of_canonicalKey_eq_ok ⟨hw, htagsw⟩ hformw hkeyw
    rw [hdecode hkey] at hdecodew
    rw [hformw, Except.ok.inj hdecodew]

/-- A property with a quote and a comma in its name, and tags with brackets in theirs. -/
theorem decode_canonicalKey_punctuation :
    let v := Value.object [(typeKey, .list [.string "]", .string "["]), ("\",", .int (-1))]
    let form := Value.object [("\",", .int (-1)), (typeKey, .list [.string "[", .string "]"])]
    (v.IsDecoded ∧ HasTextUnions v ∧ canonicalize v = .ok form) ∧
      ∃ key, canonicalKey v = .ok key ∧ Json.decode key = .ok form := by
  intro v form
  have hdecoded : v.IsDecoded := by
    apply Value.IsDecoded.object
    · decide
    · simpa [Value.isDecoded_list] using ⟨⟨.string _, .string _⟩, .int _⟩
  have htags : HasTextUnions v := by
    apply HasTextUnions.object
    · simpa using ⟨.strings .list ["]", "["], .leaf nofun nofun⟩
    · intro form ts hts
      rcases List.mem_cons.mp hts with h | h
      · cases h
        simp
      · simp at h
  have hform : canonicalize v = .ok form := by
    rw [canonicalize_eq_ok htags rfl, canonical_object]
    change Except.ok (Value.object (sortMembers
      [(typeKey, .list ((sortTexts ["]", "["]).map .string)), ("\",", .int (-1))])) = _
    rw [sortTexts_swap (by decide), sortMembers_swap (by decide) (by decide)]
    rfl
  obtain ⟨hdecode, hexists, -⟩ := decode_canonicalKey hdecoded htags hform
  have hdigits (i : Int) (hi : (Value.int i).IsPart v) :
      (Text.ofNat i.natAbs).length ≤ Text.maxDigits := by
    have hkeys : ([(typeKey, Value.list [.string "]", .string "["]), ("\",", .int (-1))].map
        (·.1)).Nodup := by decide
    obtain rfl : i = -1 := by
      simpa [v, Value.isPart_object hkeys, Value.isPart_array, Value.isPart_leaf] using hi
    exact Nat.le_trans (@Text.length_ofNat_le 1 1 (by omega) Nat.one_pos) (by decide)
  obtain ⟨key, hkey⟩ := hexists.mpr hdigits
  exact ⟨⟨hdecoded, htags, hform⟩, key, hkey, hdecode key hkey⟩

end JsonSurvey.Schema
