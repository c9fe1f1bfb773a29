import JsonSurvey.Value
import Mathlib.Data.List.Nodup

/-! Structural facts about values. `Value.induction` is the induction over the parts of a value, and
`IsJson` tells the JSON values from the others: they have no leaf without a JSON form, and an object
has each key once. `IsDecoded` leaves those without fixed sequences. -/

namespace JsonSurvey.Value

/-! ### Induction -/

theorem size_le_sizeAll {v : Value} {vs : List Value} (h : v ∈ vs) : v.size ≤ sizeAll vs := by
  induction vs with
  | nil => contradiction
  | cons w vs ih =>
    rw [sizeAll]
    rcases List.mem_cons.mp h with rfl | h
    · exact Nat.le_add_right _ _
    · exact Nat.le_trans (ih h) (Nat.le_add_left _ _)

theorem size_le_sizeMembers {m : Text × Value} {ms : List (Text × Value)} (h : m ∈ ms) :
    m.2.size ≤ sizeMembers ms := by
  rw [← sizeAll_values]
  exact size_le_sizeAll (List.mem_map_of_mem h)

/-- Induction over a value: through the elements of arrays and the values of members. -/
@[induction_eliminator, elab_as_elim]
theorem induction {motive : Value → Prop} (null : motive .null) (bool : ∀ b, motive (.bool b))
    (int : ∀ i, motive (.int i)) (float : ∀ x, motive (.float x))
    (string : ∀ t, motive (.string t))
    (array : ∀ form es, (∀ e ∈ es, motive e) → motive (.array form es))
    (object : ∀ ms, (∀ m ∈ ms, motive m.2) → motive (.object ms))
    (foreign : ∀ leaf, motive (.foreign leaf)) (v : Value) : motive v := by
  suffices ∀ n (v : Value), v.size < n → motive v from this _ v (Nat.lt_succ_self _)
  intro n
  induction n with
  | zero => intro v h; omega
  | succ n ih =>
    intro v hv
    cases v with
    | null => exact null
    | bool b => exact bool b
    | int i => exact int i
    | float x => exact float x
    | string t => exact string t
    | array form es =>
      refine array form es fun e he => ih e ?_
      have := size_le_sizeAll he
      rw [size] at hv
      omega
    | object ms =>
      refine object ms fun m hm => ih m.2 ?_
      have := size_le_sizeMembers hm
      rw [size] at hv
      omega
    | foreign leaf => exact foreign leaf

/-! ### Nesting -/

theorem allNestWithin_iff {limit : Nat} {vs : List Value} :
    allNestWithin limit vs = true ↔ ∀ v ∈ vs, v.nestsWithin limit = true := by
  induction vs with
  | nil => simp [allNestWithin]
  | cons v vs ih => simp [allNestWithin, ih]

theorem membersNestWithin_iff {limit : Nat} {ms : List (Text × Value)} :
    membersNestWithin limit ms = true ↔ ∀ m ∈ ms, m.2.nestsWithin limit = true := by
  induction ms with
  | nil => simp [membersNestWithin]
  | cons m ms ih => simp [membersNestWithin, ih]

theorem nestsWithin_array {limit : Nat} {form : ArrayForm} {es : List Value} :
    (array form es).nestsWithin limit = true ↔
      ∃ inner, limit = inner + 1 ∧ ∀ e ∈ es, e.nestsWithin inner = true := by
  cases limit with
  | zero => simp [nestsWithin]
  | succ limit => simp [nestsWithin, allNestWithin_iff]

theorem nestsWithin_object {limit : Nat} {ms : List (Text × Value)} :
    (object ms).nestsWithin limit = true ↔
      ∃ inner, limit = inner + 1 ∧ ∀ m ∈ ms, m.2.nestsWithin inner = true := by
  cases limit with
  | zero => simp [nestsWithin]
  | succ limit => simp [nestsWithin, membersNestWithin_iff]

theorem nestsWithin_string (t : Text) (limit : Nat) : (string t).nestsWithin limit = true := by
  cases limit <;> rfl

theorem nestsWithin_mono {v : Value} {limit limit' : Nat} (hle : limit ≤ limit')
    (h : v.nestsWithin limit = true) : v.nestsWithin limit' = true := by
  induction v generalizing limit limit' with
  | array form es ih =>
    obtain ⟨inner, rfl, hes⟩ := nestsWithin_array.mp h
    obtain ⟨inner', rfl⟩ := Nat.exists_eq_succ_of_ne_zero (Nat.ne_zero_of_lt hle)
    exact nestsWithin_array.mpr ⟨inner', rfl, fun e he => ih e he (Nat.le_of_succ_le_succ hle)
      (hes e he)⟩
  | object ms ih =>
    obtain ⟨inner, rfl, hms⟩ := nestsWithin_object.mp h
    obtain ⟨inner', rfl⟩ := Nat.exists_eq_succ_of_ne_zero (Nat.ne_zero_of_lt hle)
    exact nestsWithin_object.mpr ⟨inner', rfl, fun m hm => ih m hm (Nat.le_of_succ_le_succ hle)
      (hms m hm)⟩
  | _ => cases limit' <;> rfl

/-! ### Members -/

/-- The values of the members under a key, in order. -/
def valuesUnder (key : Text) (members : List (Text × Value)) : List Value :=
  (members.filter (·.1 == key)).map (·.2)

theorem mem_valuesUnder {key : Text} {members : List (Text × Value)} {v : Value} :
    v ∈ valuesUnder key members ↔ (key, v) ∈ members := by
  simp [valuesUnder]

theorem valuesUnder_eq_nil {key : Text} {members : List (Text × Value)} :
    valuesUnder key members = [] ↔ key ∉ members.map (·.1) := by
  simp [List.eq_nil_iff_forall_not_mem, mem_valuesUnder]

theorem valuesUnder_map (key : Text) (f : Value → Value) (members : List (Text × Value)) :
    valuesUnder key (members.map fun m => (m.1, f m.2)) = (valuesUnder key members).map f := by
  simp only [valuesUnder, List.filter_map, List.map_map, Function.comp_def]

theorem valuesUnder_append (key : Text) (members members' : List (Text × Value)) :
    valuesUnder key (members ++ members') =
      valuesUnder key members ++ valuesUnder key members' := by
  rw [valuesUnder, List.filter_append, List.map_append]
  rfl

theorem valuesUnder_flatMap {α : Type} (key : Text) (f : α → List (Text × Value)) (l : List α) :
    valuesUnder key (l.flatMap f) = l.flatMap fun a => valuesUnder key (f a) := by
  simp only [valuesUnder, List.filter_flatMap, List.map_flatMap]

/-- Looking up a key finds the first value under it. -/
theorem lookup_eq_head? (key : Text) (members : List (Text × Value)) :
    members.lookup key = (valuesUnder key members).head? := by
  induction members with
  | nil => rfl
  | cons m members ih =>
    rw [List.lookup_cons, valuesUnder, List.filter_cons, ih, BEq.comm]
    split <;> simp_all [valuesUnder]

section
variable {members : List (Text × Value)} (h : (members.map (·.1)).Nodup)
include h

/-- Under a key that comes once there is one value. -/
theorem valuesUnder_eq_toList (key : Text) :
    valuesUnder key members = (members.lookup key).toList := by
  have hlength : (valuesUnder key members).length ≤ 1 := by
    have hcount := List.nodup_iff_count_le_one.mp h key
    rwa [List.count, List.countP_map, List.countP_eq_length_filter,
      ← List.length_map (·.2)] at hcount
  rw [lookup_eq_head?]
  match valuesUnder key members, hlength with
  | [], _ => rfl
  | [_], _ => rfl

theorem lookup_eq_some_iff {key : Text} {v : Value} :
    members.lookup key = some v ↔ (key, v) ∈ members := by
  rw [← mem_valuesUnder, valuesUnder_eq_toList h, Option.mem_toList]

theorem valuesUnder_eq_singleton {m : Text × Value} (hm : m ∈ members) :
    valuesUnder m.1 members = [m.2] := by
  rw [valuesUnder_eq_toList h, (lookup_eq_some_iff h).mpr hm]
  rfl

end

/-! ### Putting members -/

/-- A member under a new key comes last. -/
theorem put_eq_append {members : List (Text × Value)} {key : Text} {v : Value}
    (h : key ∉ members.map (·.1)) : put members key v = members ++ [(key, v)] := by
  induction members with
  | nil => rfl
  | cons m members ih =>
    rw [List.map_cons, List.mem_cons, not_or] at h
    rw [put, if_neg (Ne.symm h.1), ih h.2, List.cons_append]

theorem put_of_nodup {members later : List (Text × Value)} {key : Text} {v : Value}
    (h : ((members ++ (key, v) :: later).map (·.1)).Nodup) :
    put members key v = members ++ [(key, v)] := by
  refine put_eq_append fun hmem => ?_
  rw [List.map_append, List.nodup_append] at h
  exact h.2.2 key hmem key List.mem_cons_self rfl

theorem mem_put {members : List (Text × Value)} {key : Text} {v : Value} {m : Text × Value}
    (h : m ∈ put members key v) : m = (key, v) ∨ m ∈ members := by
  induction members with
  | nil => exact .inl (List.mem_singleton.mp h)
  | cons n members ih =>
    rw [put] at h
    split at h
    · next hkey =>
      rcases List.mem_cons.mp h with rfl | h
      · exact .inl (by rw [hkey])
      · exact .inr (.tail _ h)
    · rcases List.mem_cons.mp h with rfl | h
      · exact .inr List.mem_cons_self
      · exact (ih h).imp_right (.tail _)

theorem nodup_keys_put {members : List (Text × Value)} (h : (members.map (·.1)).Nodup)
    (key : Text) (v : Value) : ((put members key v).map (·.1)).Nodup := by
  induction members with
  | nil => exact List.nodup_singleton key
  | cons n members ih =>
    rw [List.map_cons, List.nodup_cons] at h
    rw [put]
    split
    · exact List.nodup_cons.mpr h
    · next hkey =>
      refine List.nodup_cons.mpr ⟨fun hmem => ?_, ih h.2⟩
      obtain ⟨m, hm, heq⟩ := List.mem_map.mp hmem
      rcases mem_put hm with rfl | hm
      · exact hkey heq.symm
      · exact h.1 (List.mem_map.mpr ⟨m, hm, heq⟩)

/-! ### JSON values -/

/-- The values that JSON has, with either form of arrays. -/
inductive IsJson : Value → Prop
  | null : IsJson .null
  | bool (b : Bool) : IsJson (.bool b)
  | int (i : Int) : IsJson (.int i)
  | float (x : Binary64) : IsJson (.float x)
  | string (t : Text) : IsJson (.string t)
  | array {form : ArrayForm} {es : List Value} : (∀ e ∈ es, IsJson e) → IsJson (.array form es)
  | object {ms : List (Text × Value)} : (ms.map (·.1)).Nodup → (∀ m ∈ ms, IsJson m.2) →
    IsJson (.object ms)

/-- The JSON values as text decodes to them: every array is a list. -/
inductive IsDecoded : Value → Prop
  | null : IsDecoded .null
  | bool (b : Bool) : IsDecoded (.bool b)
  | int (i : Int) : IsDecoded (.int i)
  | float (x : Binary64) : IsDecoded (.float x)
  | string (t : Text) : IsDecoded (.string t)
  | list {es : List Value} : (∀ e ∈ es, IsDecoded e) → IsDecoded (.list es)
  | object {ms : List (Text × Value)} : (ms.map (·.1)).Nodup → (∀ m ∈ ms, IsDecoded m.2) →
    IsDecoded (.object ms)

theorem isDecoded_list {es : List Value} : (list es).IsDecoded ↔ ∀ e ∈ es, e.IsDecoded := by
  refine ⟨fun h => ?_, .list⟩
  cases h with | list h => exact h

theorem isDecoded_object {ms : List (Text × Value)} :
    (object ms).IsDecoded ↔ (ms.map (·.1)).Nodup ∧ ∀ m ∈ ms, m.2.IsDecoded := by
  refine ⟨fun h => ?_, fun h => .object h.1 h.2⟩
  cases h with | object hkeys h => exact ⟨hkeys, h⟩

theorem IsDecoded.isJson {v : Value} (h : v.IsDecoded) : v.IsJson := by
  induction h with
  | null => exact .null
  | bool b => exact .bool b
  | int i => exact .int i
  | float x => exact .float x
  | string t => exact .string t
  | list _ ih => exact .array ih
  | object hkeys _ ih => exact .object hkeys ih

end JsonSurvey.Value
