import JsonSurvey.Coordinate
import JsonSurvey.Kind
import JsonSurvey.Proofs.Value

/-! Paths into values. A path goes from a list of values to the list of all values that its steps
lead to, in document order (`reached`), and what a value shows on the way is its kind, the keys of
its members and whether it mentions a coordinate. -/

namespace JsonSurvey

theorem Kind.tag_injective : Function.Injective Kind.tag := by
  intro kind kind' h
  cases kind <;> cases kind' <;> first | rfl | exact absurd h (by decide)

namespace Value

/-! ### Steps -/

/-- A step into a value: to the member under a key, or to the elements. -/
inductive Step
  | property (key : Text)
  | element

/-- The values that a step leads to. -/
def Step.targets : Step → Value → List Value
  | .property key, .object ms => (ms.lookup key).toList
  | .element, .array _ es => es
  | _, _ => []

/-- Whether a value has what a step looks for: an object with the key, or an array. -/
def Step.appliesTo : Step → Value → Bool
  | .property key, .object ms => ms.any (·.1 == key)
  | .element, .array _ _ => true
  | _, _ => false

/-- The values that a path leads to from any of the given ones, in document order. -/
def reached (vs : List Value) (path : List Step) : List Value :=
  path.foldl (fun vs step => vs.flatMap step.targets) vs

theorem reached_cons (vs : List Value) (step : Step) (path : List Step) :
    reached vs (step :: path) = reached (vs.flatMap step.targets) path := rfl

theorem reached_nil_values (path : List Step) : reached [] path = [] := by
  induction path with
  | nil => rfl
  | cons step path ih => exact ih

/-! ### What a value shows -/

/-- The kinds of those values that have one. -/
def kinds (vs : List Value) : List Kind := vs.filterMap fun v => v.kind.toOption

/-- The members of an object. -/
def members : Value → List (Text × Value)
  | .object ms => ms
  | _ => []

/-- The keys of an object. -/
def keys (v : Value) : List Text := v.members.map (·.1)

/-- The elements of a value that is an array. -/
def elements? : Value → Option (List Value)
  | .array _ es => some es
  | _ => none

/-- Whether a value is a string that mentions a coordinate. -/
def isMention : Value → Bool
  | .string t => (Coordinate.mention? t).isSome
  | _ => false

theorem mem_kinds {vs : List Value} {kind : Kind} :
    kind ∈ kinds vs ↔ ∃ v ∈ vs, v.kind = .ok kind := by
  rw [kinds, List.mem_filterMap]
  refine exists_congr fun v => and_congr_right fun _ => ?_
  cases v.kind <;> simp [Except.toOption]

theorem any_isMention {vs : List Value} :
    vs.any isMention = true ↔ ∃ t, .string t ∈ vs ∧ (Coordinate.mention? t).isSome := by
  rw [List.any_eq_true]
  constructor
  · rintro ⟨v, hv, hmention⟩
    cases v with
    | string t => exact ⟨t, hv, hmention⟩
    | _ => contradiction
  · rintro ⟨t, ht, hmention⟩
    exact ⟨_, ht, hmention⟩

theorem any_appliesTo_property {key : Text} {vs : List Value} :
    vs.any (Step.property key).appliesTo = true ↔ key ∈ vs.flatMap keys := by
  rw [List.any_eq_true, List.mem_flatMap]
  refine exists_congr fun v => and_congr_right fun _ => ?_
  cases v <;> simp [Step.appliesTo, keys, members]

theorem any_appliesTo_element (vs : List Value) :
    vs.any Step.element.appliesTo = (kinds vs).contains .array := by
  rw [Bool.eq_iff_iff, List.any_eq_true, List.contains_iff_mem, mem_kinds]
  refine exists_congr fun v => and_congr_right fun _ => ?_
  cases v <;> simp [Step.appliesTo, kind]

theorem targets_eq_nil {step : Step} {v : Value} (h : step.appliesTo v = false) :
    step.targets v = [] := by
  cases step with
  | property key =>
    cases v with
    | object ms =>
      have hkey : ∀ m ∈ ms, key ≠ m.1 := fun m hm heq => by
        simpa [heq] using List.any_eq_false.mp h m hm
      rw [Step.targets, List.lookup_eq_none_iff.mpr fun m hm => by simpa using hkey m hm]
      rfl
    | _ => rfl
  | element => cases v <;> first | rfl | contradiction

theorem flatMap_targets_eq_nil {step : Step} {vs : List Value}
    (h : vs.any step.appliesTo = false) : vs.flatMap step.targets = [] := by
  rw [List.flatMap_eq_nil_iff]
  exact fun v hv => targets_eq_nil (Bool.eq_false_iff.mpr (List.any_eq_false.mp h v hv))

theorem mem_of_lookup {ms : List (Text × Value)} {key : Text} {v : Value}
    (h : ms.lookup key = some v) : (key, v) ∈ ms := by
  rw [lookup_eq_head?] at h
  exact mem_valuesUnder.mp (List.mem_of_head? h)

theorem exists_limit_of_appliesTo {step : Step} {v : Value} {limit : Nat}
    (hv : v.nestsWithin limit = true) (happlies : step.appliesTo v = true) :
    ∃ inner, limit = inner + 1 := by
  cases v with
  | array form es => exact (nestsWithin_array.mp hv).imp fun _ h => h.1
  | object ms => exact (nestsWithin_object.mp hv).imp fun _ h => h.1
  | _ => cases step <;> contradiction

theorem nestsWithin_target {step : Step} {v w : Value} {limit : Nat}
    (hv : v.nestsWithin (limit + 1) = true) (hw : w ∈ step.targets v) :
    w.nestsWithin limit = true := by
  cases v with
  | array form es =>
    obtain ⟨_, ⟨⟩, hes⟩ := nestsWithin_array.mp hv
    cases step with
    | property key => contradiction
    | element => exact hes w hw
  | object ms =>
    obtain ⟨_, ⟨⟩, hms⟩ := nestsWithin_object.mp hv
    cases step with
    | property key => exact hms (key, w) (mem_of_lookup (Option.mem_toList.mp hw))
    | element => contradiction
  | _ => cases step <;> contradiction

/-- What a step leads to nests less deeply than what it leads from. -/
theorem nestsWithin_targets {step : Step} {vs : List Value} {limit : Nat}
    (hvs : ∀ v ∈ vs, v.nestsWithin limit = true) (happlies : vs.any step.appliesTo = true) :
    ∃ inner, limit = inner + 1 ∧
      ∀ w ∈ vs.flatMap step.targets, w.nestsWithin inner = true := by
  obtain ⟨v, hv, happly⟩ := List.any_eq_true.mp happlies
  obtain ⟨inner, rfl⟩ := exists_limit_of_appliesTo (hvs v hv) happly
  refine ⟨inner, rfl, fun w hw => ?_⟩
  obtain ⟨u, hu, hmem⟩ := List.mem_flatMap.mp hw
  exact nestsWithin_target (hvs u hu) hmem

/-! ### Paths that lead somewhere -/

/-- A path leads somewhere if it has no step, or if its last step applies to a value that the steps
before it lead to. -/
def Leads (vs : List Value) (path : List Step) : Prop :=
  path = [] ∨ ∃ front step, path = front ++ [step] ∧ (reached vs front).any step.appliesTo = true

theorem leads_cons {vs : List Value} {step : Step} {path : List Step} :
    Leads vs (step :: path) ↔
      vs.any step.appliesTo = true ∧ Leads (vs.flatMap step.targets) path := by
  constructor
  · rintro (h | ⟨front, last, hpath, hlast⟩)
    · contradiction
    · cases front with
      | nil =>
        obtain ⟨rfl, rfl⟩ := List.cons.inj hpath
        exact ⟨hlast, .inl rfl⟩
      | cons first front =>
        obtain ⟨rfl, rfl⟩ := List.cons.inj hpath
        refine ⟨?_, .inr ⟨front, last, rfl, hlast⟩⟩
        by_contra happlies
        rw [reached_cons, flatMap_targets_eq_nil (Bool.eq_false_iff.mpr happlies),
          reached_nil_values] at hlast
        contradiction
  · rintro ⟨happlies, rfl | ⟨front, last, rfl, hlast⟩⟩
    · exact .inr ⟨[], step, rfl, happlies⟩
    · exact .inr ⟨step :: front, last, rfl, hlast⟩

/-- A path that leads to a value leads somewhere. -/
theorem leads_of_mem_reached {w : Value} {vs : List Value} {path : List Step}
    (h : w ∈ reached vs path) : Leads vs path := by
  induction path generalizing vs with
  | nil => exact .inl rfl
  | cons step path ih =>
    rw [reached_cons] at h
    refine leads_cons.mpr ⟨?_, ih h⟩
    by_contra happlies
    rw [flatMap_targets_eq_nil (Bool.eq_false_iff.mpr happlies), reached_nil_values] at h
    contradiction

/-! ### JSON values on a path -/

namespace IsJson
variable {v : Value} (h : v.IsJson)
include h

theorem exists_kind : ∃ kind, v.kind = .ok kind := by
  cases h <;> exact ⟨_, rfl⟩

theorem nodup_keys : v.keys.Nodup := by
  cases h with
  | object hkeys _ => exact hkeys
  | _ => exact List.nodup_nil

theorem members {m : Text × Value} (hm : m ∈ v.members) : m.2.IsJson := by
  cases h with
  | object _ h => exact h m hm
  | _ => contradiction

theorem elements {es : List Value} (hes : v.elements? = some es) : ∀ e ∈ es, e.IsJson := by
  cases h with
  | array h => cases hes; exact h
  | _ => contradiction

theorem valuesUnder_members (key : Text) :
    valuesUnder key v.members = (Step.property key).targets v := by
  rw [valuesUnder_eq_toList h.nodup_keys]
  cases h <;> rfl

end IsJson

theorem targets_element (v : Value) : Step.element.targets v = v.elements?.getD [] := by
  cases v <;> rfl

theorem flatten_elements? (vs : List Value) :
    (vs.filterMap elements?).flatten = vs.flatMap Step.element.targets := by
  induction vs with
  | nil => rfl
  | cons v vs ih =>
    rw [List.filterMap_cons, List.flatMap_cons, ← ih, targets_element]
    cases v.elements? <;> rfl

/-- An object has a key exactly if the key leads to a value of some kind. -/
theorem IsJson.any_appliesTo_property {vs : List Value} (h : ∀ v ∈ vs, v.IsJson) {key : Text} :
    vs.any (Step.property key).appliesTo = true ↔
      ∃ kind, kind ∈ kinds (vs.flatMap (Step.property key).targets) := by
  simp only [Value.any_appliesTo_property, mem_kinds, List.mem_flatMap, keys, List.mem_map]
  constructor
  · rintro ⟨v, hv, m, hm, rfl⟩
    obtain ⟨kind, hkind⟩ := ((h v hv).members hm).exists_kind
    refine ⟨kind, m.2, ⟨v, hv, ?_⟩, hkind⟩
    rw [← (h v hv).valuesUnder_members, mem_valuesUnder]
    exact hm
  · rintro ⟨kind, w, ⟨v, hv, hw⟩, hkind⟩
    rw [← (h v hv).valuesUnder_members, mem_valuesUnder] at hw
    exact ⟨v, hv, _, hw, rfl⟩

theorem IsJson.targets {v w : Value} (h : v.IsJson) {step : Step} (hw : w ∈ step.targets v) :
    w.IsJson := by
  cases step with
  | property key =>
    rw [← h.valuesUnder_members, mem_valuesUnder] at hw
    exact h.members hw
  | element =>
    rw [targets_element] at hw
    cases hes : v.elements? with
    | none => rw [hes] at hw; contradiction
    | some es => rw [hes] at hw; exact h.elements hes w hw

theorem IsJson.flatMap_targets {vs : List Value} (h : ∀ v ∈ vs, v.IsJson) {step : Step} :
    ∀ w ∈ vs.flatMap step.targets, w.IsJson := by
  intro w hw
  obtain ⟨v, hv, hmem⟩ := List.mem_flatMap.mp hw
  exact (h v hv).targets hmem

theorem IsJson.reached {vs : List Value} (h : ∀ v ∈ vs, v.IsJson) (path : List Step) :
    ∀ w ∈ reached vs path, w.IsJson := by
  induction path generalizing vs with
  | nil => exact h
  | cons step path ih => exact ih (flatMap_targets h)

/-! ### Parts of a value -/

/-- A value is a part of another if a path leads to it, so that every value is a part of itself. -/
def IsPart (w v : Value) : Prop := ∃ path, w ∈ reached [v] path

/-- A path leads from some values to what it leads to from each of them. -/
theorem reached_eq_flatMap (vs : List Value) (path : List Step) :
    reached vs path = vs.flatMap fun v => reached [v] path := by
  induction path generalizing vs with
  | nil => exact (List.flatMap_singleton' vs).symm
  | cons step path ih =>
    rw [reached_cons, ih, List.flatMap_assoc]
    refine List.flatMap_congr fun v _ => ?_
    rw [reached_cons, List.flatMap_singleton, ih]

/-- The parts of a value are the value and the parts of what a step leads to. -/
theorem isPart_iff {w v : Value} :
    w.IsPart v ↔ w = v ∨ ∃ step : Step, ∃ u ∈ step.targets v, w.IsPart u := by
  have hcons (step : Step) (path : List Step) :
      w ∈ reached [v] (step :: path) ↔ ∃ u ∈ step.targets v, w ∈ reached [u] path := by
    rw [reached_cons, List.flatMap_singleton, reached_eq_flatMap, List.mem_flatMap]
  constructor
  · rintro ⟨_ | ⟨step, path⟩, hw⟩
    · exact .inl (List.mem_singleton.mp hw)
    · obtain ⟨u, hu, hw⟩ := (hcons step path).mp hw
      exact .inr ⟨step, u, hu, path, hw⟩
  · rintro (rfl | ⟨step, u, hu, path, hw⟩)
    · exact ⟨[], List.mem_singleton_self _⟩
    · exact ⟨step :: path, (hcons step path).mpr ⟨u, hu, hw⟩⟩

theorem isPart_leaf {w v : Value} (harray : ∀ form es, v ≠ .array form es)
    (hobject : ∀ ms, v ≠ .object ms) : w.IsPart v ↔ w = v := by
  rw [isPart_iff]
  refine or_iff_left ?_
  rintro ⟨step, u, hu, _⟩
  cases v with
  | array form es => exact harray form es rfl
  | object ms => exact hobject ms rfl
  | _ => cases step <;> contradiction

theorem isPart_array {w : Value} {form : ArrayForm} {es : List Value} :
    w.IsPart (.array form es) ↔ w = .array form es ∨ ∃ e ∈ es, w.IsPart e := by
  rw [isPart_iff]
  refine or_congr_right ⟨?_, ?_⟩
  · rintro ⟨_ | _, u, hu, hw⟩
    · contradiction
    · exact ⟨u, hu, hw⟩
  · rintro ⟨e, he, hw⟩
    exact ⟨.element, e, he, hw⟩

theorem isPart_object {w : Value} {ms : List (Text × Value)} (hkeys : (ms.map (·.1)).Nodup) :
    w.IsPart (.object ms) ↔ w = .object ms ∨ ∃ m ∈ ms, w.IsPart m.2 := by
  rw [isPart_iff]
  refine or_congr_right ⟨?_, ?_⟩
  · rintro ⟨key | _, u, hu, hw⟩
    · exact ⟨(key, u), mem_of_lookup (Option.mem_toList.mp hu), hw⟩
    · contradiction
  · rintro ⟨m, hm, hw⟩
    exact ⟨.property m.1, m.2, Option.mem_toList.mpr ((lookup_eq_some_iff hkeys).mpr hm), hw⟩

end Value
end JsonSurvey
