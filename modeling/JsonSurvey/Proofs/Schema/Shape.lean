import JsonSurvey.Proofs.Json.Compact
import JsonSurvey.Proofs.Schema.Canonical
import JsonSurvey.Proofs.Schema.Extraction

/-! The key of a schema as an invariant of shape. Two lists of values have one shape if every path
reaches values of the same kinds in both, and mentions of coordinates in both or in none
(`SameShape`). A summary has a canonical form, which is made of texts and flags alone, so that its
compact text tells the form (`canonicalKey_summary`); and the form tells the shape and nothing else.
That it tells the shape is shown along a path (`sameShape_of_canonical_eq`), that it tells nothing
else along the nesting of the values (`canonical_summary_congr`), both by one step into the
summaries. -/

namespace JsonSurvey.Schema

open Value (Step reached kinds)
open Json (IsTextual)

/-! ### Canonical forms are textual -/

theorem isTextual_strings (names : List Text) : IsTextual (.list (names.map .string)) := by
  refine .list fun e he => ?_
  obtain ⟨t, _, rfl⟩ := List.mem_map.mp he
  exact .string t

/-- A schema in normal form is made of texts and flags. -/
theorem IsNormal.isTextual {node : Value} (h : IsNormal node) : IsTextual node := by
  induction h with
  | @node names properties items coordinate _ _ _ hkeys _ _ ihp ihi =>
    rw [node_eq_object]
    refine .object nodup_keys_nodeMembers (forall_mem_nodeMembers.mpr
      ⟨?_, fun ps hps => .object (hkeys ps hps) (ihp ps hps), ihi, fun _ => .bool true⟩)
    match names with
    | [] => exact isTextual_strings []
    | [t] => exact .string t
    | s :: t :: names => exact isTextual_strings (s :: t :: names)

/-- Canonical forms of textual values are textual. -/
theorem isTextual_canonical {v : Value} (h : IsTextual v) (hunions : HasTextUnions v) :
    IsTextual (canonical v) := by
  induction h with
  | null => exact .null
  | bool b => exact .bool b
  | string t => exact .string t
  | @list es hes ih =>
    have helements := hasTextUnions_array.mp hunions
    rw [canonical, canonicalAll_eq_map]
    refine .list fun e he => ?_
    obtain ⟨e, hmem, rfl⟩ := List.mem_map.mp he
    exact ih e hmem (helements e hmem)
  | @object ms hkeys hms ih =>
    obtain ⟨hmembers, htype⟩ := hasTextUnions_object.mp hunions
    rw [canonical_object]
    refine .object ?_ fun m hm => ?_
    · rw [((sortMembers_perm _).map _).nodup_iff, List.map_map]
      exact hkeys
    · obtain ⟨⟨key, v⟩, hmem, rfl⟩ := List.mem_map.mp (mem_sortMembers.mp hm)
      by_cases hkey : key = typeKey
      · subst hkey
        cases v with
        | array form ts =>
          rw [eq_map_string (htype form ts hmem), canonicalUnder_map_string]
          exact isTextual_strings _
        | _ => exact ih _ hmem (hmembers _ hmem)
      · rw [canonicalUnder_of_ne hkey]
        exact ih _ hmem (hmembers _ hmem)

/-! ### Summaries have keys -/

theorem nestsWithin_typeOfTags (names : List Text) (limit : Nat) :
    (typeOfTags (names.map .string)).nestsWithin (limit + 1) = true := by
  match names with
  | [] => rfl
  | [t] => rfl
  | s :: t :: names =>
    exact (nestsWithin_strings .list (s :: t :: names) _).trans (decide_eq_true (Nat.succ_pos _))

section
variable {vs ws : List Value} (h : ∀ v ∈ vs, v.IsJson)
include h

theorem isNormal_summary : IsNormal (summary vs) := merged_isNormal (textTagged_map_outline h)

/-- A summary nests twice as deeply as the values, and holds the lists of tags besides. -/
theorem nestsWithin_summary {limit : Nat} (hdepth : ∀ v ∈ vs, v.nestsWithin limit = true) :
    (summary vs).nestsWithin (2 * limit + 2) = true := by
  induction limit using Nat.strongRecOn generalizing vs with
  | ind limit ih =>
    have hstep : ∀ step : Step, vs.any step.appliesTo = true →
        (summary (vs.flatMap step.targets)).nestsWithin (2 * limit) = true := by
      intro step happlies
      obtain ⟨inner, rfl, hinner⟩ := Value.nestsWithin_targets hdepth happlies
      exact ih inner (Nat.lt_succ_self _) (Value.IsJson.flatMap_targets h) hinner
    rw [summary_eq h, node_eq_object, Value.nestsWithin_object]
    refine ⟨2 * limit + 1, rfl, forall_mem_nodeMembers.mpr
      ⟨nestsWithin_typeOfTags _ _, fun ps hps => ?_, fun s hs => ?_, fun _ => rfl⟩⟩
    · obtain ⟨_, ⟨⟩⟩ := Option.ite_none_right_eq_some.mp hps
      refine Value.nestsWithin_object.mpr ⟨2 * limit, rfl, fun m hm => ?_⟩
      obtain ⟨key, hkey, rfl⟩ := List.mem_map.mp hm
      exact hstep (.property key) (Value.any_appliesTo_property.mpr (mem_firstOccurrences.mp hkey))
    · obtain ⟨harray, ⟨⟩⟩ := Option.ite_none_right_eq_some.mp hs
      rw [← Value.any_appliesTo_element] at harray
      exact Value.nestsWithin_mono (Nat.le_succ _) (hstep .element harray)

theorem isTextual_canonical_summary : IsTextual (canonical (summary vs)) :=
  isTextual_canonical (isNormal_summary h).isTextual (isNormal_summary h).hasTextUnions

theorem nestsWithin_canonical_summary (hdepth : ∀ v ∈ vs, v.nestsWithin maxDepth = true) :
    (canonical (summary vs)).nestsWithin Json.maxDepth = true := by
  rw [(isNormal_summary h).hasTextUnions.nestsWithin_canonical]
  exact Value.nestsWithin_mono (by decide) (nestsWithin_summary h hdepth)

theorem canonicalize_summary (hdepth : ∀ v ∈ vs, v.nestsWithin maxDepth = true) :
    canonicalize (summary vs) = .ok (canonical (summary vs)) := by
  apply canonicalize_eq_ok (isNormal_summary h).hasTextUnions
  exact Value.nestsWithin_mono (by decide) (nestsWithin_summary h hdepth)

/-- The key of a summary is the compact text of its canonical form. -/
theorem canonicalKey_summary (hdepth : ∀ v ∈ vs, v.nestsWithin maxDepth = true) :
    canonicalKey (summary vs) = .ok (Json.compact Foreign.name (canonical (summary vs))) := by
  rw [canonicalKey, canonicalize_summary h hdepth]
  change compactText _ = _
  rw [compactText, (isTextual_canonical_summary h).textFault?_eq_none]

end

/-! ### Shapes -/

/-- Every path reaches values of the same kinds from both lists, and mentions of coordinates from
both or from none. -/
def SameShape (vs ws : List Value) : Prop :=
  ∀ path, (∀ kind, kind ∈ kinds (reached vs path) ↔ kind ∈ kinds (reached ws path)) ∧
    (reached vs path).any Value.isMention = (reached ws path).any Value.isMention

theorem SameShape.mem_kinds {vs ws : List Value} (h : SameShape vs ws) (kind : Kind) :
    kind ∈ kinds vs ↔ kind ∈ kinds ws := (h []).1 kind

theorem SameShape.flatMap_targets {vs ws : List Value} (h : SameShape vs ws) (step : Step) :
    SameShape (vs.flatMap step.targets) (ws.flatMap step.targets) := fun path => h (step :: path)

theorem canonicalUnder_summary (key : Text) (vs : List Value) :
    canonicalUnder key (summary vs) = canonical (summary vs) := canonicalUnder_merged key _

/-- Steps go through canonical forms as they go through nodes. -/
theorem exists_next?_canonical (step : Step) (node : Value) :
    ∃ key, next? step (canonical node) = (next? step node).map (canonicalUnder key) := by
  cases step with
  | property key =>
    refine ⟨key, ?_⟩
    rw [next?, next?, member?_canonical]
    cases member? propertiesKey node with
    | none => rfl
    | some ps =>
      rw [Option.map_some, canonicalUnder_properties]
      exact member?_canonical key ps
  | element => exact ⟨itemsKey, member?_canonical itemsKey node⟩

section
variable {vs ws : List Value} (hvs : ∀ v ∈ vs, v.IsJson) (hws : ∀ w ∈ ws, w.IsJson)
include hvs

theorem next?_canonical_summary (step : Step) :
    next? step (canonical (summary vs)) =
      if vs.any step.appliesTo then some (canonical (summary (vs.flatMap step.targets)))
      else none := by
  obtain ⟨key, hnext⟩ := exists_next?_canonical step (summary vs)
  rw [hnext, next?_summary hvs]
  split
  · exact congrArg some (canonicalUnder_summary key _)
  · rfl

theorem mem_tagNames_summary (kind : Kind) :
    kind.tag ∈ tagNames (summary vs) ↔ kind ∈ kinds vs := by
  rw [summary, tagNames_merged (textTagged_map_outline hvs), unionNames_map_outline hvs,
    List.mem_map_of_injective Kind.tag_injective, mem_firstOccurrences]

theorem marksCoordinate_summary : marksCoordinate (summary vs) = vs.any Value.isMention := by
  rw [summary_eq hvs, marksCoordinate_node]

include hws

/-- Summaries with one canonical form are of values with one shape. -/
theorem sameShape_of_canonical_eq (h : canonical (summary vs) = canonical (summary ws)) :
    SameShape vs ws := by
  intro path
  induction path generalizing vs ws with
  | nil =>
    refine ⟨fun kind => ?_, ?_⟩
    · rw [reached, reached, List.foldl_nil, List.foldl_nil, ← mem_tagNames_summary hvs,
        ← mem_tagNames_summary hws]
      exact mem_tagNames_congr (isNormal_summary hvs).hasTextTags
        (isNormal_summary hws).hasTextTags h
    · rw [reached, reached, List.foldl_nil, List.foldl_nil, ← marksCoordinate_summary hvs,
        ← marksCoordinate_summary hws, ← marksCoordinate_canonical, h, marksCoordinate_canonical]
  | cons step path ih =>
    have hnext := congrArg (next? step) h
    rw [next?_canonical_summary hvs, next?_canonical_summary hws] at hnext
    rw [Value.reached_cons, Value.reached_cons]
    split at hnext
    · split at hnext
      · exact ih (Value.IsJson.flatMap_targets hvs) (Value.IsJson.flatMap_targets hws)
          (Option.some.inj hnext)
      · contradiction
    · next hvs' =>
      split at hnext
      · contradiction
      · next hws' =>
        rw [Value.flatMap_targets_eq_nil (Bool.eq_false_iff.mpr hvs'),
          Value.flatMap_targets_eq_nil (Bool.eq_false_iff.mpr hws')]
        exact ⟨fun _ => .rfl, rfl⟩

theorem SameShape.any_appliesTo (h : SameShape vs ws) (step : Step) :
    vs.any step.appliesTo = ws.any step.appliesTo := by
  rw [Bool.eq_iff_iff]
  cases step with
  | property key =>
    rw [Value.IsJson.any_appliesTo_property hvs, Value.IsJson.any_appliesTo_property hws]
    exact exists_congr (h [.property key]).1
  | element =>
    rw [Value.any_appliesTo_element, Value.any_appliesTo_element, List.contains_iff_mem,
      List.contains_iff_mem]
    exact h.mem_kinds .array

end

/-- Values with one shape have summaries with one canonical form. -/
theorem canonical_summary_congr {vs ws : List Value} (hvs : ∀ v ∈ vs, v.IsJson)
    (hws : ∀ w ∈ ws, w.IsJson) {limit : Nat} (hdepth : ∀ v ∈ vs, v.nestsWithin limit = true)
    (h : SameShape vs ws) : canonical (summary vs) = canonical (summary ws) := by
  -- a step gathers targets from several values, so what goes down is the depth, not a value
  induction limit using Nat.strongRecOn generalizing vs ws with
  | ind limit ih =>
    have hstep : ∀ step : Step, vs.any step.appliesTo = true →
        canonical (summary (vs.flatMap step.targets)) =
          canonical (summary (ws.flatMap step.targets)) := by
      intro step happlies
      obtain ⟨inner, rfl, hinner⟩ := Value.nestsWithin_targets hdepth happlies
      exact ih inner (Nat.lt_succ_self _) (Value.IsJson.flatMap_targets hvs)
        (Value.IsJson.flatMap_targets hws) hinner (h.flatMap_targets step)
    have hkinds : ∀ kind, (kinds vs).contains kind = (kinds ws).contains kind := fun kind => by
      rw [Bool.eq_iff_iff, List.contains_iff_mem, List.contains_iff_mem, h.mem_kinds]
    have hkeys : (firstOccurrences (· == ·) (vs.flatMap Value.keys)).Perm
        (firstOccurrences (· == ·) (ws.flatMap Value.keys)) := by
      refine perm_firstOccurrences fun key => ?_
      rw [← Value.any_appliesTo_property, h.any_appliesTo hvs hws, Value.any_appliesTo_property]
    have hmention : vs.any Value.isMention = ws.any Value.isMention := (h []).2
    have hproperties : canonical (.object ((firstOccurrences (· == ·) (vs.flatMap Value.keys)).map
          fun key => (key, summary (vs.flatMap (Step.property key).targets)))) =
        canonical (.object ((firstOccurrences (· == ·) (ws.flatMap Value.keys)).map
          fun key => (key, summary (ws.flatMap (Step.property key).targets)))) := by
      refine canonical_object_congr (nodup_firstOccurrences _) hkeys fun key hkey => ?_
      rw [canonicalUnder_summary, canonicalUnder_summary]
      exact hstep (.property key) (Value.any_appliesTo_property.mpr (mem_firstOccurrences.mp hkey))
    rw [summary_eq hvs, summary_eq hws, hkinds, hkinds, hmention]
    refine canonical_node_congr ?_ ?_ ?_
    · rw [canonicalUnder_typeOfTags, canonicalUnder_typeOfTags,
        sortTexts_eq_of_perm ((perm_firstOccurrences h.mem_kinds).map Kind.tag)]
    · split
      · exact congrArg some hproperties
      · rfl
    · split
      · next harray =>
        rw [← hkinds, ← Value.any_appliesTo_element] at harray
        exact congrArg some (hstep .element harray)
      · rfl

/-! ### The key of a document -/

theorem canonicalKey_extract {v : Value} (h : v.IsJson) (hdepth : v.nestsWithin maxDepth = true) :
    (extract v >>= canonicalKey) =
      .ok (Json.compact Foreign.name (canonical (summary [v]))) := by
  rw [extract_eq h hdepth]
  exact canonicalKey_summary (by simpa using h) (by simpa using hdepth)

/-- Every JSON value that does not nest too deeply has a key, and two of them have one key exactly
if they have one shape. -/
theorem canonicalKey_extract_eq_iff {v w : Value} (hv : v.IsJson) (hw : w.IsJson)
    (hdepthv : v.nestsWithin maxDepth = true) (hdepthw : w.nestsWithin maxDepth = true) :
    ∃ key key', (extract v >>= canonicalKey) = .ok key ∧ (extract w >>= canonicalKey) = .ok key' ∧
      (key = key' ↔ SameShape [v] [w]) := by
  have hvs : ∀ u ∈ [v], u.IsJson := by simpa using hv
  have hws : ∀ u ∈ [w], u.IsJson := by simpa using hw
  have hdepthvs : ∀ u ∈ [v], u.nestsWithin maxDepth = true := by simpa using hdepthv
  have hdepthws : ∀ u ∈ [w], u.nestsWithin maxDepth = true := by simpa using hdepthw
  refine ⟨_, _, canonicalKey_extract hv hdepthv, canonicalKey_extract hw hdepthw, fun h => ?_,
    fun h => ?_⟩
  · exact sameShape_of_canonical_eq hvs hws <| Json.compact_injective
      (isTextual_canonical_summary hvs) (isTextual_canonical_summary hws)
      (nestsWithin_canonical_summary hvs hdepthvs) (nestsWithin_canonical_summary hws hdepthws) h
  · rw [canonical_summary_congr hvs hws hdepthvs h]

/-- An array without elements and an array with a null have different keys. -/
theorem canonicalKey_extract_eq_iff_empty :
    let v := Value.list []
    let w := Value.list [.null]
    (v.IsJson ∧ w.IsJson ∧ v.nestsWithin maxDepth = true ∧ w.nestsWithin maxDepth = true) ∧
      ∃ key key', (extract v >>= canonicalKey) = .ok key ∧
        (extract w >>= canonicalKey) = .ok key' ∧ key ≠ key' := by
  intro v w
  have hv : v.IsJson := .array nofun
  have hw : w.IsJson := .array (by simpa using Value.IsJson.null)
  obtain ⟨key, key', hkey, hkey', hiff⟩ :=
    canonicalKey_extract_eq_iff hv hw (by decide) (by decide)
  refine ⟨⟨hv, hw, by decide, by decide⟩, key, key', hkey, hkey', fun heq => ?_⟩
  have hnull : Kind.null ∈ kinds (reached [w] [.element]) := by decide
  have hnone : Kind.null ∉ kinds (reached [v] [.element]) := by decide
  exact hnone (((hiff.mp heq) [.element]).1 .null |>.mpr hnull)

end JsonSurvey.Schema
