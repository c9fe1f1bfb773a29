import JsonSurvey.Proofs.Schema.MergedForm
import JsonSurvey.Proofs.Schema.Reordering
import JsonSurvey.Proofs.Schema.Shape

/-! The normal form of schemas through extraction, merging and canonical forms. Extraction gives
nodes in normal form at every path, with the flag of a coordinate only where strings are described
(`isNormal_nodeAt?`, `string_mem_tags_nodeAt?`); merging gives one from any nodes with text tags,
and leaves a node in normal form as it is (`merge_singleton`).

The canonical form of a node in normal form is no longer in normal form, since its members are in
another order, but its views are told by those of the node, so that it can be merged again
(`mergeable_canonical`). Merging the canonical forms of some nodes, whichever of them are repeated,
gives the canonical form that merging the nodes gives (`canonical_merged_forms`). -/

namespace JsonSurvey.Schema

open Value (Step reached kinds)

/-! ### Nodes of an extracted schema -/

section
variable {vs : List Value} (h : ∀ v ∈ vs, v.IsJson)
include h

theorem isNormal_nodeAt? {path : List Step} {node : Value}
    (hnode : nodeAt? (summary vs) path = some node) : IsNormal node := by
  obtain ⟨_, rfl⟩ := (nodeAt?_summary h).mp hnode
  exact isNormal_summary (Value.IsJson.reached h path)

theorem string_mem_tags_summary (hflag : (member? coordinateKey (summary vs)).isSome) :
    .string Kind.string.tag ∈ tags (summary vs) := by
  rw [summary_eq h, member?_coordinate_node] at hflag
  split at hflag
  · next hmention =>
    obtain ⟨t, ht, -⟩ := Value.any_isMention.mp hmention
    apply mem_tagNames.mp
    rw [mem_tagNames_summary h, Value.mem_kinds]
    exact ⟨.string t, ht, rfl⟩
  · contradiction

/-- Only a node that describes strings has the flag of a coordinate. -/
theorem string_mem_tags_nodeAt? {path : List Step} {node : Value}
    (hnode : nodeAt? (summary vs) path = some node)
    (hflag : (member? coordinateKey node).isSome) : .string Kind.string.tag ∈ tags node := by
  obtain ⟨_, rfl⟩ := (nodeAt?_summary h).mp hnode
  exact string_mem_tags_summary (Value.IsJson.reached h path) hflag

end

/-! ### Merging once more -/

/-- Merging a node in normal form alone gives the node. -/
theorem merge_singleton {node : Value} (h : IsNormal node) : merge [node] = .ok node := by
  apply merge_eq_ok_iff.mpr
  refine ⟨?_, (merged_singleton h).symm⟩
  simpa using h.everywhere fun _ => IsNormal.isSound

/-- Every JSON value that does not nest too deeply has a schema in normal form, all nodes of which
are in normal form and show the flag of a coordinate only among the tags of strings. Whatever nodes
with text tags are merged, and whatever else is in them, the result is in normal form; and a node in
normal form is what merging it alone gives. -/
theorem isNormal_extract_merge :
    (∀ v : Value, v.IsJson → v.nestsWithin maxDepth = true →
      ∃ schema, extract v = .ok schema ∧ IsNormal schema ∧
        ∀ path node, nodeAt? schema path = some node → IsNormal node ∧
          ((member? coordinateKey node).isSome → .string Kind.string.tag ∈ tags node)) ∧
      (∀ group m, TextTagged group → merge group = .ok m → IsNormal m) ∧
      ∀ node, IsNormal node → merge [node] = .ok node := by
  refine ⟨fun v hv hdepth => ?_, fun group m htags hm => ?_, fun node => merge_singleton⟩
  · have hvs : ∀ u ∈ [v], u.IsJson := by simpa using hv
    refine ⟨summary [v], extract_eq hv hdepth, isNormal_summary hvs, fun path node hnode => ?_⟩
    exact ⟨isNormal_nodeAt? hvs hnode, string_mem_tags_nodeAt? hvs hnode⟩
  · obtain ⟨-, rfl⟩ := merge_eq_ok_iff.mp hm
    exact merged_isNormal htags

/-- An array with a mention of a coordinate, and a node with a tag twice, nothing in the place of
its properties and a flag that is not a Boolean. -/
theorem isNormal_extract_merge_repeatedTag :
    let v := Value.list [.string "geo:1,2"]
    let repeated := Value.object [(coordinateKey, .int 1), (propertiesKey, .null),
      (typeKey, .list [.string Kind.object.tag, .string Kind.object.tag])]
    (v.IsJson ∧ v.nestsWithin maxDepth = true ∧ TextTagged [repeated]) ∧
      (∃ schema, extract v = .ok schema ∧ IsNormal schema) ∧
      ∃ m, merge [repeated] = .ok m ∧ IsNormal m ∧ merge [m] = .ok m := by
  intro v repeated
  have hv : v.IsJson := .array (by simpa using Value.IsJson.string _)
  have heverywhere {P : Value → Prop} (h : P repeated) : Everywhere P repeated := by
    refine .intro h (fun m hm => ?_) fun s hs => ?_
    · have hnone : ownProperties repeated = [] := rfl
      rw [hnone] at hm
      contradiction
    · have hnone : ownItems? repeated = none := rfl
      rw [hnone] at hs
      contradiction
  have htags : TextTagged [repeated] := by
    simp only [TextTagged, List.forall_mem_singleton]
    apply heverywhere
    intro t ht
    have htags : tags repeated = [Kind.object.tag, Kind.object.tag].map .string := rfl
    rw [htags] at ht
    obtain ⟨s, -, rfl⟩ := List.mem_map.mp ht
    exact ⟨s, rfl⟩
  have hmerge : merge [repeated] = .ok (merged [repeated]) := by
    apply merge_eq_ok_iff.mpr
    simpa using heverywhere ⟨rfl, rfl⟩
  obtain ⟨hextract, hnormal, hself⟩ := isNormal_extract_merge
  obtain ⟨schema, hschema, hschemaNormal, -⟩ := hextract v hv rfl
  have hm := hnormal _ _ htags hmerge
  exact ⟨⟨hv, rfl, htags⟩, ⟨schema, hschema, hschemaNormal⟩, _, hmerge, hm, hself _ hm⟩

/-! ### Canonical forms of nodes -/

theorem sortMembers_nil : sortMembers [] = [] := List.mergeSort_nil

theorem properties_canonical (node : Value) :
    properties (canonical node) =
      sortMembers ((properties node).map fun m => (m.1, canonicalUnder m.1 m.2)) := by
  rw [properties, member?_canonical, properties]
  cases member? propertiesKey node with
  | none => exact sortMembers_nil.symm
  | some v =>
    rw [Option.map_some, canonicalUnder_properties]
    cases v with
    | object ps => rw [canonical_object]
    | _ => exact sortMembers_nil.symm

/-- The canonical form of a node has its tags in order. -/
theorem tags_canonical_node {names : List Text} {properties : Option (List (Text × Value))}
    {items : Option Value} {coordinate : Bool} :
    tags (canonical (node (typeOfTags (names.map .string)) properties items coordinate)) =
      (sortTexts names).map .string := by
  apply tags_eq_of_typeOfTags
  rw [member?_canonical, member?_type_node, Option.map_some, canonicalUnder_typeOfTags]

section
variable {node : Value} (h : HasTextTags node)
include h

theorem hasKind_canonical (kind : Kind) : hasKind kind (canonical node) = hasKind kind node := by
  rw [Bool.eq_iff_iff, hasKind_iff, hasKind_iff, (tagNames_canonical_perm h).mem_iff]

theorem ownProperties_canonical :
    ownProperties (canonical node) =
      sortMembers ((ownProperties node).map fun m => (m.1, canonicalUnder m.1 m.2)) := by
  rw [ownProperties, hasKind_canonical h, properties_canonical, ownProperties]
  split
  · rfl
  · exact sortMembers_nil.symm

theorem ownItems?_canonical : ownItems? (canonical node) = (ownItems? node).map canonical := by
  rw [ownItems?, hasKind_canonical h, member?_canonical, ownItems?]
  split
  · exact congrArg (Option.map · _) (funext canonicalUnder_items)
  · rfl

end

/-- What holds of the canonical forms of nodes in normal form holds everywhere in them. -/
theorem everywhere_canonical {P : Value → Prop} (hP : ∀ node, IsNormal node → P (canonical node))
    {node : Value} (h : Everywhere IsNormal node) : Everywhere P (canonical node) := by
  induction h with
  | @intro node hnode hproperties _ ihp ihi =>
    refine .intro (hP node hnode) (fun m hm => ?_) fun s hs => ?_
    · rw [ownProperties_canonical hnode.hasTextTags, mem_sortMembers] at hm
      obtain ⟨m, hmem, rfl⟩ := List.mem_map.mp hm
      obtain ⟨members, hobject⟩ := (hproperties m hmem).here.eq_object
      have hform := ihp m hmem
      rw [hobject] at hform ⊢
      rwa [canonicalUnder_object]
    · rw [ownItems?_canonical hnode.hasTextTags] at hs
      obtain ⟨s', hs', rfl⟩ := Option.map_eq_some_iff.mp hs
      exact ihi s' hs'

namespace IsNormal
variable {node : Value} (h : IsNormal node)
include h

theorem isOrderable : IsOrderable node := ⟨h.isTextual.isDecoded, h.hasTextUnions⟩

theorem hasTextTags_canonical : HasTextTags (canonical node) := by
  cases h with
  | node =>
    intro t ht
    rw [tags_canonical_node] at ht
    obtain ⟨s, -, rfl⟩ := List.mem_map.mp ht
    exact ⟨s, rfl⟩

theorem isSound_canonical : IsSound (canonical node) := by
  cases h with
  | @node names properties =>
    constructor
    · rw [node_eq_object, canonical_object]
      rfl
    · rw [propertiesFault?, member?_canonical, member?_properties_node]
      cases properties with
      | none => simp
      | some ps => simp [canonicalUnder_object, canonical_object]

end IsNormal

section
variable {group : List Value} (h : ∀ node ∈ group, IsNormal node)
include h

theorem mergeable_of_isNormal : Mergeable group where
  textTagged := textTagged_of_isNormal h
  sound node hnode := (h node hnode).everywhere fun _ => IsNormal.isSound

/-- The canonical forms of nodes in normal form can be merged. -/
theorem mergeable_canonical {forms : List Value} (hforms : forms ⊆ group.map canonical) :
    Mergeable forms := by
  have hform {P : Value → Prop} (hP : ∀ node, IsNormal node → P (canonical node)) :
      ∀ form ∈ forms, Everywhere P form := by
    intro form hform
    obtain ⟨node, hnode, rfl⟩ := List.mem_map.mp (hforms hform)
    exact everywhere_canonical hP ((h node hnode).everywhere fun _ => id)
  exact ⟨hform fun _ => IsNormal.hasTextTags_canonical, hform fun _ => IsNormal.isSound_canonical⟩

/-- Merging the canonical forms of some nodes in any order and number gives the canonical form that
merging the nodes gives. -/
theorem canonical_merged_forms {forms : List Value} (hsub : forms ⊆ group.map canonical)
    (hsup : group.map canonical ⊆ forms) :
    canonical (merged forms) = canonical (merged group) := by
  apply canonical_merged_congr (mergeable_canonical h hsub) (mergeable_of_isNormal h)
  · intro form hform
    obtain ⟨node, hnode, rfl⟩ := List.mem_map.mp (hsub hform)
    exact ⟨node, hnode, canonical_canonical (h node hnode).isOrderable⟩
  · intro node hnode
    have hform : canonical node ∈ forms := hsup (List.mem_map_of_mem hnode)
    exact ⟨canonical node, hform, (canonical_canonical (h node hnode).isOrderable).symm⟩

end

end JsonSurvey.Schema
