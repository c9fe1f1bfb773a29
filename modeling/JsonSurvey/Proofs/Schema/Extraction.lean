import JsonSurvey.Proofs.Schema.Merge
import JsonSurvey.Proofs.Value.Path
import JsonSurvey.Schema.Extraction

/-! What a schema tells of the values that it was extracted from. Extraction works from the leaves
up and merges the elements at each array. `summary` is the schema of many values at once, and seen
from the top it goes with the steps of a path: a step into the summary of some values is the summary
of the values that the step leads to (`next?_summary`), since merging in batches is merging at once.
So the node at a path (`nodeAt?_summary`) describes the values that the path reaches
(`describes_summary`). -/

namespace JsonSurvey.Schema

open Value (Step reached kinds)

/-! ### Extraction as a function -/

/-- The schema of a value that has one. -/
def outline (v : Value) : Value := (describe v).toOption.getD .null

/-- The schema that many values have in common. -/
def summary (vs : List Value) : Value := merged (vs.map outline)

theorem describeAll_eq {vs : List Value} (h : ∀ v ∈ vs, describe v = .ok (outline v)) :
    describeAll vs = .ok (vs.map outline) := by
  induction vs with
  | nil => rfl
  | cons v vs ih =>
    obtain ⟨hv, hvs⟩ := List.forall_mem_cons.mp h
    rw [describeAll, hv, ih hvs]
    rfl

theorem describeMembers_eq {ms : List (Text × Value)}
    (h : ∀ m ∈ ms, describe m.2 = .ok (outline m.2)) :
    describeMembers ms = .ok (ms.map fun m => (m.1, outline m.2)) := by
  induction ms with
  | nil => rfl
  | cons m ms ih =>
    obtain ⟨hm, hms⟩ := List.forall_mem_cons.mp h
    rw [describeMembers, hm, ih hms]
    rfl

/-- A JSON value has a schema. -/
theorem describe_eq {v : Value} (h : v.IsJson) : describe v = .ok (outline v) := by
  induction h with
  | array _ ih => rw [outline, describe, describeAll_eq ih]; rfl
  | object _ _ ih => rw [outline, describe, describeMembers_eq ih]; rfl
  | _ => rfl

theorem outline_eq {v : Value} (h : v.IsJson) {kind : Kind} (hkind : v.kind = .ok kind) :
    outline v = node (typeOfTags ([kind.tag].map .string))
      (if kind = .object then some (v.members.map fun m => (m.1, outline m.2)) else none)
      (v.elements?.map summary) v.isMention := by
  cases h with
  | array h =>
    cases hkind
    rw [outline, describe, describeAll_eq fun e he => describe_eq (h e he)]
    rfl
  | object _ h =>
    cases hkind
    rw [outline, describe, describeMembers_eq fun m hm => describe_eq (h m hm)]
    rfl
  | _ => cases hkind; rfl

/-! ### The views of an extracted schema -/

theorem contains_tag (kind kind' : Kind) : [kind.tag].contains kind'.tag = (kind == kind') := by
  cases kind <;> cases kind' <;> decide

theorem isSome_elements? {v : Value} {kind : Kind} (hkind : v.kind = .ok kind) :
    v.elements?.isSome = (kind == .array) := by
  cases v <;> cases hkind <;> rfl

section
variable {v : Value} {kind : Kind}

theorem isSome_outlineProperties {ps : List (Text × Value)} :
    (if kind = .object then some ps else none).isSome = [kind.tag].contains Kind.object.tag := by
  rw [contains_tag]
  cases kind <;> rfl

theorem isSome_outlineItems (hkind : v.kind = .ok kind) :
    (v.elements?.map summary).isSome = [kind.tag].contains Kind.array.tag := by
  rw [contains_tag, Option.isSome_map, isSome_elements? hkind]

theorem isNormal_outline_of_parts (h : v.IsJson)
    (hmembers : ∀ m ∈ v.members, IsNormal (outline m.2))
    (helements : ∀ es, v.elements? = some es → ∀ e ∈ es, IsNormal (outline e)) :
    IsNormal (outline v) := by
  obtain ⟨kind, hkind⟩ := h.exists_kind
  rw [outline_eq h hkind]
  refine .node (List.nodup_singleton _) isSome_outlineProperties (isSome_outlineItems hkind)
    (fun ps hps => ?_) (fun ps hps m hm => ?_) fun s hs => ?_
  · obtain ⟨_, ⟨⟩⟩ := Option.ite_none_right_eq_some.mp hps
    rw [List.map_map]
    exact h.nodup_keys
  · obtain ⟨_, ⟨⟩⟩ := Option.ite_none_right_eq_some.mp hps
    obtain ⟨m, hmem, rfl⟩ := List.mem_map.mp hm
    exact hmembers m hmem
  · obtain ⟨es, hes, rfl⟩ := Option.map_eq_some_iff.mp hs
    refine merged_isNormal (textTagged_of_isNormal fun node hnode => ?_)
    obtain ⟨e, he, rfl⟩ := List.mem_map.mp hnode
    exact helements es hes e he

/-- An extracted schema is in normal form. -/
theorem isNormal_outline (h : v.IsJson) : IsNormal (outline v) := by
  induction h with
  | @array _ es hes ih =>
    refine isNormal_outline_of_parts (.array hes) nofun fun es' h => ?_
    cases h
    exact ih
  | object hkeys hms ih => exact isNormal_outline_of_parts (.object hkeys hms) ih nofun
  | null => exact isNormal_outline_of_parts .null nofun nofun
  | bool b => exact isNormal_outline_of_parts (.bool b) nofun nofun
  | int i => exact isNormal_outline_of_parts (.int i) nofun nofun
  | float x => exact isNormal_outline_of_parts (.float x) nofun nofun
  | string t => exact isNormal_outline_of_parts (.string t) nofun nofun

section
variable (h : v.IsJson)
include h

theorem tagNames_outline : tagNames (outline v) = (kinds [v]).map Kind.tag := by
  obtain ⟨kind, hkind⟩ := h.exists_kind
  rw [outline_eq h hkind, tagNames_node, kinds, List.filterMap_cons, hkind]
  rfl

theorem ownProperties_outline :
    ownProperties (outline v) = v.members.map fun m => (m.1, outline m.2) := by
  obtain ⟨kind, hkind⟩ := h.exists_kind
  rw [outline_eq h hkind, ownProperties_node isSome_outlineProperties]
  cases h <;> cases hkind <;> rfl

theorem ownItems?_outline : ownItems? (outline v) = v.elements?.map summary := by
  obtain ⟨kind, hkind⟩ := h.exists_kind
  rw [outline_eq h hkind, ownItems?_node (isSome_outlineItems hkind)]

theorem marksCoordinate_outline : marksCoordinate (outline v) = v.isMention := by
  obtain ⟨kind, hkind⟩ := h.exists_kind
  rw [outline_eq h hkind, marksCoordinate_node]

end
end

/-! ### Steps into a node -/

/-- The node that a step leads to: through the properties, or to the items. -/
def next? (step : Step) (node : Value) : Option Value :=
  match step with
  | .property key => (member? propertiesKey node).bind (member? key)
  | .element => member? itemsKey node

/-- The node that a path leads to. -/
def nodeAt? (node : Value) : List Step → Option Value
  | [] => some node
  | step :: path => (next? step node).bind (nodeAt? · path)

/-! ### The summary of a list of values -/

section
variable {vs : List Value} (h : ∀ v ∈ vs, v.IsJson)
include h

theorem textTagged_map_outline : TextTagged (vs.map outline) := by
  refine textTagged_of_isNormal fun node hnode => ?_
  obtain ⟨v, hv, rfl⟩ := List.mem_map.mp hnode
  exact isNormal_outline (h v hv)

theorem tagNames_map_outline : (vs.map outline).flatMap tagNames = (kinds vs).map Kind.tag := by
  rw [List.flatMap_map, List.flatMap_congr fun v hv => tagNames_outline (h v hv),
    ← List.map_flatMap]
  congr 1
  clear h
  induction vs with
  | nil => rfl
  | cons v vs ih =>
    rw [List.flatMap_cons, ih, kinds, kinds, kinds, List.filterMap_cons, List.filterMap_nil,
      List.filterMap_cons]
    cases v.kind.toOption <;> rfl

theorem ownProperties_map_outline :
    (vs.map outline).flatMap ownProperties =
      (vs.flatMap Value.members).map fun m => (m.1, outline m.2) := by
  rw [List.flatMap_map, List.flatMap_congr fun v hv => ownProperties_outline (h v hv),
    List.map_flatMap]

theorem keys_map_outline :
    ((vs.map outline).flatMap ownProperties).map (·.1) = vs.flatMap Value.keys := by
  rw [ownProperties_map_outline h, List.map_map]
  exact List.map_flatMap

/-- The outlines pooled under a key are those of the values that the key leads to. -/
theorem valuesUnder_map_outline (key : Text) :
    Value.valuesUnder key ((vs.map outline).flatMap ownProperties) =
      (vs.flatMap (Step.property key).targets).map outline := by
  rw [ownProperties_map_outline h, Value.valuesUnder_map, Value.valuesUnder_flatMap,
    List.flatMap_congr fun v hv => (h v hv).valuesUnder_members key]

/-- The items pooled are the summaries of the elements of each array. -/
theorem pooledItems_map_outline :
    pooledItems (vs.map outline) =
      ((vs.filterMap Value.elements?).map (List.map outline)).map merged := by
  rw [pooledItems, List.filterMap_map, List.map_map, List.map_filterMap]
  exact List.filterMap_congr fun v hv => ownItems?_outline (h v hv)

/-- Merging them is merging all elements at once. -/
theorem merged_pooledItems_map_outline :
    merged (pooledItems (vs.map outline)) = summary (vs.flatMap Step.element.targets) := by
  have hgroups : ∀ group ∈ (vs.filterMap Value.elements?).map (List.map outline),
      TextTagged group := by
    intro group hgroup
    obtain ⟨es, hes, rfl⟩ := List.mem_map.mp hgroup
    obtain ⟨v, hv, helements⟩ := List.mem_filterMap.mp hes
    exact textTagged_map_outline ((h v hv).elements helements)
  rw [pooledItems_map_outline h, merged_map_merged hgroups, ← List.map_flatten, summary,
    Value.flatten_elements?]

theorem any_marksCoordinate_map_outline :
    (vs.map outline).any marksCoordinate = vs.any Value.isMention := by
  rw [Bool.eq_iff_iff, List.any_map, List.any_eq_true, List.any_eq_true]
  refine exists_congr fun v => and_congr_right fun hv => ?_
  rw [Function.comp_apply, marksCoordinate_outline (h v hv)]

theorem any_hasKind_map_outline (kind : Kind) :
    (vs.map outline).any (hasKind kind) = (kinds vs).contains kind := by
  rw [Bool.eq_iff_iff, any_hasKind_iff, tagNames_map_outline h, List.contains_iff_mem,
    List.mem_map_of_injective Kind.tag_injective]

theorem unionNames_map_outline :
    unionNames (vs.map outline) = (firstOccurrences (· == ·) (kinds vs)).map Kind.tag := by
  have hsame : ∀ kind kind' : Kind, (kind.tag == kind'.tag) = (kind == kind') := by
    intro kind kind'
    rw [Bool.eq_iff_iff, beq_iff_eq, beq_iff_eq, Kind.tag_injective.eq_iff]
  rw [unionNames, tagNames_map_outline h, firstOccurrences_map hsame]

/-- A summary from the top: under a key, and for the elements, it is the summary of the values that
the step leads to. -/
theorem summary_eq :
    summary vs = node
      (typeOfTags (((firstOccurrences (· == ·) (kinds vs)).map Kind.tag).map .string))
      (if (kinds vs).contains .object then
        some ((firstOccurrences (· == ·) (vs.flatMap Value.keys)).map fun key =>
          (key, summary (vs.flatMap (Step.property key).targets))) else none)
      (if (kinds vs).contains .array then
        some (summary (vs.flatMap Step.element.targets)) else none)
      (vs.any Value.isMention) := by
  have hkeys : (pooledProperties (vs.map outline)).map (·.1) =
      firstOccurrences (· == ·) (vs.flatMap Value.keys) := by
    rw [pooledProperties, keys_pool, keys_map_outline h]
  rw [summary, merged_eq (textTagged_map_outline h), unionNames_map_outline h,
    any_hasKind_map_outline h, any_hasKind_map_outline h, any_marksCoordinate_map_outline h,
    merged_pooledItems_map_outline h, map_pooledProperties, hkeys]
  simp only [valuesUnder_map_outline h]
  rfl

/-- A step into the summary of some values finds the summary of the values that it leads to. -/
theorem next?_summary (step : Step) :
    next? step (summary vs) =
      if vs.any step.appliesTo then some (summary (vs.flatMap step.targets)) else none := by
  have htags := textTagged_map_outline h
  cases step with
  | property key =>
    rw [next?, summary, member?_properties_merged htags, valuesUnder_map_outline h,
      keys_map_outline h]
    exact if_congr Value.any_appliesTo_property.symm rfl rfl
  | element =>
    rw [next?, summary, member?_items_merged htags, merged_pooledItems_map_outline h,
      any_hasKind_map_outline h, Value.any_appliesTo_element]

end

theorem summary_singleton {v : Value} (h : v.IsJson) : summary [v] = outline v :=
  merged_singleton (isNormal_outline h)

/-- The schema of an array has the node of the elements for its items. -/
theorem member?_items_summary {form : ArrayForm} {es : List Value}
    (h : (Value.array form es).IsJson) :
    member? itemsKey (summary [.array form es]) = some (summary es) := by
  rw [summary_singleton h, outline_eq h rfl]
  rfl

/-- Extraction of a JSON value that does not nest too deeply. -/
theorem extract_eq {v : Value} (h : v.IsJson) (hdepth : v.nestsWithin maxDepth = true) :
    extract v = .ok (summary [v]) := by
  rw [extract, if_pos hdepth, describe_eq h, summary_singleton h]

/-- If each step into the node of some values finds the node of the values that it leads to, then so
does a path. -/
theorem nodeAt?_eq_some_iff {nodeOf : List Value → Value}
    (hnext : ∀ vs, (∀ v ∈ vs, v.IsJson) → ∀ step, next? step (nodeOf vs) =
      if vs.any step.appliesTo then some (nodeOf (vs.flatMap step.targets)) else none)
    {vs : List Value} (h : ∀ v ∈ vs, v.IsJson) {path : List Step} {node : Value} :
    nodeAt? (nodeOf vs) path = some node ↔
      Value.Leads vs path ∧ node = nodeOf (reached vs path) := by
  induction path generalizing vs with
  | nil =>
    rw [nodeAt?, Option.some.injEq, eq_comm]
    exact (and_iff_right (.inl rfl)).symm
  | cons step path ih =>
    rw [nodeAt?, hnext vs h, Value.leads_cons, Value.reached_cons]
    split
    · next happlies =>
      rw [Option.bind_some, ih (Value.IsJson.flatMap_targets h), and_assoc]
      exact (and_iff_right happlies).symm
    · next happlies => simp [happlies]

/-- A path into the summary of some values finds the summary of the values that it leads to. -/
theorem nodeAt?_summary {vs : List Value} (h : ∀ v ∈ vs, v.IsJson) {path : List Step}
    {node : Value} :
    nodeAt? (summary vs) path = some node ↔
      Value.Leads vs path ∧ node = summary (reached vs path) :=
  nodeAt?_eq_some_iff (fun _ => next?_summary) h

/-! ### What a schema tells of a document -/

/-- A node describes a list of values: its tags are those of the kinds of the values, its
properties are under the keys of the values, both in the order of their first occurrence, and it
shows whether one of the values mentions a coordinate. -/
structure Describes (node : Value) (vs : List Value) : Prop where
  tags : tagList node =
    .ok ((firstOccurrences (· == ·) (kinds vs)).map fun kind => .string kind.tag)
  keys : (properties node).map (·.1) = firstOccurrences (· == ·) (vs.flatMap Value.keys)
  coordinate : member? coordinateKey node = some (.bool true) ↔
    ∃ t, .string t ∈ vs ∧ (Coordinate.mention? t).isSome

theorem describes_summary {vs : List Value} (h : ∀ v ∈ vs, v.IsJson) :
    Describes (summary vs) vs := by
  refine ⟨?_, ?_, ?_⟩
  · rw [summary_eq h, tagList, nodeFault?_node, tags_node, List.map_map]
    rfl
  · rw [summary, keys_properties_merged (textTagged_map_outline h), keys_map_outline h]
  · rw [summary_eq h, member?_coordinate_node, ← Value.any_isMention]
    split <;> simp_all

/-- Every JSON value has a schema, and extraction finds it unless the value nests too deeply. The
schema has a node at a path exactly if the path leads somewhere, and the node describes the values
that the path leads to. -/
theorem extract_describes {v : Value} (h : v.IsJson) :
    ∃ schema, describe v = .ok schema ∧
      (v.nestsWithin maxDepth = true → extract v = .ok schema) ∧
      ∀ path, ((nodeAt? schema path).isSome ↔ Value.Leads [v] path) ∧
        ∀ node, nodeAt? schema path = some node → Describes node (reached [v] path) := by
  have hvs : ∀ w ∈ [v], w.IsJson := by simpa using h
  refine ⟨summary [v], summary_singleton h ▸ describe_eq h, extract_eq h, fun path => ⟨?_, ?_⟩⟩
  · simp only [Option.isSome_iff_exists, nodeAt?_summary hvs, exists_and_left, exists_eq, and_true]
  · intro node hnode
    obtain ⟨_, rfl⟩ := (nodeAt?_summary hvs).mp hnode
    exact describes_summary (Value.IsJson.reached hvs path)

/-- Two objects share a key, under which a null and an empty array are of one node. -/
theorem extract_describes_shared_key :
    let v := Value.list [.object [("a", .null)], .object [("a", .list []), ("b", .bool true)]]
    let path := [.element, .property "a"]
    v.IsJson ∧ v.nestsWithin maxDepth = true ∧ ∃ schema, extract v = .ok schema ∧
      ∃ node, nodeAt? schema path = some node ∧ Describes node [.null, .list []] := by
  intro v path
  have hjson : v.IsJson := by
    refine .array ?_
    simp only [List.forall_mem_cons]
    refine ⟨.object (by decide) ?_, .object (by decide) ?_, nofun⟩
    · simpa using Value.IsJson.null
    · simpa using ⟨.array nofun, .bool true⟩
  obtain ⟨schema, _, hextract, hpath⟩ := extract_describes hjson
  have hleads : Value.Leads [v] path := .inr ⟨[.element], .property "a", rfl, by decide⟩
  obtain ⟨node, hnode⟩ := Option.isSome_iff_exists.mp ((hpath path).1.mpr hleads)
  exact ⟨hjson, by decide, schema, hextract (by decide), node, hnode, (hpath path).2 node hnode⟩

end JsonSurvey.Schema
