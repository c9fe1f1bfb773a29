import JsonSurvey.Proofs.Coordinate.Collection
import JsonSurvey.Proofs.Schema.NormalForm
import JsonSurvey.Proofs.Variant

/-! What the variants keep of a document. The schemas of the variants are those of the items, each
once (`map_schema_subset`, `subset_map_schema`), so that nothing that is told by the set of schemas
is lost. Merging them gives the schema that an array has for its elements
(`merge_schemas_eq_items`), and one of them shows a coordinate exactly if the collection of
coordinates finds one (`collect_coordinates_ne_nil_iff`): both go by the strings that lie in the
document, the one in document order and the other along paths (`mem_strings_iff_isPart`). -/

namespace JsonSurvey

namespace Value

/-- The strings of a value are those that a path leads to. -/
theorem mem_strings_iff_isPart {v : Value} (h : v.IsJson) {t : Text} :
    t ∈ v.strings ↔ (Value.string t).IsPart v := by
  induction h with
  | string s => simp [strings, isPart_leaf]
  | array _ ih =>
    rw [strings, mem_stringsAll, isPart_array]
    simp only [reduceCtorEq, false_or]
    exact exists_congr fun e => and_congr_right fun he => ih e he
  | object hkeys _ ih =>
    rw [strings, mem_stringsMembers, isPart_object hkeys]
    simp only [reduceCtorEq, false_or]
    exact exists_congr fun m => and_congr_right fun hm => ih m hm
  | _ => simp [strings, isPart_leaf]

end Value

namespace Schema

open Value (Step reached)

/-- Some node of a schema, at whatever path, has the flag of a coordinate. -/
def ShowsCoordinate (schema : Value) : Prop :=
  ∃ path node, nodeAt? schema path = some node ∧ member? coordinateKey node = some (.bool true)

section
variable {vs : List Value} (h : ∀ v ∈ vs, v.IsJson)
include h

theorem nodeAt?_canonical_summary {path : List Step} {node : Value} :
    nodeAt? (canonical (summary vs)) path = some node ↔
      Value.Leads vs path ∧ node = canonical (summary (reached vs path)) :=
  @nodeAt?_eq_some_iff (fun vs => canonical (summary vs)) (fun _ => next?_canonical_summary) _ h _ _

theorem member?_coordinate_canonical_summary :
    member? coordinateKey (canonical (summary vs)) = some (.bool true) ↔
      vs.any Value.isMention = true := by
  rw [member?_canonical, summary_eq h, member?_coordinate_node]
  split
  · next hmention =>
    rw [Option.map_some, canonicalUnder_coordinate]
    exact iff_of_true rfl hmention
  · next hmention =>
    exact iff_of_false nofun hmention

end

/-- The canonical schema of a value shows a coordinate exactly if a string in the value mentions
one. -/
theorem showsCoordinate_canonical_summary {v : Value} (h : v.IsJson) :
    ShowsCoordinate (canonical (summary [v])) ↔
      ∃ t, (Value.string t).IsPart v ∧ (Coordinate.mention? t).isSome := by
  have hvs : ∀ u ∈ [v], u.IsJson := by simpa using h
  constructor
  · rintro ⟨path, node, hnode, hflag⟩
    obtain ⟨-, rfl⟩ := (nodeAt?_canonical_summary hvs).mp hnode
    have hmention := (member?_coordinate_canonical_summary (Value.IsJson.reached hvs path)).mp hflag
    obtain ⟨t, ht, hsome⟩ := Value.any_isMention.mp hmention
    exact ⟨t, ⟨path, ht⟩, hsome⟩
  · rintro ⟨t, ⟨path, ht⟩, hsome⟩
    refine ⟨path, _, (nodeAt?_canonical_summary hvs).mpr ⟨Value.leads_of_mem_reached ht, rfl⟩, ?_⟩
    apply (member?_coordinate_canonical_summary (Value.IsJson.reached hvs path)).mpr
    exact Value.any_isMention.mpr ⟨t, ht, hsome⟩

end Schema

namespace Variant

/-! ### The schemas of the variants -/

section
variable {items : List Value}

theorem map_schema_subset :
    (firstOccurrences sameSchema (items.map ofItem)).map schema ⊆
      (items.map ofItem).map schema :=
  List.map_subset _ (firstOccurrences_sublist _).subset

/-- No schema of an item is lost. -/
theorem subset_map_schema (h : ∀ item ∈ items, IsItem item) :
    (items.map ofItem).map schema ⊆
      (firstOccurrences sameSchema (items.map ofItem)).map schema := by
  intro s hs
  obtain ⟨e, he, rfl⟩ := List.mem_map.mp hs
  obtain ⟨v, hv, hkey⟩ := exists_mem_firstOccurrences key he
  obtain ⟨item, hitem, rfl⟩ := List.mem_map.mp he
  obtain ⟨item', hitem', rfl⟩ := List.mem_map.mp ((firstOccurrences_sublist _).mem hv)
  rw [firstOccurrences_sameSchema h]
  exact List.mem_map.mpr ⟨_, hv, (key_eq_iff (h item' hitem') (h item hitem)).mp hkey⟩

theorem map_schema_ofItem (h : ∀ item ∈ items, IsItem item) :
    (items.map ofItem).map schema = (items.map Schema.outline).map Schema.canonical := by
  rw [List.map_map, List.map_map]
  refine List.map_congr_left fun item hitem => ?_
  exact congrArg Schema.canonical (Schema.summary_singleton (h item hitem).isJson)

end

/-! ### Merging the variants -/

section
variable {items : List Value} (h : ∀ item ∈ items, IsItem item)
include h

theorem isNormal_of_mem_outlines : ∀ node ∈ items.map Schema.outline, Schema.IsNormal node := by
  intro node hnode
  obtain ⟨item, hitem, rfl⟩ := List.mem_map.mp hnode
  exact Schema.isNormal_outline (h item hitem).isJson

theorem mergeable_schemas :
    Schema.Mergeable ((firstOccurrences sameSchema (items.map ofItem)).map schema) := by
  apply Schema.mergeable_canonical (isNormal_of_mem_outlines h)
  rw [← map_schema_ofItem h]
  exact map_schema_subset

/-- Merging the schemas of the variants of items gives the canonical form of the node of all
items. -/
theorem canonicalize_merged_schemas :
    Schema.canonicalize (Schema.merged
        ((firstOccurrences sameSchema (items.map ofItem)).map schema)) =
      Schema.canonicalize (Schema.summary items) := by
  have hnormal := Schema.merged_isNormal (mergeable_schemas h).textTagged
  have hsummary := Schema.isNormal_summary fun item hitem => (h item hitem).isJson
  apply Schema.canonicalize_congr hnormal.hasTextUnions hsummary.hasTextUnions
  apply Schema.canonical_merged_forms (isNormal_of_mem_outlines h)
  · rw [← map_schema_ofItem h]
    exact map_schema_subset
  · rw [← map_schema_ofItem h]
    exact subset_map_schema h

end

/-- Taking the variants of an array loses nothing of its structure: an array that does not nest too
deeply has variants and a schema, the schemas of the variants can be merged, and the node merged
from them has one canonical form with what the schema of the array has for the elements. -/
theorem merge_schemas_eq_items {es : List Value} (h : (Value.list es).IsJson)
    (hdepth : (Value.list es).nestsWithin Schema.maxDepth = true) :
    ∃ variants whole items m form, collect (.list es) = .ok variants ∧
      Schema.extract (.list es) = .ok whole ∧
      Schema.member? Schema.itemsKey whole = some items ∧
      Schema.merge (variants.map schema) = .ok m ∧
      Schema.canonicalize m = .ok form ∧ Schema.canonicalize items = .ok form := by
  have hes : ∀ e ∈ es, e.IsJson := h.elements rfl
  have hnests : ∀ e ∈ es, e.nestsWithin Schema.maxDepth = true := by
    obtain ⟨inner, hinner, hes⟩ := Value.nestsWithin_array.mp hdepth
    exact fun e he => Value.nestsWithin_mono (by omega) (hes e he)
  have hitems : ∀ e ∈ es, IsItem e := isItem_of_mem h hnests
  have hform := Schema.canonicalize_summary hes hnests
  exact ⟨_, _, Schema.summary es, _, _, collect_list hitems, Schema.extract_eq h hdepth,
    Schema.member?_items_summary h,
    Schema.merge_eq_ok_iff.mpr ⟨(mergeable_schemas hitems).sound, rfl⟩,
    (canonicalize_merged_schemas hitems).trans hform, hform⟩

/-- An item that occurs twice is merged once into the variants and twice into the items. -/
theorem merge_schemas_eq_items_repeated :
    let document := Value.list [.null, .list [.bool true], .null]
    let form := Value.object
      [(Schema.itemsKey, .object [(Schema.typeKey, .string Kind.boolean.tag)]),
        (Schema.typeKey, .list [.string Kind.array.tag, .string Kind.null.tag])]
    (document.IsJson ∧ document.nestsWithin Schema.maxDepth = true) ∧
      ∃ variants m, collect document = .ok variants ∧ Schema.merge (variants.map schema) = .ok m ∧
        Schema.canonicalize m = .ok form := by
  intro document form
  have hinner : (Value.list [.bool true]).IsJson := .array (by simpa using .bool true)
  have hjson : document.IsJson := .array (by simpa using ⟨.null, hinner, .null⟩)
  obtain ⟨variants, whole, items, m, form', hcollect, hwhole, hitems, hmerge, hm, hform⟩ :=
    merge_schemas_eq_items hjson rfl
  have hsummary : Schema.summary [.null, .list [.bool true], .null] = .object
      [(Schema.typeKey, .list [.string Kind.null.tag, .string Kind.array.tag]),
        (Schema.itemsKey, .object [(Schema.typeKey, .string Kind.boolean.tag)])] := by
    rw [Schema.summary_eq (hjson.elements rfl)]
    change Schema.node _ none (some (Schema.summary [.bool true])) false = _
    rw [Schema.summary_singleton (.bool true)]
    rfl
  obtain rfl := Except.ok.inj ((Schema.extract_eq hjson rfl).symm.trans hwhole)
  rw [Schema.member?_items_summary hjson, hsummary] at hitems
  obtain rfl := Option.some.inj hitems
  have horder : Schema.sortTexts [Kind.null.tag, Kind.array.tag] =
      [Kind.array.tag, Kind.null.tag] := Schema.sortTexts_swap (by decide)
  refine ⟨⟨hjson, rfl⟩, variants, m, hcollect, hmerge, hm.trans (hform.symm.trans ?_)⟩
  refine (if_pos rfl).trans ((if_pos rfl).trans ?_)
  rw [Schema.canonical_object]
  change Except.ok (Value.object (Schema.sortMembers
    [(Schema.typeKey, .list ((Schema.sortTexts [Kind.null.tag, Kind.array.tag]).map .string)),
      (Schema.itemsKey,
        Schema.canonical (.object [(Schema.typeKey, .string Kind.boolean.tag)]))])) = _
  rw [horder, Schema.sortMembers_swap (by decide) (by decide), Schema.canonical_object,
    Schema.sortMembers, List.map_singleton, List.mergeSort_singleton]
  rfl

/-! ### Coordinates of the variants -/

theorem collect_coordinates_ne_nil {document : Value} :
    Coordinate.collect document ≠ [] ↔
      ∃ t ∈ document.strings, (Coordinate.mention? t).isSome := by
  rw [Coordinate.collect, ne_eq, List.map_eq_nil_iff]
  constructor
  · intro hne
    obtain ⟨m, hm⟩ := List.exists_mem_of_ne_nil _ hne
    rw [Coordinate.mentions_eq] at hm
    obtain ⟨t, ht, hmention⟩ := List.mem_filterMap.mp ((firstOccurrences_sublist _).mem hm)
    exact ⟨t, ht, Option.isSome_iff_exists.mpr ⟨m, hmention⟩⟩
  · rintro ⟨t, ht, hsome⟩
    obtain ⟨m, hmention⟩ := Option.isSome_iff_exists.mp hsome
    exact List.ne_nil_of_mem (Coordinate.mem_mentions ht hmention)

/-- The item of a variant mentions a coordinate exactly if the schema of the variant shows one. -/
theorem showsCoordinate_ofItem {item : Value} (h : item.IsJson) :
    Schema.ShowsCoordinate (ofItem item).schema ↔
      ∃ t ∈ item.strings, (Coordinate.mention? t).isSome := by
  simp only [Value.mem_strings_iff_isPart h]
  exact Schema.showsCoordinate_canonical_summary h

/-- Every JSON document whose items do not nest too deeply has variants, and the schema of one of
them shows a coordinate exactly if the document has coordinates. -/
theorem collect_coordinates_ne_nil_iff {document : Value} (h : document.IsJson)
    (hdepth : ∀ item ∈ document.items, item.nestsWithin Schema.maxDepth = true) :
    ∃ variants, collect document = .ok variants ∧
      (Coordinate.collect document ≠ [] ↔ ∃ v ∈ variants, Schema.ShowsCoordinate v.schema) := by
  have hitems := isItem_of_mem h hdepth
  refine ⟨_, collect_list hitems, ?_⟩
  rw [collect_coordinates_ne_nil, ← Value.stringsAll_items]
  constructor
  · rintro ⟨t, ht, hsome⟩
    obtain ⟨item, hitem, ht⟩ := Value.mem_stringsAll.mp ht
    have hshows := (showsCoordinate_ofItem (hitems item hitem).isJson).mpr ⟨t, ht, hsome⟩
    have hschema : (ofItem item).schema ∈ (document.items.map ofItem).map schema :=
      List.mem_map_of_mem (List.mem_map_of_mem hitem)
    obtain ⟨v, hv, heq⟩ := List.mem_map.mp (subset_map_schema hitems hschema)
    exact ⟨v, hv, heq ▸ hshows⟩
  · rintro ⟨v, hv, hshows⟩
    obtain ⟨item, hitem, rfl⟩ := List.mem_map.mp ((firstOccurrences_sublist _).mem hv)
    obtain ⟨t, ht, hsome⟩ := (showsCoordinate_ofItem (hitems item hitem).isJson).mp hshows
    exact ⟨t, Value.mem_stringsAll.mpr ⟨item, hitem, ht⟩, hsome⟩

/-- A mention that only the last of three items has, in an array under a key. -/
theorem collect_coordinates_ne_nil_iff_nested :
    let document := Value.list [.int 1, .int 2,
      .object [("places", .list [.null, .string "geo:1,2"])]]
    (document.IsJson ∧ ∀ item ∈ document.items, item.nestsWithin Schema.maxDepth = true) ∧
      Coordinate.collect document ≠ [] ∧ ∃ variants, collect document = .ok variants ∧
        ∃ v ∈ variants, Schema.ShowsCoordinate v.schema := by
  intro document
  have hplaces : (Value.list [.null, .string "geo:1,2"]).IsJson :=
    .array (by simpa using ⟨.null, .string _⟩)
  have hobject : (Value.object [("places", .list [.null, .string "geo:1,2"])]).IsJson :=
    .object (by simp) (by simpa using hplaces)
  have hjson : document.IsJson := .array (by simpa using ⟨.int _, .int _, hobject⟩)
  have hdepth : ∀ item ∈ document.items, item.nestsWithin Schema.maxDepth = true :=
    List.all_eq_true.mp rfl
  have hne : Coordinate.collect document ≠ [] := by
    rw [collect_coordinates_ne_nil]
    exact ⟨"geo:1,2", .head _, rfl⟩
  obtain ⟨variants, hcollect, hiff⟩ := collect_coordinates_ne_nil_iff hjson hdepth
  exact ⟨⟨hjson, hdepth⟩, hne, variants, hcollect, hiff.mp hne⟩

end Variant
end JsonSurvey
