import JsonSurvey.Proofs.Binary64
import JsonSurvey.Proofs.Schema.Reordering
import JsonSurvey.Proofs.Schema.Shape
import JsonSurvey.Variant
import Mathlib.Data.List.Perm.Subperm

/-! The variants of a document are the first occurrences of its items by canonical schema
(`collect_eq`). The collection compares keys, which are the texts of schemas that are brought into
canonical form once more; a canonical form is its own canonical form and its text tells it, so that
items have one key exactly if their canonical schemas are equal (`same_schema_iff`). -/

namespace JsonSurvey

open Json (IsTextual)

/-! ### Equality of values -/

theorem map_eq_map_of_forall₂ {α β γ : Type} {R : α → β → Prop} {f : α → γ} {g : β → γ}
    {as : List α} {bs : List β} (h : List.Forall₂ R as bs)
    (heq : ∀ a ∈ as, ∀ b ∈ bs, R a b → f a = g b) : as.map f = bs.map g := by
  induction h with
  | nil => rfl
  | cons hab _ ih =>
    rw [List.map_cons, List.map_cons, heq _ List.mem_cons_self _ List.mem_cons_self hab,
      ih fun a ha b hb => heq a (.tail _ ha) b (.tail _ hb)]

namespace Value

theorem same_bool_iff {b b' : Bool} : same (.bool b) (.bool b') = true ↔ b = b' := by
  have hsame : same (.bool b) (.bool b') =
      (Amount.finite (if b then Binary64.unitsPerOne else 0) ==
        Amount.finite (if b' then Binary64.unitsPerOne else 0)) := rfl
  have hunits := Binary64.unitsPerOne_pos
  rw [hsame, beq_iff_eq, Amount.finite.injEq]
  generalize Binary64.unitsPerOne = units at hunits
  cases b <;> cases b' <;> simp <;> omega

theorem sameAll_iff {vs ws : List Value} :
    sameAll vs ws = true ↔ List.Forall₂ (fun v w => same v w = true) vs ws := by
  induction vs generalizing ws with
  | nil => cases ws <;> simp [sameAll]
  | cons v vs ih => cases ws <;> simp [sameAll, ih]

theorem sameMembers_iff {ms ns : List (Text × Value)} :
    sameMembers ms ns = true ↔ ∀ m ∈ ms, ∃ w, ns.lookup m.1 = some w ∧ same m.2 w = true := by
  induction ms with
  | nil => simp [sameMembers]
  | cons m ms ih =>
    rw [sameMembers, Bool.and_eq_true, ih, List.forall_mem_cons]
    cases ns.lookup m.1 <;> simp

/-- An object lists its keys with what they look up. -/
theorem eq_map_keys {ms : List (Text × Value)} (h : (ms.map (·.1)).Nodup) :
    ms = (ms.map (·.1)).map fun key => (key, (ms.lookup key).getD .null) := by
  rw [List.map_map]
  refine ((List.map_congr_left fun m hm => ?_).trans (List.map_id ms)).symm
  rw [Function.comp_apply, (lookup_eq_some_iff h).mpr hm]
  rfl

end Value

namespace Json.IsTextual

theorem same_self {v : Value} (h : IsTextual v) : v.same v = true := by
  induction h with
  | null => rfl
  | bool b => exact Value.same_bool_iff.mpr rfl
  | string t => simp [Value.same]
  | @list es _ ih =>
    rw [Value.same, Value.sameAll_iff.mpr (List.forall₂_same.mpr ih)]
    rfl
  | object hkeys _ ih =>
    rw [Value.same, Value.sameMembers_iff.mpr fun m hm =>
      ⟨m.2, (Value.lookup_eq_some_iff hkeys).mpr hm, ih m hm⟩]
    simp

end Json.IsTextual

namespace Schema

/-- Objects of one size, the one of which has an equal member for each of the other, have the same
keys. -/
theorem keys_perm_of_same {ms ns : List (Text × Value)} (hms : (ms.map (·.1)).Nodup)
    (hlength : ms.length = ns.length)
    (h : ∀ m ∈ ms, ∃ w, ns.lookup m.1 = some w ∧ m.2.same w = true) :
    (ms.map (·.1)).Perm (ns.map (·.1)) := by
  refine (List.subperm_of_subset hms fun key hkey => ?_).perm_of_length_le (by simp [hlength])
  obtain ⟨m, hm, rfl⟩ := List.mem_map.mp hkey
  obtain ⟨w, hw, _⟩ := h m hm
  exact List.mem_map.mpr ⟨(m.1, w), Value.mem_of_lookup hw, rfl⟩

/-- Textual values that are equal up to the order of members have one canonical form. -/
theorem canonical_eq_of_same {v w : Value} (hv : IsTextual v) (hw : IsTextual w)
    (htags : HasTextUnions v) (h : v.same w = true) : canonical v = canonical w := by
  induction hv generalizing w with
  | null => cases hw <;> first | rfl | contradiction
  | bool b =>
    cases hw with
    | bool b' => rw [Value.same_bool_iff.mp h]
    | _ => contradiction
  | string t => rw [same_string_iff.mp h]
  | @list es _ ih =>
    cases hw with
    | @list fs hfs =>
      simp only [Value.same, Bool.and_eq_true, Value.sameAll_iff] at h
      rw [canonical, canonical, canonicalAll_eq_map, canonicalAll_eq_map]
      refine congrArg _ (map_eq_map_of_forall₂ h.2 fun e he f hf heq => ?_)
      exact ih e he (hfs f hf) (hasTextUnions_array.mp htags e he) heq
    | _ => contradiction
  | @object ms hkeys _ ih =>
    cases hw with
    | @object ns hkeys' hns =>
      obtain ⟨htags, htype⟩ := hasTextUnions_object.mp htags
      simp only [Value.same, Bool.and_eq_true, beq_iff_eq, Value.sameMembers_iff] at h
      obtain ⟨hlength, hsame⟩ := h
      rw [Value.eq_map_keys hkeys, Value.eq_map_keys hkeys']
      refine canonical_object_congr hkeys (keys_perm_of_same hkeys hlength hsame) fun key hkey => ?_
      obtain ⟨m, hm, rfl⟩ := List.mem_map.mp hkey
      obtain ⟨w, hw, heq⟩ := hsame m hm
      have hform := ih m hm (hns _ (Value.mem_of_lookup hw)) (htags m hm) heq
      rw [(Value.lookup_eq_some_iff hkeys).mpr hm, hw]
      refine canonicalUnder_congr hform fun hkey form ts hts => htype form ts ?_
      rw [← hkey, ← hts]
      exact hm
    | _ => contradiction

/-- Equal canonical forms of textual values are the same. -/
theorem same_canonical_iff {v w : Value} (hv : IsTextual v) (hw : IsTextual w)
    (htagsv : HasTextUnions v) (htagsw : HasTextUnions w) :
    (canonical v).same (canonical w) = true ↔ canonical v = canonical w := by
  have htextv := isTextual_canonical hv htagsv
  have htextw := isTextual_canonical hw htagsw
  have hov : IsOrderable v := ⟨hv.isDecoded, htagsv⟩
  have how : IsOrderable w := ⟨hw.isDecoded, htagsw⟩
  refine ⟨fun h => ?_, fun h => h ▸ htextv.same_self⟩
  calc canonical v = canonical (canonical v) := (canonical_canonical hov).symm
    _ = canonical (canonical w) :=
      canonical_eq_of_same htextv htextw (isOrderable_canonical hov).hasTextUnions h
    _ = canonical w := canonical_canonical how

end Schema

/-! ### The entries of a document -/

namespace Variant

/-- An item with its canonical schema. -/
def entry (item : Value) : Except Fault Variant := do
  return ⟨← Schema.canonicalize (← Schema.extract item), item⟩

/-- The entry of an item that has one. -/
def ofItem (item : Value) : Variant := ⟨Schema.canonical (Schema.summary [item]), item⟩

/-- The key under which a variant is kept. -/
def key (v : Variant) : Text := Json.compact Foreign.name v.schema

/-- Whether two variants have equal schemas. -/
def sameSchema (v w : Variant) : Bool := v.schema.same w.schema

/-- A JSON value that does not nest too deeply for its schema. -/
structure IsItem (item : Value) : Prop where
  isJson : item.IsJson
  depth : item.nestsWithin Schema.maxDepth = true

section
variable {item : Value} (h : IsItem item)
include h

theorem IsItem.isNormal : Schema.IsNormal (Schema.summary [item]) :=
  Schema.isNormal_summary (by simpa using h.isJson)

theorem IsItem.nestsWithin_summary :
    (Schema.summary [item]).nestsWithin Schema.maxCanonicalDepth = true :=
  Value.nestsWithin_mono (show 2 * Schema.maxDepth + 2 ≤ Schema.maxCanonicalDepth by decide) <|
    Schema.nestsWithin_summary (by simpa using h.isJson) (by simpa using h.depth)

theorem IsItem.isOrderable : Schema.IsOrderable (Schema.summary [item]) :=
  ⟨h.isNormal.isTextual.isDecoded, h.isNormal.hasTextUnions⟩

theorem IsItem.canonicalize_summary :
    Schema.canonicalize (Schema.summary [item]) = .ok (ofItem item).schema :=
  Schema.canonicalize_summary (by simpa using h.isJson) (by simpa using h.depth)

theorem entry_eq : entry item = .ok (ofItem item) := by
  rw [entry, Schema.extract_eq h.isJson h.depth]
  change (Schema.canonicalize _ >>= _) = _
  rw [h.canonicalize_summary]
  rfl

/-- The key of a canonical schema is its text, since the form that is written is the schema. -/
theorem canonicalKey_ofItem : Schema.canonicalKey (ofItem item).schema = .ok (ofItem item).key := by
  have htext := Schema.isTextual_canonical h.isNormal.isTextual h.isNormal.hasTextUnions
  rw [ofItem, Schema.canonicalKey,
    Schema.canonicalize_canonical h.isOrderable h.nestsWithin_summary]
  change Schema.compactText _ = _
  rw [Schema.compactText, htext.textFault?_eq_none]
  rfl

end

/-- Keys tell schemas apart. -/
theorem key_eq_iff {item item' : Value} (h : IsItem item) (h' : IsItem item') :
    (ofItem item).key = (ofItem item').key ↔ (ofItem item).schema = (ofItem item').schema := by
  have hnests {item : Value} (h : IsItem item) :
      (ofItem item).schema.nestsWithin Json.maxDepth = true :=
    Schema.nestsWithin_canonical_summary (by simpa using h.isJson) (by simpa using h.depth)
  have htext {item : Value} (h : IsItem item) : IsTextual (ofItem item).schema :=
    Schema.isTextual_canonical h.isNormal.isTextual h.isNormal.hasTextUnions
  exact ⟨Json.compact_injective (htext h) (htext h') (hnests h) (hnests h'), congrArg _⟩

theorem key_beq_eq_sameSchema {item item' : Value} (h : IsItem item) (h' : IsItem item') :
    ((ofItem item).key == (ofItem item').key) = sameSchema (ofItem item) (ofItem item') := by
  rw [Bool.eq_iff_iff, beq_iff_eq, sameSchema, key_eq_iff h h', ofItem, ofItem,
    Schema.same_canonical_iff h.isNormal.isTextual h'.isNormal.isTextual h.isNormal.hasTextUnions
      h'.isNormal.hasTextUnions]

/-! ### The collection -/

/-- An item is added under its key unless the key was seen. -/
theorem observe_eq {item : Value} (h : IsItem item) (seen : List (Text × Variant)) :
    observe seen item = .ok (if (seen.map (·.1)).contains (ofItem item).key then seen
      else seen ++ [((ofItem item).key, ofItem item)]) := by
  have hany : seen.any (·.1 == (ofItem item).key) =
      (seen.map (·.1)).contains (ofItem item).key := by
    rw [List.contains_eq_any_beq, List.any_map]
    exact congrArg seen.any (funext fun m => BEq.comm)
  rw [observe, Schema.extract_eq h.isJson h.depth]
  change (Schema.canonicalize _ >>= _) = _
  rw [h.canonicalize_summary]
  change (Schema.canonicalKey (ofItem item).schema >>= _) = _
  rw [canonicalKey_ofItem h, ← hany]
  rfl

/-- Behind variants with the keys seen so far, the collection adds the first occurrences that have
other keys. -/
theorem foldlM_observe {items : List Value} (h : ∀ item ∈ items, IsItem item)
    (seen : List (Text × Variant)) :
    items.foldlM observe seen = .ok (seen ++
      ((firstOccurrences (fun v w => v.key == w.key) (items.map ofItem)).filter
        fun v => !(seen.map (·.1)).contains v.key).map fun v => (v.key, v)) := by
  induction items generalizing seen with
  | nil => simp [pure, Except.pure]
  | cons item items ih =>
    obtain ⟨hitem, hitems⟩ := List.forall_mem_cons.mp h
    have hkeys (v : Variant) :
        ((seen ++ [((ofItem item).key, ofItem item)]).map (·.1)).contains v.key =
          ((ofItem item).key :: seen.map (·.1)).contains v.key := by
      rw [Bool.eq_iff_iff]
      simp [or_comm]
    rw [List.foldlM_cons, observe_eq hitem, List.map_cons, filter_firstOccurrences_cons]
    change items.foldlM observe _ = _
    rw [ih hitems]
    split
    · rfl
    · simp only [hkeys, List.append_assoc]
      rfl

section
variable {items : List Value} (h : ∀ item ∈ items, IsItem item)
include h

theorem mapM_entry : items.mapM entry = .ok (items.map ofItem) := by
  induction items with
  | nil => rfl
  | cons item items ih =>
    obtain ⟨hitem, hitems⟩ := List.forall_mem_cons.mp h
    rw [List.mapM_cons, entry_eq hitem, ih hitems]
    rfl

theorem firstOccurrences_sameSchema :
    firstOccurrences sameSchema (items.map ofItem) =
      firstOccurrences (fun v w => v.key == w.key) (items.map ofItem) := by
  refine firstOccurrences_congr fun v hv w hw => ?_
  obtain ⟨item, hitem, rfl⟩ := List.mem_map.mp hv
  obtain ⟨item', hitem', rfl⟩ := List.mem_map.mp hw
  exact (key_beq_eq_sameSchema (h item hitem) (h item' hitem')).symm

/-- The variants of items are the first occurrences of their entries. -/
theorem collect_list :
    collect (.list items) = .ok (firstOccurrences sameSchema (items.map ofItem)) := by
  rw [collect, Value.items, foldlM_observe h, firstOccurrences_sameSchema h]
  simp [bind, Except.bind, pure, Except.pure, Function.comp_def]

/-- A variant is the entry of its item. -/
theorem eq_ofItem {v : Variant} (hv : v ∈ items.map ofItem) :
    IsItem v.item ∧ ofItem v.item = v := by
  obtain ⟨item, hitem, rfl⟩ := List.mem_map.mp hv
  exact ⟨h item hitem, rfl⟩

/-- One variant has the schema of an entry. -/
theorem existsUnique_variant {e : Variant} (he : e ∈ items.map ofItem) :
    ∃! v, v ∈ firstOccurrences sameSchema (items.map ofItem) ∧ sameSchema v e = true := by
  have hkeys {v w : Variant} (hv : v ∈ items.map ofItem) (hw : w ∈ items.map ofItem) :
      sameSchema v w = true ↔ v.key = w.key := by
    obtain ⟨hv, hveq⟩ := eq_ofItem h hv
    obtain ⟨hw, hweq⟩ := eq_ofItem h hw
    rw [← hveq, ← hweq, ← key_beq_eq_sameSchema hv hw, beq_iff_eq]
  have hmem {v : Variant} (hv : v ∈ firstOccurrences sameSchema (items.map ofItem)) :
      v ∈ items.map ofItem := (firstOccurrences_sublist _).mem hv
  obtain ⟨v, hv, hkey⟩ := exists_mem_firstOccurrences key he
  have hnodup := nodup_map_firstOccurrences key (items.map ofItem)
  rw [← firstOccurrences_sameSchema h] at hv hnodup
  refine ⟨v, ⟨hv, (hkeys (hmem hv) he).mpr hkey⟩, fun w ⟨hw, hsame⟩ => ?_⟩
  have hwkey : w.key = v.key := ((hkeys (hmem hw) he).mp hsame).trans hkey.symm
  exact List.inj_on_of_nodup_map hnodup hw hv hwkey

end

theorem isJson_of_mem_items {document : Value} (h : document.IsJson) :
    ∀ item ∈ document.items, item.IsJson := by
  intro item hitem
  cases h with
  | @array form es hes =>
    cases form with
    | list => exact hes item hitem
    | tuple => exact List.mem_singleton.mp hitem ▸ .array hes
  | _ => rw [List.mem_singleton.mp hitem]; constructor <;> assumption

/-- The items of a JSON document that do not nest too deeply have schemas. -/
theorem isItem_of_mem {document : Value} (h : document.IsJson)
    (hdepth : ∀ item ∈ document.items, item.nestsWithin Schema.maxDepth = true) :
    ∀ item ∈ document.items, IsItem item :=
  fun item hitem => ⟨isJson_of_mem_items h item hitem, hdepth item hitem⟩

/-- Every JSON document whose items do not nest too deeply has variants, and they are the first
occurrences of its items by canonical schema: each entry has the schema of exactly one of them, each
of them is the first entry with its schema, and their own items have the same variants. -/
theorem collect_eq_firstOccurrences {document : Value} (h : document.IsJson)
    (hdepth : ∀ item ∈ document.items, item.nestsWithin Schema.maxDepth = true) :
    ∃ entries variants, document.items.mapM entry = .ok entries ∧ collect document = .ok variants ∧
      variants = firstOccurrences sameSchema entries ∧
      (∀ e ∈ entries, ∃! v, v ∈ variants ∧ sameSchema v e = true) ∧
      variants.Pairwise (fun v w => sameSchema v w = false) ∧
      (∀ v ∈ variants, entry v.item = .ok v ∧ ∃ before after, entries = before ++ v :: after ∧
        ∀ e ∈ before, sameSchema e v = false) ∧
      collect (.list (variants.map (·.item))) = .ok variants := by
  have hitems := isItem_of_mem h hdepth
  have hcollect := collect_list hitems
  have hvariant {v : Variant}
      (hv : v ∈ firstOccurrences sameSchema (document.items.map ofItem)) :=
    eq_ofItem hitems ((firstOccurrences_sublist _).mem hv)
  refine ⟨document.items.map ofItem, _, mapM_entry hitems, hcollect, rfl,
    fun e => existsUnique_variant hitems, pairwise_firstOccurrences _, fun v hv => ⟨?_, ?_⟩, ?_⟩
  · obtain ⟨hitem, heq⟩ := hvariant hv
    rw [entry_eq hitem, heq]
  · exact exists_append_of_mem_firstOccurrences hv
  · have hself :
        ((firstOccurrences sameSchema (document.items.map ofItem)).map (·.item)).map ofItem =
          firstOccurrences sameSchema (document.items.map ofItem) := by
      rw [List.map_map]
      exact (List.map_congr_left fun v hv => (hvariant hv).2).trans (List.map_id _)
    rw [collect_list fun item hitem => ?_, hself,
      firstOccurrences_of_pairwise (pairwise_firstOccurrences _)]
    obtain ⟨v, hv, rfl⟩ := List.mem_map.mp hitem
    exact (hvariant hv).1

/-- Two items of one shape and one of another. -/
theorem collect_eq_firstOccurrences_leaves :
    let document := Value.list [.null, .bool true, .null]
    document.IsJson ∧ (∀ item ∈ document.items, item.nestsWithin Schema.maxDepth = true) ∧
      collect document = .ok [⟨.object [("type", .string "null")], .null⟩,
        ⟨.object [("type", .string "boolean")], .bool true⟩] := by
  intro document
  have hjson : document.IsJson := .array (by simp [Value.IsJson.null, Value.IsJson.bool])
  have hdepth : ∀ item ∈ document.items, item.nestsWithin Schema.maxDepth = true := by
    simp [document, Value.items, Value.nestsWithin]
  obtain ⟨entries, variants, hentries, hcollect, hvariants, _⟩ :=
    collect_eq_firstOccurrences hjson hdepth
  have hnull : entry .null = .ok ⟨.object [("type", .string "null")], .null⟩ := by
    cbv
  have hbool : entry (.bool true) = .ok ⟨.object [("type", .string "boolean")], .bool true⟩ := by
    cbv
  refine ⟨hjson, hdepth, hcollect.trans (congrArg _ (hvariants.trans ?_))⟩
  rw [Value.items, List.mapM_cons, List.mapM_cons, List.mapM_cons, hnull, hbool] at hentries
  obtain rfl := Except.ok.inj hentries
  rfl

end Variant
end JsonSurvey
