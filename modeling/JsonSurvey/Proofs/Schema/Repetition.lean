import JsonSurvey.Proofs.Schema.Extraction

/-! Nodes that are merged once more change nothing. A group to which nodes are added that it has
already gives the same merged node, in the same order at every depth (`merged_append_of_subset`).
The induction is on the recursion of `merged`. At each step the values that the added nodes pool
under a key, and the items that they pool, are again among those of the group, whatever their order
and number is. -/

namespace JsonSurvey.Schema

theorem flatMap_subset {α β : Type} (f : α → List β) {l m : List α} (h : l ⊆ m) :
    l.flatMap f ⊆ m.flatMap f := by
  intro b hb
  obtain ⟨a, ha, hmem⟩ := List.mem_flatMap.mp hb
  exact List.mem_flatMap.mpr ⟨a, h ha, hmem⟩

theorem any_append_of_subset {α : Type} (p : α → Bool) {l m : List α} (h : m ⊆ l) :
    (l ++ m).any p = l.any p := by
  rw [List.any_append, Bool.or_eq_left_iff_imp]
  intro hany
  obtain ⟨a, ha, hp⟩ := List.any_eq_true.mp hany
  exact List.any_eq_true.mpr ⟨a, h ha, hp⟩

/-! ### Nodes -/

section
variable {group repeated : List Value} (hsub : repeated ⊆ group)
include hsub

theorem textTagged_append_of_subset (h : TextTagged group) : TextTagged (group ++ repeated) := by
  intro node hnode
  rcases List.mem_append.mp hnode with hnode | hnode
  · exact h node hnode
  · exact h node (hsub hnode)

theorem unionNames_append_of_subset : unionNames (group ++ repeated) = unionNames group := by
  rw [unionNames, List.flatMap_append,
    firstOccurrences_append_of_subset (flatMap_subset tagNames hsub), unionNames]

theorem keys_pooledProperties_append_of_subset :
    (pooledProperties (group ++ repeated)).map (·.1) = (pooledProperties group).map (·.1) := by
  rw [pooledProperties, keys_pool, List.flatMap_append, List.map_append, pooledProperties,
    keys_pool]
  apply firstOccurrences_append_of_subset
  exact List.map_subset _ (flatMap_subset ownProperties hsub)

/-- The values that the added nodes pool under a key are among those of the group. -/
theorem valuesUnder_subset (key : Text) :
    Value.valuesUnder key (repeated.flatMap ownProperties) ⊆
      Value.valuesUnder key (group.flatMap ownProperties) := by
  rw [Value.valuesUnder_flatMap, Value.valuesUnder_flatMap]
  exact flatMap_subset _ hsub

theorem pooledItems_subset : pooledItems repeated ⊆ pooledItems group :=
  List.filterMap_subset ownItems? hsub

end

theorem pooledItems_append (group group' : List Value) :
    pooledItems (group ++ group') = pooledItems group ++ pooledItems group' :=
  List.filterMap_append

/-- Adding nodes that a group has already does not change the merged node. -/
theorem merged_append_of_subset {group repeated : List Value} (h : TextTagged group)
    (hsub : repeated ⊆ group) : merged (group ++ repeated) = merged group := by
  induction group using merged.induct generalizing repeated with
  | case1 group ihp ihi =>
    have hprops : (pooledProperties (group ++ repeated)).map (fun p => (p.1, merged p.2)) =
        (pooledProperties group).map fun p => (p.1, merged p.2) := by
      rw [map_pooledProperties, map_pooledProperties, keys_pooledProperties_append_of_subset hsub]
      apply List.map_congr_left
      intro key hkey
      rw [pooledProperties, keys_pool, mem_firstOccurrences] at hkey
      have hpool := mem_pool.mpr ⟨hkey, rfl⟩
      rw [List.flatMap_append, Value.valuesUnder_append,
        ihp key _ hpool (h.pooledProperties hpool) (valuesUnder_subset hsub key)]
    have hitems : group.any (hasKind .array) = true →
        merged (pooledItems (group ++ repeated)) = merged (pooledItems group) := by
      intro hany
      rw [pooledItems_append, ihi hany h.pooledItems (pooledItems_subset hsub)]
    rw [merged_eq (textTagged_append_of_subset hsub h), merged_eq h,
      unionNames_append_of_subset hsub, any_append_of_subset _ hsub, any_append_of_subset _ hsub,
      any_append_of_subset _ hsub, hprops]
    congr 1
    split
    · next hany => rw [hitems hany]
    · rfl

/-! ### Arrays -/

theorem summary_append_of_subset {vs repeated : List Value} (h : ∀ v ∈ vs, v.IsJson)
    (hsub : repeated ⊆ vs) : summary (vs ++ repeated) = summary vs := by
  rw [summary, List.map_append, summary]
  exact merged_append_of_subset (textTagged_map_outline h) (List.map_subset outline hsub)

theorem outline_array {form : ArrayForm} {es : List Value} (h : (Value.array form es).IsJson) :
    outline (.array form es) =
      node (typeOfTags ([Kind.array.tag].map .string)) none (some (summary es)) false := by
  rw [outline_eq h rfl]
  rfl

theorem nestsWithin_array_append_of_subset {form : ArrayForm} {es repeated : List Value}
    (hsub : repeated ⊆ es) (limit : Nat) :
    (Value.array form (es ++ repeated)).nestsWithin limit =
      (Value.array form es).nestsWithin limit := by
  rw [Bool.eq_iff_iff, Value.nestsWithin_array, Value.nestsWithin_array]
  refine exists_congr fun inner => and_congr_right fun _ => ?_
  rw [List.forall_mem_append]
  exact and_iff_left_of_imp fun h e he => h e (hsub he)

/-- Appending elements that an array has already does not change its schema, nor whether the array
nests too deeply for one. -/
theorem extract_append_of_subset {form : ArrayForm} {es repeated : List Value}
    (h : (Value.array form es).IsJson) (hsub : repeated ⊆ es) :
    extract (.array form (es ++ repeated)) = extract (.array form es) := by
  have helements : ∀ e ∈ es, e.IsJson := h.elements rfl
  have happend : (Value.array form (es ++ repeated)).IsJson := by
    apply Value.IsJson.array
    rw [List.forall_mem_append]
    exact ⟨helements, fun e he => helements e (hsub he)⟩
  rw [extract, extract, nestsWithin_array_append_of_subset hsub, describe_eq happend,
    describe_eq h, outline_array happend, outline_array h, summary_append_of_subset helements hsub]

/-- Merging a group once more with nodes that it has already gives the same node, and the schema of
an array stays the same if elements are appended that it has already. -/
theorem merge_absorbs_repeated :
    (∀ {group repeated : List Value} {m : Value}, TextTagged group → merge group = .ok m →
      repeated ⊆ group → merge (group ++ repeated) = .ok m) ∧
    ∀ {form : ArrayForm} {es repeated : List Value}, (Value.array form es).IsJson →
      repeated ⊆ es → extract (.array form (es ++ repeated)) = extract (.array form es) := by
  refine ⟨?_, extract_append_of_subset⟩
  intro group repeated m htags hm hsub
  obtain ⟨hsound, rfl⟩ := merge_eq_ok_iff.mp hm
  apply merge_eq_ok_iff.mpr
  refine ⟨?_, (merged_append_of_subset htags hsub).symm⟩
  rw [List.forall_mem_append]
  exact ⟨hsound, fun node hnode => hsound node (hsub hnode)⟩

/-- Two objects with one key in common, the second of which comes twice more and the first once. -/
theorem merge_absorbs_repeated_objects :
    let v := Value.object [("a", .null)]
    let w := Value.object [("b", .bool true), ("a", .list [.null])]
    let group := [outline v, outline w]
    let repeated := [outline w, outline v, outline w]
    merge group = .ok (merged group) ∧ merge (group ++ repeated) = .ok (merged group) ∧
      extract (.list ([v, w] ++ [w, v, w])) = extract (.list [v, w]) := by
  intro v w group repeated
  have hjson : ∀ u ∈ [v, w], u.IsJson := by
    simp only [List.forall_mem_cons]
    refine ⟨.object (by decide) ?_, .object (by decide) ?_, nofun⟩
    · simpa using Value.IsJson.null
    · simpa using ⟨.bool true, .array (by simpa using Value.IsJson.null)⟩
  have hm : merge group = .ok (merged group) := by
    refine merge_eq_ok_iff.mpr ⟨fun node hnode => ?_, rfl⟩
    obtain ⟨u, hu, rfl⟩ := List.mem_map.mp (show node ∈ [v, w].map outline from hnode)
    exact (isNormal_outline (hjson u hu)).everywhere fun _ => IsNormal.isSound
  refine ⟨hm, merge_absorbs_repeated.1 (textTagged_map_outline hjson) hm ?_,
    merge_absorbs_repeated.2 (.array hjson) ?_⟩
  · simp [repeated, group]
  · simp

end JsonSurvey.Schema
