import JsonSurvey.Proofs.Schema.Node

/-! Merging by views. For nodes with text tags, every view of a merged node is told by the same view
of the group (`tagNames_merged`, `ownProperties_merged`, `ownItems?_merged`,
`marksCoordinate_merged`), the merged node is in normal form (`merged_isNormal`), and the merge has
no fault exactly if each node of the group is sound wherever the merge goes
(`mergeFault?_eq_none_iff`).

Merging in batches is merging at once (`merged_map_merged`). All inductions are on the recursion of
`merged`, from a group to its pooled properties and items. -/

namespace JsonSurvey.Schema

/-! ### Pooling -/

theorem flatMap_flatten {α β : Type} (f : α → List β) (ls : List (List α)) :
    ls.flatten.flatMap f = ls.flatMap fun l => l.flatMap f := by
  rw [List.flatten_eq_flatMap, List.flatMap_assoc]
  rfl

theorem mem_pool {key : Text} {values : List Value} {members : List (Text × Value)} :
    (key, values) ∈ pool members ↔
      key ∈ members.map (·.1) ∧ values = Value.valuesUnder key members := by
  simp only [pool, List.mem_map, mem_firstOccurrences, Prod.mk.injEq]
  constructor
  · rintro ⟨k, hk, rfl, rfl⟩
    exact ⟨hk, rfl⟩
  · rintro ⟨hk, rfl⟩
    exact ⟨key, hk, rfl, rfl⟩

theorem keys_pool (members : List (Text × Value)) :
    (pool members).map (·.1) = firstOccurrences (· == ·) (members.map (·.1)) := by
  rw [pool, List.map_map]
  exact List.map_id _

/-- Under keys that come once, each value is pooled alone. -/
theorem pool_eq_map {members : List (Text × Value)} (h : (members.map (·.1)).Nodup) :
    pool members = members.map fun m => (m.1, [m.2]) := by
  rw [pool, firstOccurrences_eq_self h, List.map_map]
  exact List.map_congr_left fun m hm => congrArg (Prod.mk m.1) (Value.valuesUnder_eq_singleton h hm)

/-- Members made from a pool have the pooled values under each of its keys. -/
theorem valuesUnder_pool_map (key : Text) (f : List Value → Value)
    (members : List (Text × Value)) :
    Value.valuesUnder key ((pool members).map fun p => (p.1, f p.2)) =
      if key ∈ members.map (·.1) then [f (Value.valuesUnder key members)] else [] := by
  have hcount := (nodup_firstOccurrences (members.map (·.1))).count (a := key)
  simp only [mem_firstOccurrences] at hcount
  rw [pool, List.map_map, Value.valuesUnder, List.filter_map, List.map_map]
  change ((firstOccurrences _ _).filter (· == key)).map _ = _
  rw [List.filter_beq, hcount]
  split <;> rfl

theorem flatMap_ownProperties_eq_nil {group : List Value}
    (h : group.any (hasKind .object) = false) : group.flatMap ownProperties = [] := by
  rw [List.flatMap_eq_nil_iff]
  intro node hnode
  rw [ownProperties, if_neg]
  exact List.any_eq_false.mp h node hnode

theorem pooledProperties_eq_nil {group : List Value} (h : group.any (hasKind .object) = false) :
    pooledProperties group = [] := by
  rw [pooledProperties, flatMap_ownProperties_eq_nil h]
  rfl

theorem pooledItems_eq_nil {group : List Value} (h : group.any (hasKind .array) = false) :
    pooledItems group = [] := by
  rw [pooledItems, List.filterMap_eq_nil_iff]
  intro node hnode
  rw [ownItems?, if_neg]
  exact List.any_eq_false.mp h node hnode

theorem map_pooledProperties (f : List Value → Value) (group : List Value) :
    (pooledProperties group).map (fun p => (p.1, f p.2)) =
      ((pooledProperties group).map (·.1)).map fun key =>
        (key, f (Value.valuesUnder key (group.flatMap ownProperties))) := by
  rw [pooledProperties, keys_pool, pool, List.map_map]
  rfl

/-! ### Groups with text tags -/

/-- The tags of the nodes of a group are texts, and so are those of every node inside them that a
merge goes into. -/
def TextTagged (group : List Value) : Prop := ∀ node ∈ group, Everywhere HasTextTags node

/-- The tags of the merged node, if all tags are texts. -/
def unionNames (group : List Value) : List Text :=
  firstOccurrences (· == ·) (group.flatMap tagNames)

/-- What holds everywhere in the nodes of a group does so in the pooled properties. -/
theorem everywhere_of_pooledProperties {P : Value → Prop} {group values : List Value} {key : Text}
    (h : ∀ node ∈ group, Everywhere P node) (hpool : (key, values) ∈ pooledProperties group) :
    ∀ node ∈ values, Everywhere P node := by
  obtain ⟨_, rfl⟩ := mem_pool.mp hpool
  intro v hv
  obtain ⟨node, hnode, hm⟩ := List.mem_flatMap.mp (Value.mem_valuesUnder.mp hv)
  exact (h node hnode).property hm

/-- What holds everywhere in the nodes of a group does so in the pooled items. -/
theorem everywhere_of_pooledItems {P : Value → Prop} {group : List Value}
    (h : ∀ node ∈ group, Everywhere P node) :
    ∀ node ∈ pooledItems group, Everywhere P node := by
  intro v hv
  obtain ⟨node, hnode, hitems⟩ := List.mem_filterMap.mp hv
  exact (h node hnode).items hitems

/-- Merging, with the tags as texts. -/
theorem merged_eq {group : List Value} (h : TextTagged group) :
    merged group = node (typeOfTags ((unionNames group).map .string))
      (if group.any (hasKind .object) then
        some ((pooledProperties group).map fun p => (p.1, merged p.2)) else none)
      (if group.any (hasKind .array) then some (merged (pooledItems group)) else none)
      (group.any marksCoordinate) := by
  have htags : group.flatMap tags = (group.flatMap tagNames).map .string := by
    rw [List.map_flatMap]
    exact List.flatMap_congr fun node hnode => (h node hnode).here.tags_eq
  have hsame : ∀ s t : Text, Value.same (.string s) (.string t) = (s == t) := fun s t => by
    rw [Value.same]
  rw [merged, htags, firstOccurrences_map hsame, unionNames]
  congr 2
  exact congrArg some (@List.attach_map_val _ _ _ fun p : Text × List Value => (p.1, merged p.2))

/-! ### Views of a merged node -/

theorem contains_unionNames (kind : Kind) (group : List Value) :
    (unionNames group).contains kind.tag = group.any (hasKind kind) := by
  rw [Bool.eq_iff_iff, List.contains_iff_mem, unionNames, mem_firstOccurrences, any_hasKind_iff]

theorem tagNames_merged {group : List Value} (h : TextTagged group) :
    tagNames (merged group) = unionNames group := by
  rw [merged_eq h, tagNames_node]

theorem ownProperties_merged {group : List Value} (h : TextTagged group) :
    ownProperties (merged group) = (pooledProperties group).map fun p => (p.1, merged p.2) := by
  rw [merged_eq h, ownProperties_node]
  · split
    · rfl
    · next hany => rw [pooledProperties_eq_nil (by simpa using hany)]; rfl
  · rw [contains_unionNames]
    split <;> simp_all

theorem ownItems?_merged {group : List Value} (h : TextTagged group) :
    ownItems? (merged group) =
      if group.any (hasKind .array) then some (merged (pooledItems group)) else none := by
  rw [merged_eq h, ownItems?_node]
  rw [contains_unionNames]
  split <;> simp_all

theorem marksCoordinate_merged {group : List Value} (h : TextTagged group) :
    marksCoordinate (merged group) = group.any marksCoordinate := by
  rw [merged_eq h, marksCoordinate_node]

/-- The property of a merged node under a key. -/
theorem member?_properties_merged {group : List Value} (h : TextTagged group) (key : Text) :
    (member? propertiesKey (merged group)).bind (member? key) =
      if key ∈ (group.flatMap ownProperties).map (·.1) then
        some (merged (Value.valuesUnder key (group.flatMap ownProperties))) else none := by
  rw [merged_eq h, member?_properties_node]
  split
  · refine (Value.lookup_eq_head? _ _).trans ?_
    rw [pooledProperties, valuesUnder_pool_map]
    split <;> rfl
  · next hany =>
    rw [flatMap_ownProperties_eq_nil (Bool.eq_false_iff.mpr hany)]
    rfl

theorem keys_properties_merged {group : List Value} (h : TextTagged group) :
    (properties (merged group)).map (·.1) =
      firstOccurrences (· == ·) ((group.flatMap ownProperties).map (·.1)) := by
  rw [merged_eq h, properties_node]
  split
  · rw [Option.getD_some, List.map_map]
    exact keys_pool _
  · next hany =>
    rw [flatMap_ownProperties_eq_nil (Bool.eq_false_iff.mpr hany)]
    rfl

theorem member?_items_merged {group : List Value} (h : TextTagged group) :
    member? itemsKey (merged group) =
      if group.any (hasKind .array) then some (merged (pooledItems group)) else none := by
  rw [merged_eq h, member?_items_node]

theorem TextTagged.pooledProperties {group values : List Value} {key : Text}
    (h : TextTagged group) (hpool : (key, values) ∈ pooledProperties group) :
    TextTagged values := everywhere_of_pooledProperties h hpool

theorem TextTagged.pooledItems {group : List Value} (h : TextTagged group) :
    TextTagged (pooledItems group) := everywhere_of_pooledItems h

/-- A merged node is in normal form. -/
theorem merged_isNormal {group : List Value} (h : TextTagged group) : IsNormal (merged group) := by
  induction group using merged.induct with
  | case1 group ihp ihi =>
    rw [merged_eq h]
    refine .node (nodup_firstOccurrences _) ?_ ?_ ?_ ?_ ?_
    · rw [contains_unionNames]; split <;> simp_all
    · rw [contains_unionNames]; split <;> simp_all
    · intro ps hps
      split at hps
      · cases hps
        rw [List.map_map]
        exact (keys_pool _).symm ▸ nodup_firstOccurrences _
      · contradiction
    · intro ps hps m hm
      split at hps
      · cases hps
        obtain ⟨p, hp, rfl⟩ := List.mem_map.mp hm
        exact ihp p.1 p.2 hp (h.pooledProperties hp)
      · contradiction
    · intro s hs
      split at hs
      · next hany => cases hs; exact ihi hany h.pooledItems
      · contradiction

theorem textTagged_of_isNormal {group : List Value} (h : ∀ node ∈ group, IsNormal node) :
    TextTagged group :=
  fun node hnode => (h node hnode).everywhere fun _ => IsNormal.hasTextTags

/-- A node in normal form is what merging it alone gives. -/
theorem merged_singleton {node : Value} (h : IsNormal node) : merged [node] = node := by
  have htags : TextTagged [node] := textTagged_of_isNormal (by simpa using h)
  induction h with
  | @node names properties items coordinate hnames hp hi hkeys hps hs ihp ihi =>
    have hnormal : ∀ {node}, IsNormal node → TextTagged [node] := fun h =>
      textTagged_of_isNormal (by simpa using h)
    have hprops : pooledProperties [Schema.node (typeOfTags (names.map .string)) properties items
        coordinate] = (properties.getD []).map fun m => (m.1, [m.2]) := by
      rw [pooledProperties, List.flatMap_singleton, ownProperties_node hp, pool_eq_map]
      cases properties with
      | none => exact List.nodup_nil
      | some ps => exact hkeys ps rfl
    have hitems : pooledItems [Schema.node (typeOfTags (names.map .string)) properties items
        coordinate] = items.toList := by
      rw [pooledItems, List.filterMap_cons, ownItems?_node hi]
      cases items <;> rfl
    rw [merged_eq htags, hprops, hitems, unionNames, List.flatMap_singleton, tagNames_node,
      firstOccurrences_eq_self hnames]
    simp only [List.any_cons, List.any_nil, Bool.or_false, hasKind_node, marksCoordinate_node,
      ← hp, ← hi]
    congr 1
    · cases properties with
      | none => rfl
      | some ps =>
        refine congrArg some ?_
        rw [Option.getD_some, List.map_map]
        refine (List.map_congr_left fun m hm => ?_).trans (List.map_id ps)
        exact congrArg (Prod.mk m.1) (ihp ps rfl m hm (hnormal (hps ps rfl m hm)))
    · cases items with
      | none => rfl
      | some s => exact congrArg some (ihi s rfl (hnormal (hs s rfl)))

/-! ### Faults -/

/-- A merge can look at a node: it is an object, and if it describes objects, then its properties
are an object or nothing. -/
def IsSound (node : Value) : Prop := nodeFault? node = none ∧ propertiesFault? node = none

theorem nodeFault?_eq_none_iff {node : Value} :
    nodeFault? node = none ↔ ∃ members, node = .object members := by
  cases node <;> simp [nodeFault?]

theorem IsNormal.isSound {node : Value} (h : IsNormal node) : IsSound node := by
  cases h with | node => exact ⟨nodeFault?_node, propertiesFault?_node⟩

theorem mergeFault?_eq (group : List Value) :
    mergeFault? group = (group.findSome? nodeFault?).or ((group.findSome? propertiesFault?).or
      (((pooledProperties group).findSome? fun p => mergeFault? p.2).or
        (if group.any (hasKind .array) then mergeFault? (pooledItems group) else none))) := by
  rw [mergeFault?]
  congr 3
  refine (congrArg (List.findSome? id) (@List.attach_map_val _ _ _ fun p : Text × List Value =>
    mergeFault? p.2)).trans ?_
  rw [List.findSome?_map]
  rfl

/-- Merging a group has no fault exactly if each node is sound wherever the merge goes. -/
theorem mergeFault?_eq_none_iff {group : List Value} :
    mergeFault? group = none ↔ ∀ node ∈ group, Everywhere IsSound node := by
  induction group using merged.induct with
  | case1 group ihp ihi =>
    rw [mergeFault?_eq, Option.or_eq_none_iff, Option.or_eq_none_iff, Option.or_eq_none_iff,
      List.findSome?_eq_none_iff, List.findSome?_eq_none_iff, List.findSome?_eq_none_iff]
    constructor
    · rintro ⟨hnode, hprops, hpool, hitems⟩ node hmem
      refine .intro ⟨hnode node hmem, hprops node hmem⟩ (fun m hm => ?_) fun s hs => ?_
      · have hm' : (m.1, m.2) ∈ group.flatMap ownProperties := List.mem_flatMap.mpr ⟨node, hmem, hm⟩
        have hp : (m.1, Value.valuesUnder m.1 (group.flatMap ownProperties)) ∈
            pooledProperties group :=
          mem_pool.mpr ⟨List.mem_map.mpr ⟨m, hm', rfl⟩, rfl⟩
        exact (ihp _ _ hp).mp (hpool _ hp) _ (Value.mem_valuesUnder.mpr hm')
      · have hs' : s ∈ pooledItems group := List.mem_filterMap.mpr ⟨node, hmem, hs⟩
        have hany : group.any (hasKind .array) = true := by
          by_contra hany
          rw [pooledItems_eq_nil (by simpa using hany)] at hs'
          contradiction
        rw [if_pos hany] at hitems
        exact (ihi hany).mp hitems s hs'
    · intro h
      refine ⟨fun node hnode => (h node hnode).here.1, fun node hnode => (h node hnode).here.2,
        fun p hp => (ihp p.1 p.2 hp).mpr (everywhere_of_pooledProperties h hp), ?_⟩
      split
      · next hany => exact (ihi hany).mpr (everywhere_of_pooledItems h)
      · rfl

theorem merge_eq_ok_iff {group : List Value} {m : Value} :
    merge group = .ok m ↔ (∀ node ∈ group, Everywhere IsSound node) ∧ m = merged group := by
  rw [merge, ← mergeFault?_eq_none_iff]
  cases mergeFault? group with
  | some fault => simp
  | none => simp [eq_comm]

theorem mapM_merge_eq_ok_iff {groups : List (List Value)} {parts : List Value} :
    groups.mapM merge = .ok parts ↔
      (∀ group ∈ groups, ∀ node ∈ group, Everywhere IsSound node) ∧ parts = groups.map merged := by
  induction groups generalizing parts with
  | nil => simp [pure, Except.pure, eq_comm]
  | cons group groups ih =>
    rw [List.mapM_cons, List.forall_mem_cons, List.map_cons]
    constructor
    · intro h
      cases hgroup : merge group with
      | error fault => rw [hgroup] at h; contradiction
      | ok m =>
        cases hrest : groups.mapM merge with
        | error fault => rw [hgroup, hrest] at h; contradiction
        | ok ms =>
          rw [hgroup, hrest] at h
          obtain ⟨hsound, rfl⟩ := merge_eq_ok_iff.mp hgroup
          obtain ⟨hsounds, rfl⟩ := ih.mp hrest
          exact ⟨⟨hsound, hsounds⟩, (Except.ok.inj h).symm⟩
    · rintro ⟨⟨hsound, hsounds⟩, rfl⟩
      rw [merge_eq_ok_iff.mpr ⟨hsound, rfl⟩, ih.mpr ⟨hsounds, rfl⟩]
      rfl

/-! ### Merging in batches -/

section Batches
variable {groups : List (List Value)} (h : ∀ group ∈ groups, TextTagged group)
include h

theorem textTagged_map_merged : TextTagged (groups.map merged) := by
  refine textTagged_of_isNormal fun node hnode => ?_
  obtain ⟨group, hgroup, rfl⟩ := List.mem_map.mp hnode
  exact merged_isNormal (h group hgroup)

theorem unionNames_map_merged : unionNames (groups.map merged) = unionNames groups.flatten := by
  have hnames : (groups.map merged).flatMap tagNames =
      groups.flatMap fun group => firstOccurrences (· == ·) (group.flatMap tagNames) := by
    rw [List.flatMap_map]
    exact List.flatMap_congr fun group hgroup => tagNames_merged (h group hgroup)
  rw [unionNames, hnames, firstOccurrences_flatMap, unionNames, flatMap_flatten]

theorem any_hasKind_map_merged (kind : Kind) :
    (groups.map merged).any (hasKind kind) = groups.flatten.any (hasKind kind) := by
  rw [← contains_unionNames, ← contains_unionNames, unionNames_map_merged h]

theorem any_marksCoordinate_map_merged :
    (groups.map merged).any marksCoordinate = groups.flatten.any marksCoordinate := by
  rw [Bool.eq_iff_iff, List.any_map, List.any_flatten, List.any_eq_true, List.any_eq_true]
  refine exists_congr fun group => and_congr_right fun hgroup => ?_
  rw [Function.comp_apply, marksCoordinate_merged (h group hgroup)]

theorem ownProperties_map_merged :
    (groups.map merged).flatMap ownProperties =
      groups.flatMap fun group => (pooledProperties group).map fun p => (p.1, merged p.2) := by
  rw [List.flatMap_map]
  exact List.flatMap_congr fun group hgroup => ownProperties_merged (h group hgroup)

/-- The keys of the properties come in the same order whether or not batches are merged first. -/
theorem keys_pooledProperties_map_merged :
    (pooledProperties (groups.map merged)).map (·.1) =
      (pooledProperties groups.flatten).map (·.1) := by
  rw [pooledProperties, keys_pool, ownProperties_map_merged h, pooledProperties, keys_pool,
    List.map_flatMap, flatMap_flatten, List.map_flatMap]
  refine Eq.trans (congrArg _ ?_) (firstOccurrences_flatMap _ _)
  refine List.flatMap_congr fun group _ => ?_
  rw [List.map_map, ← keys_pool]
  rfl

end Batches

/-- The values under a key in each batch that has the key. -/
def batchesUnder (key : Text) (groups : List (List Value)) : List (List Value) :=
  (groups.map fun group => Value.valuesUnder key (group.flatMap ownProperties)).filter (· ≠ [])

theorem batchesUnder_cons (key : Text) (group : List Value) (groups : List (List Value)) :
    batchesUnder key (group :: groups) =
      (if key ∈ (group.flatMap ownProperties).map (·.1) then
        [Value.valuesUnder key (group.flatMap ownProperties)] else []) ++
          batchesUnder key groups := by
  have hnil := @Value.valuesUnder_eq_nil key (group.flatMap ownProperties)
  rw [batchesUnder, List.map_cons, List.filter_cons]
  split <;> split <;> simp_all [batchesUnder]

theorem flatten_batchesUnder (key : Text) (groups : List (List Value)) :
    (batchesUnder key groups).flatten =
      Value.valuesUnder key (groups.flatten.flatMap ownProperties) := by
  rw [batchesUnder, List.flatten_filter_ne_nil, flatMap_flatten, Value.valuesUnder_flatMap]
  rfl

/-- The pooled items of each batch that describes arrays. -/
def itemBatches (groups : List (List Value)) : List (List Value) :=
  groups.filterMap fun group =>
    if group.any (hasKind .array) then some (pooledItems group) else none

theorem flatten_itemBatches (groups : List (List Value)) :
    (itemBatches groups).flatten = pooledItems groups.flatten := by
  rw [pooledItems, List.filterMap_flatten]
  induction groups with
  | nil => rfl
  | cons group groups ih =>
    rw [itemBatches, List.filterMap_cons, List.map_cons, List.flatten_cons, ← ih]
    by_cases hany : group.any (hasKind .array) = true
    · rw [if_pos hany]
      rfl
    · have hnil : group.filterMap ownItems? = [] := pooledItems_eq_nil (by simpa using hany)
      rw [if_neg hany, hnil]
      rfl

section Batches
variable {groups : List (List Value)} (h : ∀ group ∈ groups, TextTagged group)
include h

theorem textTagged_batchesUnder (key : Text) :
    ∀ group ∈ batchesUnder key groups, TextTagged group := by
  intro values hvalues
  obtain ⟨hmem, hne⟩ := List.mem_filter.mp hvalues
  obtain ⟨group, hgroup, rfl⟩ := List.mem_map.mp hmem
  refine (h group hgroup).pooledProperties (mem_pool.mpr ⟨?_, rfl⟩)
  simpa [Value.valuesUnder_eq_nil] using hne

theorem textTagged_itemBatches : ∀ group ∈ itemBatches groups, TextTagged group := by
  intro items hitems
  obtain ⟨group, hgroup, hsome⟩ := List.mem_filterMap.mp hitems
  obtain ⟨_, heq⟩ := Option.ite_none_right_eq_some.mp hsome
  cases heq
  exact (h group hgroup).pooledItems

theorem valuesUnder_map_merged (key : Text) :
    Value.valuesUnder key ((groups.map merged).flatMap ownProperties) =
      (batchesUnder key groups).map merged := by
  rw [ownProperties_map_merged h, Value.valuesUnder_flatMap]
  clear h
  induction groups with
  | nil => rfl
  | cons group groups ih =>
    rw [List.flatMap_cons, ih, pooledProperties, valuesUnder_pool_map, batchesUnder_cons]
    split <;> rfl

theorem pooledItems_map_merged :
    pooledItems (groups.map merged) = (itemBatches groups).map merged := by
  rw [pooledItems, List.filterMap_map, itemBatches, List.map_filterMap]
  refine List.filterMap_congr fun group hgroup => ?_
  rw [Function.comp_apply, ownItems?_merged (h group hgroup)]
  split <;> rfl

/-- Merging the batches and then the results is merging all at once. -/
theorem merged_map_merged : merged (groups.map merged) = merged groups.flatten := by
  generalize hgroup : groups.flatten = group
  -- on the recursion for all nodes at once: its pools are those of the batches, flattened
  induction group using merged.induct generalizing groups with
  | case1 group ihp ihi =>
    have hflat : TextTagged groups.flatten := by
      intro node hnode
      obtain ⟨batch, hbatch, hmem⟩ := List.mem_flatten.mp hnode
      exact h batch hbatch node hmem
    subst hgroup
    rw [merged_eq (textTagged_map_merged h), merged_eq hflat, unionNames_map_merged h,
      any_hasKind_map_merged h, any_hasKind_map_merged h, any_marksCoordinate_map_merged h]
    have hprops : (pooledProperties (groups.map merged)).map (fun p => (p.1, merged p.2)) =
        (pooledProperties groups.flatten).map fun p => (p.1, merged p.2) := by
      rw [map_pooledProperties, map_pooledProperties, keys_pooledProperties_map_merged h]
      refine List.map_congr_left fun key hkey => ?_
      rw [pooledProperties, keys_pool, mem_firstOccurrences] at hkey
      rw [valuesUnder_map_merged h, ihp key _ (mem_pool.mpr ⟨hkey, rfl⟩)
        (textTagged_batchesUnder h key) (flatten_batchesUnder key groups)]
    have hitems : groups.flatten.any (hasKind .array) = true →
        merged (pooledItems (groups.map merged)) = merged (pooledItems groups.flatten) := by
      intro hany
      rw [pooledItems_map_merged h]
      exact ihi hany (textTagged_itemBatches h) (flatten_itemBatches groups)
    rw [hprops]
    congr 1
    split
    · next hany => rw [hitems hany]
    · rfl

/-- If the batches can be merged, then so can the results, and all nodes at once, and the two
merges give the same node. -/
theorem merge_batches {parts : List Value} (hparts : groups.mapM merge = .ok parts) :
    ∃ m, merge parts = .ok m ∧ merge groups.flatten = .ok m := by
  obtain ⟨hsound, rfl⟩ := mapM_merge_eq_ok_iff.mp hparts
  refine ⟨merged groups.flatten, merge_eq_ok_iff.mpr ⟨fun node hnode => ?_, ?_⟩,
    merge_eq_ok_iff.mpr ⟨fun node hnode => ?_, rfl⟩⟩
  · obtain ⟨group, hgroup, rfl⟩ := List.mem_map.mp hnode
    exact (merged_isNormal (h group hgroup)).everywhere fun _ => IsNormal.isSound
  · exact (merged_map_merged h).symm
  · obtain ⟨group, hgroup, hmem⟩ := List.mem_flatten.mp hnode
    exact hsound group hgroup node hmem

end Batches

/-- Batches of which one is empty, and one has a node that describes arrays and objects without
items and properties. -/
theorem merge_batches_bareNode :
    let groups := [[bareNode [Kind.array.tag, Kind.object.tag]], [], [bareNode [Kind.null.tag]]]
    (∀ group ∈ groups, TextTagged group) ∧ groups.mapM merge = .ok (groups.map merged) ∧
      ∃ m, merge (groups.map merged) = .ok m ∧ merge groups.flatten = .ok m := by
  intro groups
  have htags : ∀ group ∈ groups, TextTagged group := by
    simp only [groups, List.forall_mem_cons, TextTagged, List.not_mem_nil]
    exact ⟨⟨everywhere_bareNode hasTextTags_node, nofun⟩, nofun,
      ⟨everywhere_bareNode hasTextTags_node, nofun⟩, nofun⟩
  have hparts : groups.mapM merge = .ok (groups.map merged) := by
    refine mapM_merge_eq_ok_iff.mpr ⟨?_, rfl⟩
    simp only [groups, List.forall_mem_cons, List.not_mem_nil]
    exact ⟨⟨everywhere_bareNode ⟨rfl, propertiesFault?_node⟩, nofun⟩, nofun,
      ⟨everywhere_bareNode ⟨rfl, propertiesFault?_node⟩, nofun⟩, nofun⟩
  exact ⟨htags, hparts, merge_batches htags hparts⟩

end JsonSurvey.Schema
