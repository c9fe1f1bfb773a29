import JsonSurvey.Proofs.Schema.Canonical

/-! The canonical form of a merged node depends only on the set of canonical forms of the nodes of
the group (`canonical_merged_congr`). The induction is on the recursion of `merged`; at each step
the groups pooled under a key, and the pooled items, again have the same set of canonical forms,
whatever their orders and lengths are. -/

namespace JsonSurvey.Schema

/-! ### Nodes with one canonical form -/

theorem eq_object_of_canonical_eq {v : Value} {members : List (Text × Value)}
    (h : canonical v = .object members) : ∃ ms, v = .object ms := by
  cases v with
  | object ms => exact ⟨ms, rfl⟩
  | _ => contradiction

theorem properties_eq_of_mem {node : Value} {m : Text × Value} (h : m ∈ properties node) :
    member? propertiesKey node = some (.object (properties node)) := by
  unfold properties at h ⊢
  split at h
  · next ps hps => rw [hps]
  · contradiction

section
variable {node node' : Value} (hnode : Everywhere HasTextTags node)
  (hnode' : Everywhere HasTextTags node') (h : canonical node = canonical node')
include hnode hnode' h

theorem hasKind_congr (kind : Kind) : hasKind kind node = hasKind kind node' := by
  rw [Bool.eq_iff_iff, hasKind_iff, hasKind_iff, mem_tagNames_congr hnode.here hnode'.here h]

/-- A property of a node has its counterpart in every node with the same canonical form. -/
theorem exists_ownProperty (hsound : Everywhere IsSound node) (hsound' : Everywhere IsSound node')
    {m : Text × Value} (hm : m ∈ ownProperties node) :
    ∃ m' ∈ ownProperties node', m.1 = m'.1 ∧ canonical m.2 = canonical m'.2 := by
  have hmem := hm
  rw [ownProperties] at hm
  split at hm
  · next hkind =>
    have hprops := congrArg (member? propertiesKey) h
    rw [member?_canonical, member?_canonical, properties_eq_of_mem hm, Option.map_some,
      canonicalUnder_object, canonical_object, eq_comm, Option.map_eq_some_iff] at hprops
    obtain ⟨v, hv, hcanonical⟩ := hprops
    rw [canonicalUnder_properties] at hcanonical
    obtain ⟨ps, rfl⟩ := eq_object_of_canonical_eq hcanonical
    rw [canonical_object, Value.object.injEq] at hcanonical
    have hin : (m.1, canonicalUnder m.1 m.2) ∈ sortMembers (ps.map fun m =>
        (m.1, canonicalUnder m.1 m.2)) := by
      rw [hcanonical, mem_sortMembers]
      exact List.mem_map.mpr ⟨m, hm, rfl⟩
    obtain ⟨m', hm', heq⟩ := List.mem_map.mp (mem_sortMembers.mp hin)
    rw [Prod.mk.injEq] at heq
    have hown : m' ∈ ownProperties node' := by
      rw [ownProperties, if_pos (hasKind_congr hnode hnode' h .object ▸ hkind), properties, hv]
      exact hm'
    obtain ⟨ms, hms⟩ := nodeFault?_eq_none_iff.mp (hsound.property hmem).here.1
    obtain ⟨ms', hms'⟩ := nodeFault?_eq_none_iff.mp (hsound'.property hown).here.1
    refine ⟨m', hown, heq.1.symm, ?_⟩
    have hunder := heq.2
    rw [hms, hms', canonicalUnder_object, canonicalUnder_object] at hunder
    rw [hms, hms', hunder]
  · contradiction

theorem exists_ownItems {s : Value} (hs : ownItems? node = some s) :
    ∃ s', ownItems? node' = some s' ∧ canonical s = canonical s' := by
  rw [ownItems?] at hs
  obtain ⟨hkind, hs⟩ := Option.ite_none_right_eq_some.mp hs
  have hitems := congrArg (member? itemsKey) h
  rw [member?_canonical, member?_canonical, hs, Option.map_some, eq_comm, Option.map_eq_some_iff]
    at hitems
  obtain ⟨s', hs', hcanonical⟩ := hitems
  rw [canonicalUnder_items, canonicalUnder_items] at hcanonical
  refine ⟨s', ?_, hcanonical.symm⟩
  rw [ownItems?, if_pos (hasKind_congr hnode hnode' h .array ▸ hkind), hs']

end

/-! ### Groups with one set of canonical forms -/

/-- The nodes of a group can be merged, and all tags that the merge meets are texts. -/
structure Mergeable (group : List Value) : Prop where
  textTagged : TextTagged group
  sound : ∀ node ∈ group, Everywhere IsSound node

namespace Mergeable

theorem pooledProperties {group values : List Value} {key : Text} (h : Mergeable group)
    (hpool : (key, values) ∈ pooledProperties group) : Mergeable values :=
  ⟨h.textTagged.pooledProperties hpool, everywhere_of_pooledProperties h.sound hpool⟩

theorem pooledItems {group : List Value} (h : Mergeable group) : Mergeable (pooledItems group) :=
  ⟨h.textTagged.pooledItems, everywhere_of_pooledItems h.sound⟩

end Mergeable

/-- Each node of a group has the canonical form of a node of the other group. -/
def FormsWithin (group group' : List Value) : Prop :=
  ∀ node ∈ group, ∃ node' ∈ group', canonical node = canonical node'

namespace FormsWithin
variable {group group' : List Value} (hgroup : Mergeable group) (hgroup' : Mergeable group')
  (h : FormsWithin group group')
include hgroup hgroup' h

theorem tagNames_subset : group.flatMap tagNames ⊆ group'.flatMap tagNames := by
  intro s hs
  obtain ⟨node, hnode, hmem⟩ := List.mem_flatMap.mp hs
  obtain ⟨node', hnode', heq⟩ := h node hnode
  exact List.mem_flatMap.mpr ⟨node', hnode', (mem_tagNames_congr (hgroup.textTagged node hnode).here
    (hgroup'.textTagged node' hnode').here heq).mp hmem⟩

theorem exists_property {m : Text × Value} (hm : m ∈ group.flatMap ownProperties) :
    ∃ m' ∈ group'.flatMap ownProperties, m.1 = m'.1 ∧ canonical m.2 = canonical m'.2 := by
  obtain ⟨node, hnode, hmem⟩ := List.mem_flatMap.mp hm
  obtain ⟨node', hnode', heq⟩ := h node hnode
  obtain ⟨m', hm', hfound⟩ := exists_ownProperty (hgroup.textTagged node hnode)
    (hgroup'.textTagged node' hnode') heq (hgroup.sound node hnode)
    (hgroup'.sound node' hnode') hmem
  exact ⟨m', List.mem_flatMap.mpr ⟨node', hnode', hm'⟩, hfound⟩

theorem keys_subset :
    (group.flatMap ownProperties).map (·.1) ⊆ (group'.flatMap ownProperties).map (·.1) := by
  intro key hkey
  obtain ⟨m, hm, rfl⟩ := List.mem_map.mp hkey
  obtain ⟨m', hm', heq, _⟩ := exists_property hgroup hgroup' h hm
  exact List.mem_map.mpr ⟨m', hm', heq.symm⟩

theorem valuesUnder (key : Text) :
    FormsWithin (Value.valuesUnder key (group.flatMap ownProperties))
      (Value.valuesUnder key (group'.flatMap ownProperties)) := by
  intro v hv
  obtain ⟨⟨_, v'⟩, hm', rfl, heq⟩ := exists_property hgroup hgroup' h (Value.mem_valuesUnder.mp hv)
  exact ⟨v', Value.mem_valuesUnder.mpr hm', heq⟩

theorem pooledItems : FormsWithin (pooledItems group) (pooledItems group') := by
  intro s hs
  obtain ⟨node, hnode, hitems⟩ := List.mem_filterMap.mp hs
  obtain ⟨node', hnode', heq⟩ := h node hnode
  obtain ⟨s', hs', hform⟩ := exists_ownItems (hgroup.textTagged node hnode)
    (hgroup'.textTagged node' hnode') heq hitems
  exact ⟨s', List.mem_filterMap.mpr ⟨node', hnode', hs'⟩, hform⟩

omit hgroup hgroup' in
theorem any_marksCoordinate (hany : group.any marksCoordinate = true) :
    group'.any marksCoordinate = true := by
  obtain ⟨node, hnode, hmark⟩ := List.any_eq_true.mp hany
  obtain ⟨node', hnode', heq⟩ := h node hnode
  refine List.any_eq_true.mpr ⟨node', hnode', ?_⟩
  rw [← marksCoordinate_canonical, ← heq, marksCoordinate_canonical, hmark]

end FormsWithin

/-- The canonical form of a merged node depends on the set of canonical forms in the group. -/
theorem canonical_merged_congr {group group' : List Value} (hgroup : Mergeable group)
    (hgroup' : Mergeable group') (h : FormsWithin group group') (h' : FormsWithin group' group) :
    canonical (merged group) = canonical (merged group') := by
  induction group using merged.induct generalizing group' with
  | case1 group ihp ihi =>
    have hnames : ∀ s, s ∈ group.flatMap tagNames ↔ s ∈ group'.flatMap tagNames := fun s =>
      ⟨fun hs => h.tagNames_subset hgroup hgroup' hs,
        fun hs => h'.tagNames_subset hgroup' hgroup hs⟩
    have hany : ∀ kind, group.any (hasKind kind) = group'.any (hasKind kind) := fun kind => by
      rw [Bool.eq_iff_iff, any_hasKind_iff, any_hasKind_iff, hnames]
    have hmarks : group.any marksCoordinate = group'.any marksCoordinate := by
      rw [Bool.eq_iff_iff]
      exact ⟨h.any_marksCoordinate, h'.any_marksCoordinate⟩
    have hkeys : ((pooledProperties group).map (·.1)).Perm
        ((pooledProperties group').map (·.1)) := by
      rw [pooledProperties, keys_pool, pooledProperties, keys_pool]
      exact perm_firstOccurrences fun key =>
        ⟨fun hk => h.keys_subset hgroup hgroup' hk, fun hk => h'.keys_subset hgroup' hgroup hk⟩
    have htype : canonicalUnder typeKey (typeOfTags ((unionNames group).map .string)) =
        canonicalUnder typeKey (typeOfTags ((unionNames group').map .string)) := by
      rw [canonicalUnder_typeOfTags, canonicalUnder_typeOfTags, unionNames, unionNames,
        sortTexts_eq_of_perm (perm_firstOccurrences hnames)]
    -- the pools under a key differ in order and length, but each form of one is in the other
    have hvalues : ∀ key ∈ (pooledProperties group).map (·.1),
        canonical (merged (Value.valuesUnder key (group.flatMap ownProperties))) =
          canonical (merged (Value.valuesUnder key (group'.flatMap ownProperties))) := by
      intro key hkey
      have hkey' := hkeys.mem_iff.mp hkey
      rw [pooledProperties, keys_pool, mem_firstOccurrences] at hkey hkey'
      have hpool := mem_pool.mpr ⟨hkey, rfl⟩
      exact ihp key _ hpool (hgroup.pooledProperties hpool)
        (hgroup'.pooledProperties (mem_pool.mpr ⟨hkey', rfl⟩)) (h.valuesUnder hgroup hgroup' key)
        (h'.valuesUnder hgroup' hgroup key)
    have hprops : canonical (.object ((pooledProperties group).map fun p => (p.1, merged p.2))) =
        canonical (.object ((pooledProperties group').map fun p => (p.1, merged p.2))) := by
      rw [map_pooledProperties, map_pooledProperties]
      refine canonical_object_congr ?_ hkeys fun key hkey => ?_
      · rw [pooledProperties, keys_pool]
        exact nodup_firstOccurrences _
      · rw [canonicalUnder_merged, canonicalUnder_merged, hvalues key hkey]
    have hitems : group.any (hasKind .array) = true →
        canonical (merged (pooledItems group)) = canonical (merged (pooledItems group')) :=
      fun harray => ihi harray hgroup.pooledItems hgroup'.pooledItems
        (h.pooledItems hgroup hgroup') (h'.pooledItems hgroup' hgroup)
    rw [merged_eq hgroup.textTagged, merged_eq hgroup'.textTagged, ← hany, ← hany, ← hmarks]
    refine canonical_node_congr htype ?_ ?_
    · split
      · exact congrArg some hprops
      · rfl
    · split
      · next harray => exact congrArg some (hitems harray)
      · rfl

/-! ### The merge of a set of nodes -/

/-- Two values have one canonical form. -/
def SameForm (v w : Value) : Prop := ∃ form, canonicalize v = .ok form ∧ canonicalize w = .ok form

theorem SameForm.symm {v w : Value} (h : SameForm v w) : SameForm w v :=
  let ⟨form, hv, hw⟩ := h; ⟨form, hw, hv⟩

theorem SameForm.canonical_eq {v w : Value} (h : SameForm v w) : canonical v = canonical w := by
  obtain ⟨form, hv, hw⟩ := h
  rw [← eq_canonical_of_canonicalize hv, ← eq_canonical_of_canonicalize hw]

/-- If two groups show the same set of canonical forms, then the nodes merged from them have the
same canonical form, and they have one unless they nest too deeply. -/
theorem canonicalize_merge_congr {group group' : List Value} {m m' : Value}
    (htags : TextTagged group) (htags' : TextTagged group')
    (hm : merge group = .ok m) (hm' : merge group' = .ok m')
    (h : ∀ node ∈ group, ∃ node' ∈ group', SameForm node node')
    (h' : ∀ node' ∈ group', ∃ node ∈ group, SameForm node' node) :
    canonicalize m = canonicalize m' ∧
      (m.nestsWithin maxCanonicalDepth = true → ∃ form, canonicalize m = .ok form) := by
  obtain ⟨hsound, rfl⟩ := merge_eq_ok_iff.mp hm
  obtain ⟨hsound', rfl⟩ := merge_eq_ok_iff.mp hm'
  have hunions := (merged_isNormal htags).hasTextUnions
  refine ⟨canonicalize_congr hunions (merged_isNormal htags').hasTextUnions ?_,
    fun hdepth => ⟨_, canonicalize_eq_ok hunions hdepth⟩⟩
  refine canonical_merged_congr ⟨htags, hsound⟩ ⟨htags', hsound'⟩ (fun node hnode => ?_)
    fun node' hnode' => ?_
  · obtain ⟨node', hnode', hform⟩ := h node hnode
    exact ⟨node', hnode', hform.canonical_eq⟩
  · obtain ⟨node, hnode, hform⟩ := h' node' hnode'
    exact ⟨node, hnode, hform.canonical_eq⟩

/-- Tags in two orders, in groups of two lengths. -/
theorem canonicalize_merge_congr_bareNode :
    let node := bareNode [Kind.array.tag, Kind.object.tag]
    let node' := bareNode [Kind.object.tag, Kind.array.tag]
    SameForm node node' ∧ merge [node] = .ok (merged [node]) ∧
      merge [node', node'] = .ok (merged [node', node']) ∧
      canonicalize (merged [node]) = canonicalize (merged [node', node']) := by
  intro node node'
  have hform : SameForm node node' := by
    have hcanonical : canonical node = canonical node' := by
      refine canonical_node_congr ?_ rfl rfl
      rw [canonicalUnder_typeOfTags, canonicalUnder_typeOfTags,
        sortTexts_eq_of_perm (.swap _ _ [])]
    exact ⟨canonical node, canonicalize_eq_ok (hasTextUnions_node nofun nofun) rfl,
      hcanonical ▸ canonicalize_eq_ok (hasTextUnions_node nofun nofun) rfl⟩
  have htags : ∀ names, Everywhere HasTextTags (bareNode names) := fun _ =>
    everywhere_bareNode hasTextTags_node
  have hsound : ∀ names, Everywhere IsSound (bareNode names) := fun _ =>
    everywhere_bareNode ⟨rfl, propertiesFault?_node⟩
  have hm : merge [node] = .ok (merged [node]) :=
    merge_eq_ok_iff.mpr ⟨by simp [node, hsound], rfl⟩
  have hm' : merge [node', node'] = .ok (merged [node', node']) :=
    merge_eq_ok_iff.mpr ⟨by simp [node', hsound], rfl⟩
  refine ⟨hform, hm, hm', (canonicalize_merge_congr ?_ ?_ hm hm' ?_ ?_).1⟩
  · simp [TextTagged, node, htags]
  · simp [TextTagged, node', htags]
  · exact fun x hx => ⟨node', List.mem_cons_self, List.mem_singleton.mp hx ▸ hform⟩
  · intro x hx
    obtain rfl : x = node' := by simpa using hx
    exact ⟨node, List.mem_cons_self, hform.symm⟩

end JsonSurvey.Schema
