import JsonSurvey.Proofs.Schema.Merge

/-! When a merge fails. Merging a group goes into further groups, the values under each key in the
properties of its nodes that describe objects and the items of its nodes that describe arrays
(`Reaches`), and it fails exactly if one of these groups has a node that cannot be looked at
(`merge_fails_iff`). The fault comes from such a node by the recursion of the merge
(`exists_malformed`); that no such node is passed over is the induction over the groups that are
reached (`Reaches.everywhere`).

Each node of a group can be looked at or not whatever the others are, so the order of the group does
not matter, and neither does what a node has beside the parts that its tags call for. -/

namespace JsonSurvey.Schema

/-! ### The groups of a merge -/

/-- The groups that merging a group goes into, itself included. -/
inductive Reaches (group : List Value) : List Value → Prop
  | self : Reaches group group
  | properties {inner : List Value} (key : Text) : Reaches group inner →
    Reaches group (Value.valuesUnder key (inner.flatMap ownProperties))
  | items {inner : List Value} : Reaches group inner → inner.any (hasKind .array) = true →
    Reaches group (pooledItems inner)

namespace Reaches
variable {group inner innermost : List Value}

theorem trans (h : Reaches group inner) (h' : Reaches inner innermost) :
    Reaches group innermost := by
  induction h' with
  | self => exact h
  | properties key _ ih => exact .properties key ih
  | items _ hany ih => exact .items ih hany

/-- What holds everywhere in the nodes of a group does so in each group that is reached. -/
theorem everywhere {P : Value → Prop} (hreaches : Reaches group inner)
    (h : ∀ node ∈ group, Everywhere P node) : ∀ node ∈ inner, Everywhere P node := by
  induction hreaches with
  | self => exact h
  | properties key _ ih =>
    intro v hv
    obtain ⟨node, hnode, hm⟩ := List.mem_flatMap.mp (Value.mem_valuesUnder.mp hv)
    exact (ih node hnode).property hm
  | items _ _ ih => exact everywhere_of_pooledItems ih

end Reaches

/-! ### Nodes that cannot be looked at -/

/-- A node that a merge cannot look at, with the fault that is told of it: it is not an object, or
it describes objects and has something for its properties that is not an object. -/
inductive Malformed : Value → Fault → Prop
  | notObject {node : Value} : (∀ members, node ≠ .object members) →
    Malformed node (.lacks node.typeName "get")
  | properties {node ps : Value} : hasKind .object node = true →
    member? propertiesKey node = some ps → ps.isVoid = false →
    (∀ members, ps ≠ .object members) → Malformed node (.lacks ps.typeName "items")

section
variable {node : Value} {fault : Fault}

theorem malformed_of_nodeFault? (h : nodeFault? node = some fault) : Malformed node fault := by
  cases node with
  | object members => contradiction
  | _ => cases h; exact .notObject nofun

theorem malformed_of_propertiesFault? (h : propertiesFault? node = some fault) :
    Malformed node fault := by
  rw [propertiesFault?] at h
  obtain ⟨hkind, h⟩ := Option.ite_none_right_eq_some.mp h
  split at h
  · contradiction
  · contradiction
  · next ps hobject hps =>
    obtain ⟨hvoid, hfault⟩ := Option.ite_none_left_eq_some.mp h
    cases hfault
    exact .properties hkind hps (Bool.eq_false_iff.mpr hvoid) hobject

theorem Malformed.not_isSound (h : Malformed node fault) : ¬IsSound node := by
  rintro ⟨hnode, hprops⟩
  cases h with
  | notObject hobject =>
    cases node with
    | object members => exact hobject members rfl
    | _ => contradiction
  | @properties ps hkind hps hvoid hobject =>
    rw [propertiesFault?, if_pos hkind, hps] at hprops
    cases ps with
    | object members => exact hobject members rfl
    | _ => simp [hvoid] at hprops

theorem Malformed.eq_lacks (h : Malformed node fault) :
    ∃ typeName part, fault = .lacks typeName part := by
  cases h with
  | notObject _ => exact ⟨_, _, rfl⟩
  | properties _ _ _ _ => exact ⟨_, _, rfl⟩

end

/-! ### The fault of a merge -/

theorem merge_eq_error_iff {group : List Value} {fault : Fault} :
    merge group = .error fault ↔ mergeFault? group = some fault := by
  rw [merge]
  cases mergeFault? group <;> simp

/-- A merge fails exactly if some node is not sound wherever the merge goes. -/
theorem exists_merge_eq_error_iff {group : List Value} :
    (∃ fault, merge group = .error fault) ↔ ¬∀ node ∈ group, Everywhere IsSound node := by
  rw [← mergeFault?_eq_none_iff, ← ne_eq, Option.ne_none_iff_exists']
  exact exists_congr fun _ => merge_eq_error_iff

/-- The fault of a merge is that of a node in one of the groups that it goes into. -/
theorem exists_malformed {group : List Value} {fault : Fault} (h : mergeFault? group = some fault) :
    ∃ inner, Reaches group inner ∧ ∃ node ∈ inner, Malformed node fault := by
  induction group using merged.induct with
  | case1 group ihp ihi =>
    rw [mergeFault?_eq, Option.or_eq_some_iff, Option.or_eq_some_iff, Option.or_eq_some_iff] at h
    rcases h with hnode | ⟨-, hprops | ⟨-, hpool | ⟨-, hitems⟩⟩⟩
    · obtain ⟨node, hmem, hfault⟩ := List.exists_of_findSome?_eq_some hnode
      exact ⟨group, .self, node, hmem, malformed_of_nodeFault? hfault⟩
    · obtain ⟨node, hmem, hfault⟩ := List.exists_of_findSome?_eq_some hprops
      exact ⟨group, .self, node, hmem, malformed_of_propertiesFault? hfault⟩
    · obtain ⟨⟨key, values⟩, hmem, hfault⟩ := List.exists_of_findSome?_eq_some hpool
      obtain ⟨inner, hreaches, hnode⟩ := ihp key values hmem hfault
      obtain ⟨-, rfl⟩ := mem_pool.mp hmem
      exact ⟨inner, (Reaches.properties key .self).trans hreaches, hnode⟩
    · obtain ⟨hany, hfault⟩ := Option.ite_none_right_eq_some.mp hitems
      obtain ⟨inner, hreaches, hnode⟩ := ihi hany hfault
      exact ⟨inner, (Reaches.items .self hany).trans hreaches, hnode⟩

/-! ### What does not matter -/

/-- Two nodes show a merge the same parts: they agree on being objects, on describing objects and
arrays, and on the properties and the items if they describe these. Nothing is said of their other
tags and members. -/
structure SameParts (node node' : Value) : Prop where
  isObject : (∃ members, node = .object members) ↔ ∃ members, node' = .object members
  object : hasKind .object node = hasKind .object node'
  array : hasKind .array node = hasKind .array node'
  properties : hasKind .object node = true →
    member? propertiesKey node = member? propertiesKey node'
  items : hasKind .array node = true → member? itemsKey node = member? itemsKey node'

namespace SameParts
variable {node node' : Value} (h : SameParts node node')
include h

theorem isSound_iff : IsSound node ↔ IsSound node' := by
  have hprops : propertiesFault? node = propertiesFault? node' := by
    rw [propertiesFault?, propertiesFault?, ← h.object]
    split
    · next hkind => rw [h.properties hkind]
    · rfl
  rw [IsSound, IsSound, nodeFault?_eq_none_iff, nodeFault?_eq_none_iff, h.isObject, hprops]

theorem ownProperties_eq : ownProperties node = ownProperties node' := by
  rw [ownProperties, ownProperties, ← h.object]
  split
  · next hkind => rw [Schema.properties, Schema.properties, h.properties hkind]
  · rfl

theorem ownItems?_eq : ownItems? node = ownItems? node' := by
  rw [ownItems?, ownItems?, ← h.array]
  split
  · next hkind => exact h.items hkind
  · rfl

theorem everywhere_isSound_iff : Everywhere IsSound node ↔ Everywhere IsSound node' := by
  constructor
  · intro hsound
    refine .intro (h.isSound_iff.mp hsound.here) (fun m hm => ?_) fun s hs => ?_
    · exact hsound.property (h.ownProperties_eq ▸ hm)
    · exact hsound.items (h.ownItems?_eq ▸ hs)
  · intro hsound
    refine .intro (h.isSound_iff.mpr hsound.here) (fun m hm => ?_) fun s hs => ?_
    · exact hsound.property (h.ownProperties_eq ▸ hm)
    · exact hsound.items (h.ownItems?_eq ▸ hs)

end SameParts

/-- A merge fails exactly if one of the groups that it goes into has a node that it cannot look at,
and the fault is that of such a node, the lack of an attribute in every case. Whether it fails does
not depend on the order of the group, nor on what its nodes have beside the parts that a merge looks
into. -/
theorem merge_fails_iff (group : List Value) :
    ((∃ fault, merge group = .error fault) ↔
      ∃ inner, Reaches group inner ∧ ∃ node ∈ inner, ∃ fault, Malformed node fault) ∧
    (∀ fault, merge group = .error fault → (∃ typeName part, fault = .lacks typeName part) ∧
      ∃ inner, Reaches group inner ∧ ∃ node ∈ inner, Malformed node fault) ∧
    (∀ group', group.Perm group' →
      ((∃ fault, merge group = .error fault) ↔ ∃ fault, merge group' = .error fault)) ∧
    ∀ group', List.Forall₂ SameParts group group' →
      ((∃ fault, merge group = .error fault) ↔ ∃ fault, merge group' = .error fault) := by
  refine ⟨⟨?_, ?_⟩, ?_, ?_, ?_⟩
  · intro hfails
    obtain ⟨fault, hfault⟩ := hfails
    obtain ⟨inner, hreaches, node, hnode, hmalformed⟩ :=
      exists_malformed (merge_eq_error_iff.mp hfault)
    exact ⟨inner, hreaches, node, hnode, fault, hmalformed⟩
  · intro hmalformed
    obtain ⟨inner, hreaches, node, hnode, fault, hmalformed⟩ := hmalformed
    apply exists_merge_eq_error_iff.mpr
    intro hsound
    exact hmalformed.not_isSound (hreaches.everywhere hsound node hnode).here
  · intro fault hfault
    obtain ⟨inner, hreaches, node, hnode, hmalformed⟩ :=
      exists_malformed (merge_eq_error_iff.mp hfault)
    exact ⟨hmalformed.eq_lacks, inner, hreaches, node, hnode, hmalformed⟩
  · intro group' hperm
    rw [exists_merge_eq_error_iff, exists_merge_eq_error_iff]
    apply not_congr
    exact forall_congr' fun node => imp_congr_left hperm.mem_iff
  · intro group' hparts
    rw [exists_merge_eq_error_iff, exists_merge_eq_error_iff]
    apply not_congr
    induction hparts with
    | nil => exact Iff.rfl
    | cons hnode _ ih =>
      rw [List.forall_mem_cons, List.forall_mem_cons]
      exact and_congr hnode.everywhere_isSound_iff ih

/-- Properties that are a number, in the items of a node: they matter if the node describes arrays,
and do not if it describes strings. -/
theorem merge_fails_iff_items :
    let inner := Value.object [("type", .string "object"), ("properties", .int 1)]
    let group := fun kind : Kind => [Value.object [("type", .string kind.tag), ("items", inner)]]
    (∃ fault, merge (group .array) = .error fault) ∧ ∃ m, merge (group .string) = .ok m := by
  intro inner group
  constructor
  · have hmalformed : Malformed inner (.lacks "int" "items") :=
      @Malformed.properties inner (.int 1) rfl rfl rfl nofun
    apply (merge_fails_iff (group .array)).1.mpr
    exact ⟨[inner], .items .self rfl, inner, List.mem_singleton_self _, _, hmalformed⟩
  · refine ⟨merged (group .string), merge_eq_ok_iff.mpr ⟨fun node hnode => ?_, rfl⟩⟩
    obtain rfl := List.mem_singleton.mp hnode
    exact .intro ⟨rfl, rfl⟩ nofun nofun

end JsonSurvey.Schema
