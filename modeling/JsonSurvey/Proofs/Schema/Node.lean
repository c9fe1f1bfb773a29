import JsonSurvey.Proofs.FirstOccurrence
import JsonSurvey.Proofs.Value
import JsonSurvey.Schema

/-! Nodes seen through their views. The views of a node made by `node` give back its parts, and
`Everywhere P` says that `P` holds of a node and of every node that a merge of it goes into: the
properties of a node that describes objects and the items of a node that describes arrays.

`IsNormal` is the normal form of a schema. Its members are in a fixed order and are there exactly
if its tags call for them, and its tags and the keys of its properties are without repetition. -/

namespace JsonSurvey.Schema

/-! ### Tags -/

/-- The tags of a node are texts. -/
def HasTextTags (node : Value) : Prop := ∀ t ∈ tags node, ∃ s, t = .string s

/-- The tags of a node that are texts, as texts. -/
def tagNames (node : Value) : List Text := (tags node).filterMap Value.text?

@[simp] theorem same_string_iff {s : Text} {v : Value} :
    Value.same (.string s) v = true ↔ v = .string s := by
  cases v with
  | string t =>
    rw [Value.same, beq_iff_eq, Value.string.injEq]
    exact eq_comm
  | _ => exact ⟨nofun, nofun⟩

theorem text?_eq_some {v : Value} {s : Text} : v.text? = some s ↔ v = .string s := by
  cases v <;> simp [Value.text?]

theorem mem_tagNames {node : Value} {s : Text} : s ∈ tagNames node ↔ .string s ∈ tags node := by
  simp [tagNames, text?_eq_some]

theorem eq_map_string {ts : List Value} (h : ∀ t ∈ ts, ∃ s, t = .string s) :
    ts = (ts.filterMap Value.text?).map .string := by
  induction ts with
  | nil => rfl
  | cons t ts ih =>
    obtain ⟨s, rfl⟩ := h t List.mem_cons_self
    rw [List.filterMap_cons_some (text?_eq_some.mpr rfl), List.map_cons,
      ← ih fun t ht => h t (.tail _ ht)]

theorem HasTextTags.tags_eq {node : Value} (h : HasTextTags node) :
    tags node = (tagNames node).map .string := eq_map_string h

theorem typeOfTags_of_length_ne_one {ts : List Value} (h : ts.length ≠ 1) :
    typeOfTags ts = .list ts := by
  match ts with
  | [] => rfl
  | [_] => contradiction
  | _ :: _ :: _ => rfl

/-- A list as the type of a node lists all its tags. -/
theorem eq_of_typeOfTags_eq_array {names : List Text} {form : ArrayForm} {ts : List Value}
    (h : typeOfTags (names.map .string) = .array form ts) : ts = names.map .string := by
  match names with
  | [] | _ :: _ :: _ => cases h; rfl
  | [_] => contradiction

/-- A node with the type made of some tags has these tags. -/
theorem tags_eq_of_typeOfTags {node : Value} {names : List Text}
    (h : member? typeKey node = some (typeOfTags (names.map .string))) :
    tags node = names.map .string := by
  rw [tags, h]
  match names with
  | [] | [_] | _ :: _ :: _ => rfl

theorem hasKind_iff {kind : Kind} {node : Value} :
    hasKind kind node = true ↔ kind.tag ∈ tagNames node := by
  simp [hasKind, mem_tagNames]

theorem any_hasKind_iff {kind : Kind} {group : List Value} :
    group.any (hasKind kind) = true ↔ kind.tag ∈ group.flatMap tagNames := by
  simp [hasKind_iff]

/-! ### The views of a node made of parts -/

/-- The members of a node made of parts. -/
def nodeMembers (type : Value) (properties : Option (List (Text × Value))) (items : Option Value)
    (coordinate : Bool) : List (Text × Value) :=
  (typeKey, type) ::
    ((properties.map fun ps => (propertiesKey, Value.object ps)).toList ++
      (items.map fun s => (itemsKey, s)).toList ++
      if coordinate then [(coordinateKey, .bool true)] else [])

section
variable {type : Value} {names : List Text} {properties : Option (List (Text × Value))}
  {items : Option Value} {coordinate : Bool} {kind : Kind}

theorem node_eq_object :
    node type properties items coordinate =
      .object (nodeMembers type properties items coordinate) := rfl

theorem forall_mem_nodeMembers {P : Text × Value → Prop} :
    (∀ m ∈ nodeMembers type properties items coordinate, P m) ↔
      P (typeKey, type) ∧ (∀ ps, properties = some ps → P (propertiesKey, .object ps)) ∧
        (∀ s, items = some s → P (itemsKey, s)) ∧
        (coordinate = true → P (coordinateKey, .bool true)) := by
  cases properties <;> cases items <;> cases coordinate <;> simp [nodeMembers]

theorem nodup_keys_nodeMembers :
    ((nodeMembers type properties items coordinate).map (·.1)).Nodup := by
  have hsub : ((nodeMembers type properties items coordinate).map (·.1)).Sublist
      [typeKey, propertiesKey, itemsKey, coordinateKey] := by
    cases properties <;> cases items <;> cases coordinate <;> simp [nodeMembers]
  exact hsub.nodup (by decide)

theorem member?_node_eq_some {key : Text} {v : Value} :
    member? key (node type properties items coordinate) = some v ↔
      (key, v) ∈ nodeMembers type properties items coordinate :=
  Value.lookup_eq_some_iff nodup_keys_nodeMembers

theorem member?_type_node : member? typeKey (node type properties items coordinate) = some type :=
  member?_node_eq_some.mpr List.mem_cons_self

theorem member?_properties_node :
    member? propertiesKey (node type properties items coordinate) = properties.map .object := by
  ext v
  rw [member?_node_eq_some]
  simp +decide [nodeMembers]

theorem member?_items_node :
    member? itemsKey (node type properties items coordinate) = items := by
  ext v
  rw [member?_node_eq_some]
  simp +decide [nodeMembers]

theorem member?_coordinate_node :
    member? coordinateKey (node type properties items coordinate) =
      if coordinate then some (.bool true) else none := by
  ext v
  rw [member?_node_eq_some]
  cases coordinate with
  | false => simp +decide [nodeMembers]
  | true => simpa +decide [nodeMembers] using eq_comm

theorem tags_node :
    tags (node (typeOfTags (names.map .string)) properties items coordinate) =
      names.map .string := tags_eq_of_typeOfTags member?_type_node

@[simp] theorem tagNames_node :
    tagNames (node (typeOfTags (names.map .string)) properties items coordinate) = names := by
  rw [tagNames, tags_node, List.filterMap_map]
  exact List.filterMap_some

theorem hasTextTags_node :
    HasTextTags (node (typeOfTags (names.map .string)) properties items coordinate) := by
  intro t ht
  rw [tags_node] at ht
  obtain ⟨s, _, rfl⟩ := List.mem_map.mp ht
  exact ⟨s, rfl⟩

@[simp] theorem hasKind_node :
    hasKind kind (node (typeOfTags (names.map .string)) properties items coordinate) =
      names.contains kind.tag := by
  rw [Bool.eq_iff_iff, hasKind_iff, tagNames_node, List.contains_iff_mem]

theorem properties_node :
    Schema.properties (node type properties items coordinate) = properties.getD [] := by
  rw [Schema.properties, member?_properties_node]
  cases properties <;> rfl

theorem ownProperties_node (h : properties.isSome = names.contains Kind.object.tag) :
    ownProperties (node (typeOfTags (names.map .string)) properties items coordinate) =
      properties.getD [] := by
  rw [ownProperties, hasKind_node, ← h, properties_node]
  cases properties <;> rfl

theorem ownItems?_node (h : items.isSome = names.contains Kind.array.tag) :
    ownItems? (node (typeOfTags (names.map .string)) properties items coordinate) = items := by
  rw [ownItems?, hasKind_node, ← h, member?_items_node]
  cases items <;> rfl

@[simp] theorem marksCoordinate_node :
    marksCoordinate (node type properties items coordinate) = coordinate := by
  rw [marksCoordinate, member?_coordinate_node]
  cases coordinate <;> rfl

@[simp] theorem nodeFault?_node : nodeFault? (node type properties items coordinate) = none := rfl

@[simp] theorem propertiesFault?_node :
    propertiesFault? (node type properties items coordinate) = none := by
  rw [propertiesFault?, member?_properties_node]
  cases properties <;> simp

end

/-! ### Everywhere in a node -/

/-- A property of a node and of every node that a merge of it goes into. -/
inductive Everywhere (P : Value → Prop) : Value → Prop
  | intro {node : Value} : P node → (∀ m ∈ ownProperties node, Everywhere P m.2) →
    (∀ s, ownItems? node = some s → Everywhere P s) → Everywhere P node

namespace Everywhere
variable {P : Value → Prop} {node : Value}

theorem here : Everywhere P node → P node
  | intro h _ _ => h

theorem property {m : Text × Value} (h : Everywhere P node) (hm : m ∈ ownProperties node) :
    Everywhere P m.2 := by
  cases h with | intro _ h _ => exact h m hm

theorem items {s : Value} (h : Everywhere P node) (hs : ownItems? node = some s) :
    Everywhere P s := by
  cases h with | intro _ _ h => exact h s hs

end Everywhere

/-- A node that shows tags and nothing else. -/
def bareNode (names : List Text) : Value := node (typeOfTags (names.map .string)) none none false

theorem everywhere_bareNode {P : Value → Prop} {names : List Text} (h : P (bareNode names)) :
    Everywhere P (bareNode names) := by
  refine .intro h (fun m hm => ?_) fun s hs => ?_
  · simp [ownProperties, bareNode, properties_node] at hm
  · simp [ownItems?, bareNode, member?_items_node] at hs

/-! ### Normal form -/

/-- The normal form of a schema. -/
inductive IsNormal : Value → Prop
  | node {names : List Text} {properties : Option (List (Text × Value))} {items : Option Value}
    {coordinate : Bool} :
    names.Nodup →
    (properties.isSome = names.contains Kind.object.tag) →
    (items.isSome = names.contains Kind.array.tag) →
    (∀ ps, properties = some ps → (ps.map (·.1)).Nodup) →
    (∀ ps, properties = some ps → ∀ m ∈ ps, IsNormal m.2) →
    (∀ s, items = some s → IsNormal s) →
    IsNormal (node (typeOfTags (names.map .string)) properties items coordinate)

namespace IsNormal
variable {P : Value → Prop} {node : Value}

theorem eq_object (h : IsNormal node) : ∃ members, node = .object members := by
  cases h with | node => exact ⟨_, node_eq_object⟩

theorem hasTextTags (h : IsNormal node) : HasTextTags node := by
  cases h with | node => exact hasTextTags_node

theorem everywhere (hP : ∀ node, IsNormal node → P node) (h : IsNormal node) :
    Everywhere P node := by
  have hnode := h
  induction h with
  | @node _ properties _ _ _ hp hi _ hps hs ihp ihi =>
    refine .intro (hP _ hnode) (fun m hm => ?_) fun s hs' => ?_
    · rw [ownProperties_node hp] at hm
      cases properties with
      | none => contradiction
      | some ps => exact ihp ps rfl m hm (hps ps rfl m hm)
    · rw [ownItems?_node hi] at hs'
      exact ihi s hs' (hs s hs')

end IsNormal

end JsonSurvey.Schema
