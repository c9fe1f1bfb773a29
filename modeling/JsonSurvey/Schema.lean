import JsonSurvey.FirstOccurrence
import JsonSurvey.Kind
import JsonSurvey.Value.Comparison

/-! Schema nodes and their merging. A node is an object whose member `type` holds one tag or a list
of tags; `properties` describes the members of objects, `items` the elements of arrays, and
`coordinate` tells that a string mentions a coordinate.

Nodes to be merged may come from anywhere, so every view of a node is total and gives nothing for a
part that is missing or has the wrong form. `merged` merges by these views alone; `mergeFault?`
tells whether the merge meets a part that it must look into and cannot, and `merge` is the two
together. -/

namespace JsonSurvey.Schema

def typeKey : Text := "type"

def propertiesKey : Text := "properties"

def itemsKey : Text := "items"

def coordinateKey : Text := "coordinate"

/-! ### Views of a node -/

/-- The member of a node under a key; there is none if the node is not an object. -/
def member? (key : Text) : Value → Option Value
  | .object ms => ms.lookup key
  | _ => none

/-- The tags of a node, repeated ones included. -/
def tags (node : Value) : List Value :=
  match member? typeKey node with
  | none => []
  | some (.array _ ts) => ts
  | some t => [t]

/-- Whether a kind is among the tags of a node. -/
def hasKind (kind : Kind) (node : Value) : Bool :=
  (tags node).any (Value.same (.string kind.tag))

/-- The properties of a node, whatever its tags. -/
def properties (node : Value) : List (Text × Value) :=
  match member? propertiesKey node with
  | some (.object ps) => ps
  | _ => []

/-- The properties of a node that describes objects. -/
def ownProperties (node : Value) : List (Text × Value) :=
  if hasKind .object node then properties node else []

/-- The description of the elements, in a node that describes arrays. -/
def ownItems? (node : Value) : Option Value :=
  if hasKind .array node then member? itemsKey node else none

/-- Whether a node tells that a string mentions a coordinate. -/
def marksCoordinate (node : Value) : Bool :=
  match member? coordinateKey node with
  | some v => !v.isVoid
  | none => false

/-! ### Building a node -/

/-- The member `type` for tags without repetition: a single tag stands alone. -/
def typeOfTags (tags : List Value) : Value :=
  match tags with
  | [t] => t
  | ts => .list ts

/-- The node of the given parts. -/
def node (type : Value) (properties : Option (List (Text × Value))) (items : Option Value)
    (coordinate : Bool) : Value :=
  .object ((typeKey, type) ::
    ((properties.map fun ps => (propertiesKey, Value.object ps)).toList ++
      (items.map fun s => (itemsKey, s)).toList ++
      if coordinate then [(coordinateKey, .bool true)] else []))

/-! ### Merging -/

/-- The values under each key, for the keys in the order of their first occurrence. -/
def pool (members : List (Text × Value)) : List (Text × List Value) :=
  (firstOccurrences (· == ·) (members.map (·.1))).map fun key =>
    (key, (members.filter (·.1 == key)).map (·.2))

/-- The properties of the nodes of a group that describe objects, pooled by key. -/
def pooledProperties (group : List Value) : List (Text × List Value) :=
  pool (group.flatMap ownProperties)

/-- The items of the nodes of a group that describe arrays. -/
def pooledItems (group : List Value) : List Value := group.filterMap ownItems?

theorem sizeAll_values_le (p : Text × Value → Bool) (members : List (Text × Value)) :
    Value.sizeAll ((members.filter p).map (·.2)) ≤ Value.sizeMembers members := by
  induction members with
  | nil => exact Nat.le_refl _
  | cons m rest ih =>
    rw [List.filter_cons]
    split <;> simp only [List.map_cons, Value.sizeAll, Value.sizeMembers] <;> omega

theorem size_le_of_lookup {members : List (Text × Value)} {key : Text} {v : Value}
    (h : members.lookup key = some v) : v.size ≤ Value.sizeMembers members := by
  induction members with
  | nil => simp at h
  | cons m rest ih =>
    simp only [Value.sizeMembers]
    rw [List.lookup_cons] at h
    split at h
    · cases h; omega
    · have := ih h; omega

theorem size_member?_lt {key : Text} {node v : Value} (h : member? key node = some v) :
    v.size < node.size := by
  cases node with
  | object ms =>
    have := size_le_of_lookup (show ms.lookup key = some v from h)
    simp only [Value.size]
    omega
  | _ => simp [member?] at h

theorem sizeMembers_ownProperties_lt (node : Value) :
    Value.sizeMembers (ownProperties node) < node.size := by
  have hpos := Value.size_pos node
  unfold ownProperties properties
  split
  · split
    · next h =>
      have := size_member?_lt h
      simp only [Value.size] at this
      omega
    · simpa [Value.sizeMembers] using hpos
  · simpa [Value.sizeMembers] using hpos

theorem sizeMembers_flatMap_le (group : List Value) :
    Value.sizeMembers (group.flatMap ownProperties) + group.length ≤ Value.sizeAll group := by
  induction group with
  | nil => simp [Value.sizeMembers, Value.sizeAll]
  | cons v rest ih =>
    have := sizeMembers_ownProperties_lt v
    simp only [List.flatMap_cons, Value.sizeMembers_append, Value.sizeAll, List.length_cons]
    omega

theorem sizeAll_pooledItems_le (group : List Value) :
    Value.sizeAll (pooledItems group) + group.length ≤ Value.sizeAll group := by
  induction group with
  | nil => simp [pooledItems, Value.sizeAll]
  | cons v rest ih =>
    have hpos := Value.size_pos v
    unfold pooledItems at ih ⊢
    rw [List.filterMap_cons]
    split
    · simp only [Value.sizeAll, List.length_cons]; omega
    · next h =>
      unfold ownItems? at h
      split at h
      · have := size_member?_lt h
        simp only [Value.sizeAll, List.length_cons]
        omega
      · contradiction

theorem sizeAll_pooledProperties_lt {group : List Value} {key : Text} {values : List Value}
    (h : (key, values) ∈ pooledProperties group) :
    Value.sizeAll values < Value.sizeAll group := by
  obtain ⟨_, _, heq⟩ := List.mem_map.mp h
  cases heq
  have hvalues := sizeAll_values_le (fun m => m.1 == key) (group.flatMap ownProperties)
  have hgroup := sizeMembers_flatMap_le group
  cases group with
  | nil => simp [pooledProperties, pool] at h
  | cons v rest =>
    simp only [List.length_cons] at hgroup
    omega

theorem sizeAll_pooledItems_lt {group : List Value} {kind : Kind} (h : group.any (hasKind kind)) :
    Value.sizeAll (pooledItems group) < Value.sizeAll group := by
  have := sizeAll_pooledItems_le group
  cases group with
  | nil => simp at h
  | cons v rest =>
    simp only [List.length_cons] at this
    omega

/-- The node that describes whatever one of the nodes of a group describes. -/
def merged (group : List Value) : Value :=
  node (typeOfTags (firstOccurrences Value.same (group.flatMap tags)))
    (if group.any (hasKind .object) then
      some ((pooledProperties group).attach.map fun ⟨(key, values), _⟩ =>
        (key, merged values))
    else none)
    (if _h : group.any (hasKind .array) then some (merged (pooledItems group)) else none)
    (group.any marksCoordinate)
termination_by Value.sizeAll group
decreasing_by
  · exact sizeAll_pooledProperties_lt (by assumption)
  · exact sizeAll_pooledItems_lt _h

/-- The fault of a node that is not an object. -/
def nodeFault? : Value → Option Fault
  | .object _ => none
  | v => some (.lacks v.typeName "get")

/-- The fault of a node that describes objects and whose properties are something and not an
object. -/
def propertiesFault? (node : Value) : Option Fault :=
  if hasKind .object node then
    match member? propertiesKey node with
    | none => none
    | some (.object _) => none
    | some v => if v.isVoid then none else some (.lacks v.typeName "items")
  else none

/-- The first fault that merging a group meets. The nodes are looked at first, then their
properties, then the groups of properties key by key, and last the group of items. -/
def mergeFault? (group : List Value) : Option Fault :=
  (group.findSome? nodeFault?).or <|
    (group.findSome? propertiesFault?).or <|
      (((pooledProperties group).attach.map fun ⟨(_, values), _⟩ =>
        mergeFault? values).findSome? id).or <|
        if _h : group.any (hasKind .array) then mergeFault? (pooledItems group) else none
termination_by Value.sizeAll group
decreasing_by
  · exact sizeAll_pooledProperties_lt (by assumption)
  · exact sizeAll_pooledItems_lt _h

/-- Merges a group of nodes into one. -/
def merge (group : List Value) : Except Fault Value :=
  match mergeFault? group with
  | some fault => .error fault
  | none => .ok (merged group)

/-- The tags of a node as a list, if it is an object. -/
def tagList (node : Value) : Except Fault (List Value) :=
  match nodeFault? node with
  | some fault => .error fault
  | none => .ok (tags node)

end JsonSurvey.Schema
