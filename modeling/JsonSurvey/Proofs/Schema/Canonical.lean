import JsonSurvey.Proofs.Schema.Merge
import JsonSurvey.Schema.Canonical

/-! Canonical forms. The order of texts is total and antisymmetric, so the sorted list of texts or
of members with distinct keys is one for all orders of the same elements (`sortTexts_eq_of_perm`,
`sortMembers_eq_of_perm`), and sorting members changes no lookup (`lookup_sortMembers`).

The views of a canonical form are told by the views of the value: the same tags in another order,
and the canonical forms of its properties and items (`member?_canonical`). -/

namespace JsonSurvey.Schema

/-! ### Sorting -/

section
variable {α : Type} (key : α → Text)

theorem decide_le_trans (a b c : α) (hab : decide (key a ≤ key b) = true)
    (hbc : decide (key b ≤ key c) = true) : decide (key a ≤ key c) = true :=
  decide_eq_true (List.le_trans (of_decide_eq_true hab) (of_decide_eq_true hbc))

theorem decide_le_total (a b : α) :
    (decide (key a ≤ key b) || decide (key b ≤ key a)) = true := by
  simpa using List.le_total (key a) (key b)

end

/-- Texts in order. -/
def sortTexts (texts : List Text) : List Text := texts.mergeSort fun s t => decide (s ≤ t)

theorem sortTexts_perm (texts : List Text) : (sortTexts texts).Perm texts :=
  List.mergeSort_perm _ _

theorem pairwise_sortTexts (texts : List Text) : (sortTexts texts).Pairwise (· ≤ ·) :=
  (List.pairwise_mergeSort (decide_le_trans id) (decide_le_total id) texts).imp of_decide_eq_true

theorem sortTexts_eq_of_perm {texts texts' : List Text} (h : texts.Perm texts') :
    sortTexts texts = sortTexts texts' :=
  ((sortTexts_perm _).trans (h.trans (sortTexts_perm _).symm)).eq_of_pairwise
    (fun _ _ _ _ => List.le_antisymm) (pairwise_sortTexts _) (pairwise_sortTexts _)

theorem sortTexts_swap {s t : Text} (h : s ≤ t) : sortTexts [t, s] = [s, t] := by
  rw [sortTexts_eq_of_perm (.swap s t [])]
  exact List.mergeSort_of_pairwise (by simpa using h)

theorem sortTags?_map_string (texts : List Text) :
    sortTags? (texts.map .string) = some ((sortTexts texts).map .string) := by
  have htexts : (texts.map Value.string).mapM Value.text? = some texts := by
    induction texts with
    | nil => rfl
    | cons t ts ih => rw [List.map_cons, List.mapM_cons, ih]; rfl
  rw [sortTags?, htexts]
  rfl

theorem sortMembers_perm (members : List (Text × Value)) : (sortMembers members).Perm members :=
  List.mergeSort_perm _ _

@[simp] theorem mem_sortMembers {m : Text × Value} {members : List (Text × Value)} :
    m ∈ sortMembers members ↔ m ∈ members := (sortMembers_perm members).mem_iff

theorem pairwise_sortMembers (members : List (Text × Value)) :
    (sortMembers members).Pairwise (·.1 ≤ ·.1) :=
  (List.pairwise_mergeSort (decide_le_trans Prod.fst) (decide_le_total Prod.fst) members).imp
    of_decide_eq_true

/-- Members with distinct keys are sorted into one order, whatever order they come in. -/
theorem sortMembers_eq_of_perm {members members' : List (Text × Value)}
    (hkeys : (members.map (·.1)).Nodup) (h : members.Perm members') :
    sortMembers members = sortMembers members' := by
  have hperm := (sortMembers_perm members).trans (h.trans (sortMembers_perm members').symm)
  refine hperm.eq_of_pairwise (fun m n hm hn hmn hnm => ?_) (pairwise_sortMembers _)
    (pairwise_sortMembers _)
  exact List.inj_on_of_nodup_map hkeys (mem_sortMembers.mp hm)
    (h.mem_iff.mpr (mem_sortMembers.mp hn)) (List.le_antisymm hmn hnm)

theorem sortMembers_swap {m n : Text × Value} (h : m.1 ≤ n.1) (hne : m.1 ≠ n.1) :
    sortMembers [n, m] = [m, n] := by
  rw [sortMembers_eq_of_perm (by simpa using hne.symm) (.swap m n [])]
  exact List.mergeSort_of_pairwise (by simpa using h)

/-- Sorting members is stable: the values under a key stay in order. -/
theorem valuesUnder_sortMembers (key : Text) (members : List (Text × Value)) :
    Value.valuesUnder key (sortMembers members) = Value.valuesUnder key members := by
  have hsub : (members.filter (·.1 == key)).Sublist (sortMembers members) := by
    refine List.sublist_mergeSort (decide_le_trans Prod.fst) (decide_le_total Prod.fst) ?_
      List.filter_sublist
    refine List.pairwise_of_forall_mem_list fun m hm n hn => ?_
    rw [List.mem_filter, beq_iff_eq] at hm hn
    rw [hm.2, hn.2]
    exact decide_eq_true (List.le_refl key)
  have hfilter := hsub.filter (·.1 == key)
  simp only [List.filter_filter, Bool.and_self] at hfilter
  have hlength := ((sortMembers_perm members).filter (·.1 == key)).length_eq
  rw [Value.valuesUnder, Value.valuesUnder, hfilter.eq_of_length hlength.symm]

@[simp] theorem lookup_sortMembers (key : Text) (members : List (Text × Value)) :
    (sortMembers members).lookup key = members.lookup key := by
  rw [Value.lookup_eq_head?, valuesUnder_sortMembers, Value.lookup_eq_head?]

/-! ### The canonical forms of members -/

/-- The canonical form of the value of a member. -/
def canonicalUnder (key : Text) (v : Value) : Value :=
  if key = typeKey then
    match v with
    | .array _ tags => .list ((sortTags? tags).getD tags)
    | _ => canonical v
  else canonical v

theorem canonicalAll_eq_map (vs : List Value) : canonicalAll vs = vs.map canonical := by
  induction vs with
  | nil => rfl
  | cons v vs ih => rw [canonicalAll, ih, List.map_cons]

theorem canonicalMembers_eq_map (members : List (Text × Value)) :
    canonicalMembers members = members.map fun m => (m.1, canonicalUnder m.1 m.2) := by
  induction members with
  | nil => rfl
  | cons m members ih => rw [List.map_cons, ← ih]; rfl

theorem canonicalUnder_of_ne {key : Text} (h : key ≠ typeKey) (v : Value) :
    canonicalUnder key v = canonical v := if_neg h

theorem canonicalUnder_properties (v : Value) : canonicalUnder propertiesKey v = canonical v :=
  canonicalUnder_of_ne (by decide) v

theorem canonicalUnder_items (v : Value) : canonicalUnder itemsKey v = canonical v :=
  canonicalUnder_of_ne (by decide) v

theorem canonicalUnder_coordinate (v : Value) : canonicalUnder coordinateKey v = canonical v :=
  canonicalUnder_of_ne (by decide) v

theorem canonicalUnder_object (key : Text) (members : List (Text × Value)) :
    canonicalUnder key (.object members) = canonical (.object members) := ite_self _

theorem canonical_object (members : List (Text × Value)) :
    canonical (.object members) =
      .object (sortMembers (members.map fun m => (m.1, canonicalUnder m.1 m.2))) := by
  rw [canonical, canonicalMembers_eq_map]

/-- Objects with the same keys have one canonical form if the values under each key do. -/
theorem canonical_object_congr {keys keys' : List Text} {f g : Text → Value} (hkeys : keys.Nodup)
    (hperm : keys.Perm keys')
    (h : ∀ key ∈ keys, canonicalUnder key (f key) = canonicalUnder key (g key)) :
    canonical (.object (keys.map fun key => (key, f key))) =
      canonical (.object (keys'.map fun key => (key, g key))) := by
  rw [canonical_object, canonical_object, List.map_map, List.map_map]
  have hmap : keys.map (fun key => (key, canonicalUnder key (f key))) =
      keys.map fun key => (key, canonicalUnder key (g key)) :=
    List.map_congr_left fun key hkey => congrArg (Prod.mk key) (h key hkey)
  refine congrArg Value.object ((congrArg sortMembers hmap).trans ?_)
  refine sortMembers_eq_of_perm ?_ (hperm.map _)
  rw [List.map_map]
  exact (List.map_id keys).symm ▸ hkeys

theorem lookup_map_canonicalUnder (key : Text) (members : List (Text × Value)) :
    (members.map fun m => (m.1, canonicalUnder m.1 m.2)).lookup key =
      (members.lookup key).map (canonicalUnder key) := by
  induction members with
  | nil => rfl
  | cons m members ih =>
    rw [List.map_cons, List.lookup_cons, List.lookup_cons, ih]
    split
    · next h => rw [eq_of_beq h]; rfl
    · rfl

/-- The members of a canonical form are the canonical forms of the members. -/
theorem member?_canonical (key : Text) (v : Value) :
    member? key (canonical v) = (member? key v).map (canonicalUnder key) := by
  cases v with
  | object members =>
    rw [canonical_object]
    exact (lookup_sortMembers key _).trans (lookup_map_canonicalUnder key members)
  | _ => rfl

theorem isVoid_canonical (v : Value) : (canonical v).isVoid = v.isVoid := by
  cases v with
  | array form es =>
    rw [canonical, canonicalAll_eq_map, Value.isVoid, Value.isVoid]
    cases es <;> rfl
  | object members =>
    rw [canonical_object, Value.isVoid, Value.isVoid, Bool.eq_iff_iff,
      List.isEmpty_iff_length_eq_zero, List.isEmpty_iff_length_eq_zero,
      (sortMembers_perm _).length_eq, List.length_map]
  | _ => rfl

theorem canonicalUnder_map_string (form : ArrayForm) (names : List Text) :
    canonicalUnder typeKey (.array form (names.map .string)) =
      .list ((sortTexts names).map .string) := by
  rw [canonicalUnder, if_pos rfl, sortTags?_map_string]
  rfl

/-! ### Views of a canonical form -/

theorem tagNames_canonical_perm {node : Value} (h : HasTextTags node) :
    (tagNames (canonical node)).Perm (tagNames node) := by
  have hcanonical := member?_canonical typeKey node
  unfold HasTextTags at h
  unfold tagNames
  match hm : member? typeKey node with
  | none =>
    rw [hm] at hcanonical
    rw [tags, tags, hcanonical, hm]
    exact .refl _
  | some (.array form ts) =>
    have htags : tags node = ts := by rw [tags, hm]
    rw [htags] at h
    rw [hm, eq_map_string h, Option.map_some, canonicalUnder_map_string] at hcanonical
    rw [tags, hcanonical, htags]
    nth_rewrite 2 [eq_map_string h]
    exact ((sortTexts_perm _).map .string).filterMap Value.text?
  | some (.string t) =>
    rw [hm] at hcanonical
    rw [tags, tags, hcanonical, hm]
    exact .refl _
  | some .null | some (.bool _) | some (.int _) | some (.float _) | some (.object _)
  | some (.foreign _) =>
    rw [tags, hm] at h
    obtain ⟨s, hs⟩ := h _ List.mem_cons_self
    contradiction

theorem mem_tagNames_congr {node node' : Value} (hnode : HasTextTags node)
    (hnode' : HasTextTags node') (h : canonical node = canonical node') {s : Text} :
    s ∈ tagNames node ↔ s ∈ tagNames node' := by
  rw [← (tagNames_canonical_perm hnode).mem_iff, h, (tagNames_canonical_perm hnode').mem_iff]

theorem marksCoordinate_canonical (node : Value) :
    marksCoordinate (canonical node) = marksCoordinate node := by
  rw [marksCoordinate, marksCoordinate, member?_canonical]
  cases member? coordinateKey node with
  | none => rfl
  | some v =>
    rw [Option.map_some, canonicalUnder_coordinate]
    exact congrArg (!·) (isVoid_canonical v)

/-! ### The canonical form of a node made of parts -/

theorem canonical_node (type : Value) (properties : Option (List (Text × Value)))
    (items : Option Value) (coordinate : Bool) :
    canonical (node type properties items coordinate) =
      .object (sortMembers ((typeKey, canonicalUnder typeKey type) ::
        (((properties.map fun ps => canonical (.object ps)).map (propertiesKey, ·)).toList ++
          ((items.map canonical).map (itemsKey, ·)).toList ++
          if coordinate then [(coordinateKey, .bool true)] else []))) := by
  rw [node_eq_object, canonical_object, nodeMembers]
  cases properties <;> cases items <;> cases coordinate <;>
    simp [canonicalUnder_properties, canonicalUnder_items, canonicalUnder_coordinate, canonical]

theorem canonical_node_congr {type type' : Value}
    {properties properties' : Option (List (Text × Value))} {items items' : Option Value}
    {coordinate : Bool} (htype : canonicalUnder typeKey type = canonicalUnder typeKey type')
    (hproperties : properties.map (fun ps => canonical (.object ps)) =
      properties'.map fun ps => canonical (.object ps))
    (hitems : items.map canonical = items'.map canonical) :
    canonical (node type properties items coordinate) =
      canonical (node type' properties' items' coordinate) := by
  rw [canonical_node, canonical_node, htype, hproperties, hitems]

theorem canonicalUnder_merged (key : Text) (group : List Value) :
    canonicalUnder key (merged group) = canonical (merged group) := by
  rw [merged, node, canonicalUnder_object]

/-- The canonical form of tags without repetition depends on their set alone. -/
theorem canonicalUnder_typeOfTags (names : List Text) :
    canonicalUnder typeKey (typeOfTags (names.map .string)) =
      typeOfTags ((sortTexts names).map .string) := by
  have hlength := (sortTexts_perm names).length_eq
  by_cases h : names.length = 1
  · obtain ⟨t, rfl⟩ := List.length_eq_one_iff.mp h
    rw [sortTexts, List.mergeSort_singleton]
    rfl
  · rw [typeOfTags_of_length_ne_one (by simpa using h), canonicalUnder_map_string,
      typeOfTags_of_length_ne_one (by simpa [hlength] using h)]

/-! ### Values with a canonical form -/

theorem allSortable_iff {vs : List Value} :
    allSortable vs = true ↔ ∀ v ∈ vs, isSortable v = true := by
  induction vs with
  | nil => simp [allSortable]
  | cons v vs ih => simp [allSortable, ih]

theorem membersSortable_of {ms : List (Text × Value)} (h : ∀ m ∈ ms, isSortable m.2 = true)
    (htype : ∀ form ts, (typeKey, .array form ts) ∈ ms → (sortTags? ts).isSome = true) :
    membersSortable ms = true := by
  induction ms with
  | nil => rfl
  | cons m ms ih =>
    obtain ⟨key, v⟩ := m
    have hv := h _ List.mem_cons_self
    have hrest := ih (fun m hm => h m (.tail _ hm)) fun form ts hts => htype form ts (.tail _ hts)
    cases v with
    | array form ts =>
      rw [membersSortable, hrest, Bool.and_true]
      split
      · next hkey => exact htype form ts (hkey ▸ List.mem_cons_self)
      · exact hv
    | _ => simpa [membersSortable, hrest] using hv

/-- Every list under the key of tags, anywhere in a value, is a list of texts. -/
inductive HasTextUnions : Value → Prop
  | leaf {v : Value} : (∀ form es, v ≠ .array form es) → (∀ ms, v ≠ .object ms) → HasTextUnions v
  | array {form : ArrayForm} {es : List Value} : (∀ e ∈ es, HasTextUnions e) →
    HasTextUnions (.array form es)
  | object {ms : List (Text × Value)} : (∀ m ∈ ms, HasTextUnions m.2) →
    (∀ form ts, (typeKey, .array form ts) ∈ ms → ∀ t ∈ ts, ∃ s, t = .string s) →
    HasTextUnions (.object ms)

theorem nestsWithin_strings (form : ArrayForm) (names : List Text) (limit : Nat) :
    (Value.array form (names.map .string)).nestsWithin limit = decide (0 < limit) := by
  cases limit with
  | zero => rfl
  | succ limit =>
    rw [Value.nestsWithin, Bool.eq_iff_iff, Value.allNestWithin_iff]
    simp [Value.nestsWithin_string]

theorem hasTextUnions_array {form : ArrayForm} {es : List Value} :
    HasTextUnions (.array form es) ↔ ∀ e ∈ es, HasTextUnions e := by
  refine ⟨fun h => ?_, .array⟩
  cases h with
  | leaf harray _ => exact absurd rfl (harray _ _)
  | array h => exact h

theorem hasTextUnions_object {ms : List (Text × Value)} :
    HasTextUnions (.object ms) ↔ (∀ m ∈ ms, HasTextUnions m.2) ∧
      ∀ form ts, (typeKey, .array form ts) ∈ ms → ∀ t ∈ ts, ∃ s, t = .string s := by
  refine ⟨fun h => ?_, fun h => .object h.1 h.2⟩
  cases h with
  | leaf _ hobject => exact absurd rfl (hobject _)
  | object h htype => exact ⟨h, htype⟩

namespace HasTextUnions
variable {v : Value}

theorem string (t : Text) : HasTextUnions (.string t) := .leaf nofun nofun

theorem bool (b : Bool) : HasTextUnions (.bool b) := .leaf nofun nofun

theorem strings (form : ArrayForm) (names : List Text) :
    HasTextUnions (.array form (names.map .string)) := by
  refine .array fun e he => ?_
  obtain ⟨t, _, rfl⟩ := List.mem_map.mp he
  exact string t

theorem isSortable (h : HasTextUnions v) : isSortable v = true := by
  induction h with
  | @leaf v harray hobject =>
    cases v with
    | array form es => exact absurd rfl (harray form es)
    | object ms => exact absurd rfl (hobject ms)
    | _ => rfl
  | array _ ih => exact allSortable_iff.mpr ih
  | object _ htype ih =>
    refine membersSortable_of ih fun form ts hts => ?_
    rw [eq_map_string (htype form ts hts), sortTags?_map_string]
    rfl

theorem nestsWithin_canonical (h : HasTextUnions v) (limit : Nat) :
    (canonical v).nestsWithin limit = v.nestsWithin limit := by
  induction h generalizing limit with
  | @leaf v harray hobject =>
    cases v with
    | array form es => exact absurd rfl (harray form es)
    | object ms => exact absurd rfl (hobject ms)
    | _ => rfl
  | array _ ih =>
    rw [canonical, canonicalAll_eq_map]
    cases limit with
    | zero => rfl
    | succ limit =>
      rw [Value.nestsWithin, Value.nestsWithin, Bool.eq_iff_iff, Value.allNestWithin_iff,
        Value.allNestWithin_iff, List.forall_mem_map]
      exact forall₂_congr fun e he => by rw [ih e he]
  | @object ms _ htype ih =>
    rw [canonical_object]
    cases limit with
    | zero => rfl
    | succ limit =>
      rw [Value.nestsWithin, Value.nestsWithin, Bool.eq_iff_iff, Value.membersNestWithin_iff,
        Value.membersNestWithin_iff]
      simp only [mem_sortMembers, List.forall_mem_map]
      refine forall₂_congr fun m hm => ?_
      obtain ⟨key, v⟩ := m
      by_cases hkey : key = typeKey
      · subst hkey
        cases v with
        | array form ts =>
          rw [eq_map_string (htype form ts hm), canonicalUnder_map_string, nestsWithin_strings,
            nestsWithin_strings]
        | _ => exact iff_of_eq (congrArg (· = true) (ih _ hm limit))
      · rw [canonicalUnder_of_ne hkey, ih _ hm]

end HasTextUnions

theorem canonicalize_congr {v w : Value} (hv : HasTextUnions v) (hw : HasTextUnions w)
    (h : canonical v = canonical w) : canonicalize v = canonicalize w := by
  have hdepth : v.nestsWithin maxCanonicalDepth = w.nestsWithin maxCanonicalDepth := by
    rw [← hv.nestsWithin_canonical, h, hw.nestsWithin_canonical]
  rw [canonicalize, canonicalize, hdepth, hv.isSortable, hw.isSortable, h]

theorem canonicalize_eq_ok {v : Value} (hv : HasTextUnions v)
    (hdepth : v.nestsWithin maxCanonicalDepth = true) : canonicalize v = .ok (canonical v) := by
  rw [canonicalize, if_pos hdepth, if_pos hv.isSortable]

theorem eq_canonical_of_canonicalize {v c : Value} (h : canonicalize v = .ok c) :
    c = canonical v := by
  rw [canonicalize] at h
  split at h
  · split at h
    · exact (Except.ok.inj h).symm
    · contradiction
  · contradiction

theorem hasTextUnions_node {names : List Text} {properties : Option (List (Text × Value))}
    {items : Option Value} {coordinate : Bool}
    (hproperties : ∀ ps, properties = some ps → HasTextUnions (.object ps))
    (hitems : ∀ s, items = some s → HasTextUnions s) :
    HasTextUnions (node (typeOfTags (names.map .string)) properties items coordinate) := by
  rw [node_eq_object]
  refine .object (forall_mem_nodeMembers.mpr ⟨?_, hproperties, hitems, fun _ => .bool true⟩)
    fun form ts hmem => ?_
  · match names with
    | [] => exact .strings .list []
    | [t] => exact .string t
    | s :: t :: names => exact .strings .list (s :: t :: names)
  · have htype := Option.some.inj
      (member?_type_node.symm.trans (member?_node_eq_some.mpr hmem))
    rw [eq_of_typeOfTags_eq_array htype]
    simp

/-- A normal schema has only texts as tags. -/
theorem IsNormal.hasTextUnions {node : Value} (h : IsNormal node) : HasTextUnions node := by
  induction h with
  | node _ _ _ _ hps _ ihp ihi =>
    refine hasTextUnions_node (fun ps hps' => .object (ihp ps hps') fun form ts hmem => ?_) ihi
    obtain ⟨_, heq⟩ := (hps ps hps' _ hmem).eq_object
    contradiction

end JsonSurvey.Schema
