import JsonSurvey.Proofs.Coordinate.Collection
import JsonSurvey.Proofs.Variant

/-! Documents with leaves that have no JSON form. Describing a value stops at the first of them in
document order (`describe_eq_unlessForeign`), and so does the collection of variants: the items in
front of the one with this leaf are JSON values, for which every further step succeeds
(`foldlM_observe_foreign`). The collection of coordinates goes by the strings of a document, which
stay the same when null stands for these leaves (`strings_nulled`). -/

namespace JsonSurvey

namespace Value

/-! ### Leaves without a JSON form -/

mutual

/-- The leaves of a value that have no JSON form, in document order. -/
def foreigns : Value → List Foreign
  | .foreign leaf => [leaf]
  | .array _ es => foreignsAll es
  | .object ms => foreignsMembers ms
  | _ => []

/-- The leaves without a JSON form in the values of a list. -/
def foreignsAll : List Value → List Foreign
  | [] => []
  | v :: rest => foreigns v ++ foreignsAll rest

/-- The leaves without a JSON form in the values of members. -/
def foreignsMembers : List (Text × Value) → List Foreign
  | [] => []
  | (_, v) :: rest => foreigns v ++ foreignsMembers rest

end

mutual

/-- A value with null for each leaf that has no JSON form. -/
def nulled : Value → Value
  | .foreign _ => .null
  | .array form es => .array form (nulledAll es)
  | .object ms => .object (nulledMembers ms)
  | v => v

/-- The values of a list with null for each leaf that has no JSON form. -/
def nulledAll : List Value → List Value
  | [] => []
  | v :: rest => nulled v :: nulledAll rest

/-- Members with null for each leaf of their values that has no JSON form. -/
def nulledMembers : List (Text × Value) → List (Text × Value)
  | [] => []
  | (key, v) :: rest => (key, nulled v) :: nulledMembers rest

end

/-- What a document may be built of: the values that JSON has, either form of arrays, and leaves
without a JSON form. An object has each key once. -/
inductive IsDocument : Value → Prop
  | null : IsDocument .null
  | bool (b : Bool) : IsDocument (.bool b)
  | int (i : Int) : IsDocument (.int i)
  | float (x : Binary64) : IsDocument (.float x)
  | string (t : Text) : IsDocument (.string t)
  | array {form : ArrayForm} {es : List Value} : (∀ e ∈ es, IsDocument e) →
    IsDocument (.array form es)
  | object {ms : List (Text × Value)} : (ms.map (·.1)).Nodup → (∀ m ∈ ms, IsDocument m.2) →
    IsDocument (.object ms)
  | foreign (leaf : Foreign) : IsDocument (.foreign leaf)

theorem foreignsAll_eq_nil {vs : List Value} :
    foreignsAll vs = [] ↔ ∀ v ∈ vs, v.foreigns = [] := by
  induction vs with
  | nil => simp [foreignsAll]
  | cons v vs ih => rw [foreignsAll, List.append_eq_nil_iff, ih, List.forall_mem_cons]

theorem foreignsMembers_eq_nil {ms : List (Text × Value)} :
    foreignsMembers ms = [] ↔ ∀ m ∈ ms, m.2.foreigns = [] := by
  induction ms with
  | nil => simp [foreignsMembers]
  | cons m ms ih => rw [foreignsMembers, List.append_eq_nil_iff, ih, List.forall_mem_cons]

/-- The items of a document have its leaves. -/
theorem foreignsAll_items (document : Value) :
    foreignsAll document.items = document.foreigns := by
  cases document with
  | array form es => cases form <;> simp [items, foreignsAll, foreigns]
  | _ => simp [items, foreignsAll]

namespace IsDocument
variable {v : Value} (h : v.IsDocument)
include h

theorem isJson (hnone : v.foreigns = []) : v.IsJson := by
  induction h with
  | null => exact .null
  | bool b => exact .bool b
  | int i => exact .int i
  | float x => exact .float x
  | string t => exact .string t
  | array _ ih => exact .array fun e he => ih e he (foreignsAll_eq_nil.mp hnone e he)
  | object hkeys _ ih =>
    exact .object hkeys fun m hm => ih m hm (foreignsMembers_eq_nil.mp hnone m hm)
  | foreign leaf => contradiction

theorem items : ∀ item ∈ v.items, item.IsDocument := by
  intro item hitem
  cases h with
  | @array form es hes =>
    cases form with
    | list => exact hes item hitem
    | tuple => exact List.mem_singleton.mp hitem ▸ .array hes
  | _ => rw [List.mem_singleton.mp hitem]; constructor <;> assumption

end IsDocument

/-! ### The strings of a document -/

theorem stringsAll_nulledAll {vs : List Value} (h : ∀ v ∈ vs, v.nulled.strings = v.strings) :
    stringsAll (nulledAll vs) = stringsAll vs := by
  induction vs with
  | nil => rfl
  | cons v vs ih =>
    obtain ⟨hv, hvs⟩ := List.forall_mem_cons.mp h
    rw [nulledAll, stringsAll, stringsAll, hv, ih hvs]

theorem stringsMembers_nulledMembers {ms : List (Text × Value)}
    (h : ∀ m ∈ ms, m.2.nulled.strings = m.2.strings) :
    stringsMembers (nulledMembers ms) = stringsMembers ms := by
  induction ms with
  | nil => rfl
  | cons m ms ih =>
    obtain ⟨hm, hms⟩ := List.forall_mem_cons.mp h
    rw [nulledMembers, stringsMembers, stringsMembers, hm, ih hms]

/-- A value has the same strings when null stands for its leaves without a JSON form. -/
theorem strings_nulled (v : Value) : v.nulled.strings = v.strings := by
  induction v with
  | array form es ih => exact stringsAll_nulledAll ih
  | object ms ih => exact stringsMembers_nulledMembers ih
  | _ => rfl

end Value

theorem Coordinate.collect_nulled (document : Value) :
    Coordinate.collect document.nulled = Coordinate.collect document := by
  rw [Coordinate.collect, Coordinate.mentions_eq, Value.strings_nulled, ← Coordinate.mentions_eq,
    Coordinate.collect]

/-! ### Schemas -/

namespace Schema

/-- The result of a step that goes through values with the given leaves: the first leaf without a
JSON form is its fault. -/
def unlessForeign {α : Type} (leaves : List Foreign) (a : α) : Except Fault α :=
  match leaves with
  | [] => .ok a
  | leaf :: _ => .error (.notJson leaf.name)

/-- A step through some values and then others meets the leaves of both in this order. -/
theorem unlessForeign_append {α β γ : Type} (leaves leaves' : List Foreign) (a : α) (b : β)
    (f : α → β → γ) :
    (unlessForeign leaves a >>= fun x => unlessForeign leaves' b >>= fun y => pure (f x y)) =
      unlessForeign (leaves ++ leaves') (f a b) := by
  cases leaves with
  | nil => cases leaves' <;> rfl
  | cons leaf leaves => rfl

theorem describeAll_eq_unlessForeign {vs : List Value}
    (h : ∀ v ∈ vs, describe v = unlessForeign v.foreigns (outline v)) :
    describeAll vs = unlessForeign (Value.foreignsAll vs) (vs.map outline) := by
  induction vs with
  | nil => rfl
  | cons v vs ih =>
    obtain ⟨hv, hvs⟩ := List.forall_mem_cons.mp h
    rw [describeAll, hv, ih hvs]
    exact unlessForeign_append ..

theorem describeMembers_eq_unlessForeign {ms : List (Text × Value)}
    (h : ∀ m ∈ ms, describe m.2 = unlessForeign m.2.foreigns (outline m.2)) :
    describeMembers ms =
      unlessForeign (Value.foreignsMembers ms) (ms.map fun m => (m.1, outline m.2)) := by
  induction ms with
  | nil => rfl
  | cons m ms ih =>
    obtain ⟨hm, hms⟩ := List.forall_mem_cons.mp h
    rw [describeMembers, hm, ih hms]
    exact unlessForeign_append _ _ _ _ fun schema schemas => (m.1, schema) :: schemas

/-- A value has a schema unless it has a leaf without a JSON form, the first of which is then the
fault. -/
theorem describe_eq_unlessForeign (v : Value) :
    describe v = unlessForeign v.foreigns (outline v) := by
  induction v with
  | array form es ih =>
    rw [outline, describe, describeAll_eq_unlessForeign ih, Value.foreigns]
    cases Value.foreignsAll es <;> rfl
  | object ms ih =>
    rw [outline, describe, describeMembers_eq_unlessForeign ih, Value.foreigns]
    cases Value.foreignsMembers ms <;> rfl
  | _ => rfl

end Schema

/-! ### Variants -/

namespace Variant

theorem observe_foreign {item : Value} {leaf : Foreign} {leaves : List Foreign}
    (hdepth : item.nestsWithin Schema.maxDepth = true) (hleaves : item.foreigns = leaf :: leaves)
    (seen : List (Text × Variant)) : observe seen item = .error (.notJson leaf.name) := by
  have hextract : Schema.extract item = .error (.notJson leaf.name) := by
    rw [Schema.extract, if_pos hdepth, Schema.describe_eq_unlessForeign, hleaves]
    rfl
  rw [observe, hextract]
  rfl

/-- The first leaf without a JSON form ends the collection, whatever was seen before it. -/
theorem foldlM_observe_foreign {items : List Value} {leaf : Foreign} {leaves : List Foreign}
    (h : ∀ item ∈ items, item.IsDocument)
    (hdepth : ∀ item ∈ items, item.nestsWithin Schema.maxDepth = true)
    (hleaves : Value.foreignsAll items = leaf :: leaves) (seen : List (Text × Variant)) :
    items.foldlM observe seen = .error (.notJson leaf.name) := by
  induction items generalizing seen with
  | nil => contradiction
  | cons item items ih =>
    obtain ⟨hitem, hitems⟩ := List.forall_mem_cons.mp h
    obtain ⟨hnests, hdepths⟩ := List.forall_mem_cons.mp hdepth
    rw [Value.foreignsAll] at hleaves
    rw [List.foldlM_cons]
    cases hnone : item.foreigns with
    | nil =>
      rw [observe_eq ⟨hitem.isJson hnone, hnests⟩]
      apply ih hitems hdepths
      rwa [hnone] at hleaves
    | cons first others =>
      rw [hnone, List.cons_append] at hleaves
      obtain ⟨rfl, -⟩ := List.cons.inj hleaves
      rw [observe_foreign hnests hnone]
      rfl

/-- The variants of a document cannot be collected exactly if it has a leaf without a JSON form, and
the fault tells the type of the first one. Its coordinates are collected in any case, as if null
stood for these leaves. -/
theorem collect_fails_iff_foreign {document : Value} (h : document.IsDocument)
    (hdepth : ∀ item ∈ document.items, item.nestsWithin Schema.maxDepth = true) :
    ((∃ fault, collect document = .error fault) ↔ document.foreigns ≠ []) ∧
      (∀ leaf, document.foreigns.head? = some leaf →
        ∃ fault, collect document = .error fault ∧ fault = .notJson leaf.name ∧
          fault.message = Text.concat ["Not a JSON value: ", leaf.name]) ∧
      ∃ coordinates, (Coordinate.survey document).result = .ok coordinates ∧
        (Coordinate.survey document.nulled).result = .ok coordinates := by
  have hfirst : ∀ leaf, document.foreigns.head? = some leaf →
      collect document = .error (.notJson leaf.name) := by
    intro leaf hleaf
    obtain ⟨leaves, hleaves⟩ := List.head?_eq_some_iff.mp hleaf
    rw [← Value.foreignsAll_items] at hleaves
    rw [collect, foldlM_observe_foreign h.items hdepth hleaves]
    rfl
  refine ⟨⟨?_, ?_⟩, ?_, ?_⟩
  · intro hfails hnone
    obtain ⟨fault, hfault⟩ := hfails
    obtain ⟨_, variants, _, hcollect, _⟩ := collect_eq_firstOccurrences (h.isJson hnone) hdepth
    rw [hcollect] at hfault
    contradiction
  · intro hsome
    exact ⟨_, hfirst _ (List.head?_eq_some_head hsome)⟩
  · intro leaf hleaf
    exact ⟨_, hfirst leaf hleaf, rfl, rfl⟩
  · refine ⟨Coordinate.collect document, rfl, ?_⟩
    rw [← Coordinate.collect_nulled document]
    rfl

/-- A shape that was seen before, then a leaf in a tuple, and behind it one of another type. -/
theorem collect_fails_iff_foreign_tuple :
    let document := Value.list [.null, .null,
      .array .tuple [.object [("a", .foreign (.other "Decimal" 0))], .string "geo:1,2"],
      .foreign .set]
    document.IsDocument ∧ (∀ item ∈ document.items, item.nestsWithin Schema.maxDepth = true) ∧
      document.foreigns.head? = some (.other "Decimal" 0) ∧
      ∃ fault, collect document = .error fault ∧
        fault.message = Text.concat ["Not a JSON value: ", "Decimal"] := by
  intro document
  have hobject : (Value.object [("a", .foreign (.other "Decimal" 0))]).IsDocument := by
    refine .object (List.nodup_singleton _) ?_
    simpa using Value.IsDocument.foreign _
  have htuple : (Value.array .tuple [.object [("a", .foreign (.other "Decimal" 0))],
      .string "geo:1,2"]).IsDocument := by
    refine .array ?_
    simp only [List.forall_mem_cons]
    exact ⟨hobject, .string _, nofun⟩
  have hdocument : document.IsDocument := by
    refine .array ?_
    simp only [List.forall_mem_cons]
    exact ⟨.null, .null, htuple, .foreign _, nofun⟩
  have hdepth : ∀ item ∈ document.items, item.nestsWithin Schema.maxDepth = true :=
    List.all_eq_true.mp rfl
  obtain ⟨fault, hfault, -, hmessage⟩ :=
    (collect_fails_iff_foreign hdocument hdepth).2.1 (.other "Decimal" 0) rfl
  exact ⟨hdocument, hdepth, rfl, fault, hfault, hmessage⟩

end Variant
end JsonSurvey
