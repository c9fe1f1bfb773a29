import JsonSurvey.Proofs.Schema.Canonical

/-! The canonical form as a normal form. `Reordering` is the least congruence that reorders the
members of objects and the lists under the key of tags. A value whose lists of tags are texts is a
reordering of its canonical form (`reordering_canonical`), and reorderings have one canonical form
(`Reordering.canonical_eq`), so that the form decides the relation. -/

namespace JsonSurvey.Schema

/-- Two values that differ in the order of members and in the order of the lists under the key of
tags. -/
inductive Reordering : Value → Value → Prop
  | refl (v : Value) : Reordering v v
  | symm {v w : Value} : Reordering v w → Reordering w v
  | trans {u v w : Value} : Reordering u v → Reordering v w → Reordering u w
  | members {ms ns : List (Text × Value)} : ms.Perm ns → Reordering (.object ms) (.object ns)
  | tags {ts us : List Value} (before after : List (Text × Value)) : ts.Perm us →
    Reordering (.object (before ++ (typeKey, .list ts) :: after))
      (.object (before ++ (typeKey, .list us) :: after))
  | element {v w : Value} (before after : List Value) : Reordering v w →
    Reordering (.list (before ++ v :: after)) (.list (before ++ w :: after))
  | member {v w : Value} (key : Text) (before after : List (Text × Value)) : Reordering v w →
    Reordering (.object (before ++ (key, v) :: after)) (.object (before ++ (key, w) :: after))

/-! ### Values with a normal form -/

/-- Under the key of tags, a list holds nothing but texts. -/
def HoldsTextTags (key : Text) (v : Value) : Prop :=
  key = typeKey → ∀ form ts, v = .array form ts → ∀ t ∈ ts, ∃ s, t = .string s

/-- A decoded value whose lists of tags are texts. -/
structure IsOrderable (v : Value) : Prop where
  isDecoded : v.IsDecoded
  hasTextUnions : HasTextUnions v

theorem isOrderable_list {es : List Value} :
    IsOrderable (.list es) ↔ ∀ e ∈ es, IsOrderable e := by
  constructor
  · intro h e he
    exact ⟨Value.isDecoded_list.mp h.isDecoded e he, hasTextUnions_array.mp h.hasTextUnions e he⟩
  · intro h
    exact ⟨.list fun e he => (h e he).isDecoded, .array fun e he => (h e he).hasTextUnions⟩

theorem isOrderable_object {ms : List (Text × Value)} :
    IsOrderable (.object ms) ↔
      (ms.map (·.1)).Nodup ∧ ∀ m ∈ ms, IsOrderable m.2 ∧ HoldsTextTags m.1 m.2 := by
  constructor
  · rintro ⟨hdecoded, hunions⟩
    obtain ⟨hkeys, hdecoded⟩ := Value.isDecoded_object.mp hdecoded
    obtain ⟨hunions, htype⟩ := hasTextUnions_object.mp hunions
    refine ⟨hkeys, fun m hm => ⟨⟨hdecoded m hm, hunions m hm⟩, fun hkey form ts hts => ?_⟩⟩
    exact htype form ts (hkey ▸ hts ▸ hm)
  · rintro ⟨hkeys, h⟩
    refine ⟨.object hkeys fun m hm => (h m hm).1.isDecoded,
      .object (fun m hm => (h m hm).1.hasTextUnions) fun form ts hm => ?_⟩
    exact (h _ hm).2 rfl form ts rfl

/-! ### Texts under the key of tags -/

theorem canonical_strings (form : ArrayForm) (names : List Text) :
    canonical (.array form (names.map .string)) = .list (names.map .string) := by
  rw [canonical, canonicalAll_eq_map, List.map_map]
  rfl

/-- A value with a list of texts as its canonical form is a list of just these texts. -/
theorem eq_array_of_canonical_eq {names : List Text} {v : Value}
    (h : canonical v = .list (names.map .string)) :
    ∃ form, v = .array form (names.map .string) := by
  cases v with
  | array form es =>
    rw [canonical, canonicalAll_eq_map, Value.array.injEq] at h
    refine ⟨form, congrArg _ ?_⟩
    replace h := h.2
    induction es generalizing names with
    | nil => exact h
    | cons e es ih =>
      cases names with
      | nil => contradiction
      | cons name names =>
        obtain ⟨he, hes⟩ := List.cons.inj h
        have hstring : e = .string name := by
          cases e <;> first | exact he | contradiction
        rw [List.map_cons, ← ih hes, hstring]
  | _ => contradiction

theorem HoldsTextTags.exists_names {key : Text} {form : ArrayForm} {ts : List Value}
    (h : HoldsTextTags key (.array form ts)) (hkey : key = typeKey) :
    ∃ names : List Text, ts = names.map .string := ⟨_, eq_map_string (h hkey form ts rfl)⟩

section
variable {v w : Value} {key : Text} (h : canonical v = canonical w)
include h

theorem HoldsTextTags.congr (hv : HoldsTextTags key v) : HoldsTextTags key w := by
  rintro hkey form us rfl
  cases v with
  | array form' ts =>
    obtain ⟨names, rfl⟩ := hv.exists_names hkey
    rw [canonical_strings] at h
    obtain ⟨_, heq⟩ := eq_array_of_canonical_eq h.symm
    obtain ⟨-, rfl⟩ := Value.array.inj heq
    simp
  | _ => contradiction

/-- Under one key, values with one canonical form have one canonical form. -/
theorem canonicalUnder_congr (hv : HoldsTextTags key v) :
    canonicalUnder key v = canonicalUnder key w := by
  by_cases hkey : key = typeKey
  · subst hkey
    cases v with
    | array form ts =>
      obtain ⟨names, rfl⟩ := hv.exists_names rfl
      rw [canonical_strings] at h
      obtain ⟨form', rfl⟩ := eq_array_of_canonical_eq h.symm
      rw [canonicalUnder_map_string, canonicalUnder_map_string]
    | _ => cases w <;> first | exact h | contradiction
  · rw [canonicalUnder_of_ne hkey, canonicalUnder_of_ne hkey, h]

end

/-! ### The canonical form is a reordering -/

/-- Reorderings in all members of an object. -/
theorem Reordering.map_members {f : Text × Value → Value} {ms : List (Text × Value)}
    (h : ∀ m ∈ ms, ∀ before after, Reordering (.object (before ++ (m.1, f m) :: after))
      (.object (before ++ m :: after))) (done : List (Text × Value)) :
    Reordering (.object (done ++ ms.map fun m => (m.1, f m))) (.object (done ++ ms)) := by
  induction ms generalizing done with
  | nil => exact .refl _
  | cons m ms ih =>
    obtain ⟨hm, hms⟩ := List.forall_mem_cons.mp h
    have hrest := ih hms (done ++ [(m.1, f m)])
    rw [List.append_assoc, List.append_assoc] at hrest
    exact hrest.trans (hm done ms)

/-- Reorderings in all elements of a list. -/
theorem Reordering.map_elements {f : Value → Value} {es : List Value}
    (h : ∀ e ∈ es, Reordering (f e) e) (done : List Value) :
    Reordering (.list (done ++ es.map f)) (.list (done ++ es)) := by
  induction es generalizing done with
  | nil => exact .refl _
  | cons e es ih =>
    obtain ⟨he, hes⟩ := List.forall_mem_cons.mp h
    have hrest := ih hes (done ++ [f e])
    rw [List.append_assoc, List.append_assoc] at hrest
    exact hrest.trans (.element done es he)

theorem reordering_canonicalUnder {m : Text × Value} (hdecoded : m.2.IsDecoded)
    (htags : HoldsTextTags m.1 m.2) (h : Reordering (canonical m.2) m.2)
    (before after : List (Text × Value)) :
    Reordering (.object (before ++ (m.1, canonicalUnder m.1 m.2) :: after))
      (.object (before ++ m :: after)) := by
  obtain ⟨key, v⟩ := m
  by_cases hkey : key = typeKey
  · subst hkey
    cases hdecoded with
    | @list ts _ =>
      obtain ⟨names, rfl⟩ := htags.exists_names rfl
      rw [canonicalUnder_map_string]
      exact .tags before after ((sortTexts_perm _).map _)
    | _ => exact .member typeKey before after h
  · rw [canonicalUnder_of_ne hkey]
    exact .member key before after h

/-- The canonical form of a value is a reordering of it. -/
theorem reordering_canonical {v : Value} (h : IsOrderable v) : Reordering (canonical v) v := by
  induction v with
  | array form es ih =>
    cases form with
    | list =>
      rw [canonical, canonicalAll_eq_map]
      exact .map_elements (fun e he => ih e he (isOrderable_list.mp h e he)) []
    | tuple => cases h.isDecoded
  | object ms ih =>
    obtain ⟨_, hms⟩ := isOrderable_object.mp h
    rw [canonical_object]
    refine .trans (.members (sortMembers_perm _)) (.map_members (fun m hm => ?_) [])
    obtain ⟨horderable, htags⟩ := hms m hm
    exact reordering_canonicalUnder horderable.isDecoded htags (ih m hm horderable)
  | _ => exact .refl _

/-! ### Reorderings have one canonical form -/

theorem isOrderable_members_congr {ms ns : List (Text × Value)} (h : ms.Perm ns) :
    IsOrderable (.object ms) ↔ IsOrderable (.object ns) := by
  simp only [isOrderable_object, (h.map _).nodup_iff, h.mem_iff]

theorem canonical_members_congr {ms ns : List (Text × Value)} (h : ms.Perm ns)
    (hms : IsOrderable (.object ms)) : canonical (.object ms) = canonical (.object ns) := by
  rw [canonical_object, canonical_object]
  refine congrArg Value.object (sortMembers_eq_of_perm ?_ (h.map _))
  rw [List.map_map]
  exact (isOrderable_object.mp hms).1

theorem isOrderable_member_congr {v w : Value} {key : Text}
    {before after : List (Text × Value)}
    (h : IsOrderable v ∧ HoldsTextTags key v ↔ IsOrderable w ∧ HoldsTextTags key w) :
    IsOrderable (.object (before ++ (key, v) :: after)) ↔
      IsOrderable (.object (before ++ (key, w) :: after)) := by
  simp only [isOrderable_object, List.map_append, List.map_cons, List.forall_mem_append,
    List.forall_mem_cons, h]

theorem canonical_member_congr {v w : Value} {key : Text}
    {before after : List (Text × Value)} (h : canonicalUnder key v = canonicalUnder key w) :
    canonical (.object (before ++ (key, v) :: after)) =
      canonical (.object (before ++ (key, w) :: after)) := by
  simp only [canonical_object, List.map_append, List.map_cons, h]

/-- A list of texts under the key of tags may come in another order. -/
theorem orderable_tags_congr {ts us : List Value} (h : ts.Perm us) :
    IsOrderable (.list ts) ∧ HoldsTextTags typeKey (.list ts) ↔
      IsOrderable (.list us) ∧ HoldsTextTags typeKey (.list us) := by
  simp [isOrderable_list, HoldsTextTags, h.mem_iff]

theorem canonicalUnder_tags_congr {ts us : List Value} (h : ts.Perm us)
    (hts : HoldsTextTags typeKey (.list ts)) (hus : HoldsTextTags typeKey (.list us)) :
    canonicalUnder typeKey (.list ts) = canonicalUnder typeKey (.list us) := by
  rw [eq_map_string (hts rfl .list ts rfl), eq_map_string (hus rfl .list us rfl),
    canonicalUnder_map_string, canonicalUnder_map_string,
    sortTexts_eq_of_perm (h.filterMap Value.text?)]

/-- Reorderings are orderable together, and have then one canonical form. -/
theorem Reordering.isOrderable_iff_and {v w : Value} (h : Reordering v w) :
    (IsOrderable v ↔ IsOrderable w) ∧ (IsOrderable v → canonical v = canonical w) := by
  induction h with
  | refl v => exact ⟨.rfl, fun _ => rfl⟩
  | symm _ ih => exact ⟨ih.1.symm, fun hw => (ih.2 (ih.1.mpr hw)).symm⟩
  | trans _ _ ih ih' =>
    exact ⟨ih.1.trans ih'.1, fun hu => (ih.2 hu).trans (ih'.2 (ih.1.mp hu))⟩
  | members h => exact ⟨isOrderable_members_congr h, canonical_members_congr h⟩
  | @tags ts us before after h =>
    refine ⟨isOrderable_member_congr (orderable_tags_congr h), fun hms => canonical_member_congr ?_⟩
    have hts := (isOrderable_object.mp hms).2 (typeKey, .list ts) (by simp)
    exact canonicalUnder_tags_congr h hts.2 ((orderable_tags_congr h).mp hts).2
  | element before after _ ih =>
    simp only [isOrderable_list, List.forall_mem_append, List.forall_mem_cons]
    refine ⟨by rw [ih.1], fun h => ?_⟩
    simp only [canonical, canonicalAll_eq_map, List.map_append, List.map_cons, ih.2 h.2.1]
  | @member v w key before after _ ih =>
    refine ⟨isOrderable_member_congr ⟨fun h => ?_, fun h => ?_⟩,
      fun hms => canonical_member_congr ?_⟩
    · exact ⟨ih.1.mp h.1, h.2.congr (ih.2 h.1)⟩
    · have hv := ih.1.mpr h.1
      exact ⟨hv, h.2.congr (ih.2 hv).symm⟩
    · obtain ⟨hv, htags⟩ := (isOrderable_object.mp hms).2 (key, v) (by simp)
      exact canonicalUnder_congr (ih.2 hv) htags

section
variable {v w : Value} (hv : IsOrderable v)
include hv

theorem Reordering.canonical_eq (h : Reordering v w) : canonical v = canonical w :=
  h.isOrderable_iff_and.2 hv

theorem isOrderable_canonical : IsOrderable (canonical v) :=
  (reordering_canonical hv).isOrderable_iff_and.1.mpr hv

/-- The canonical form is its own canonical form. -/
theorem canonical_canonical : canonical (canonical v) = canonical v :=
  (reordering_canonical hv).canonical_eq (isOrderable_canonical hv)

theorem canonicalize_canonical (hdepth : v.nestsWithin maxCanonicalDepth = true) :
    canonicalize (canonical v) = .ok (canonical v) := by
  rw [← hv.hasTextUnions.nestsWithin_canonical] at hdepth
  rw [canonicalize_eq_ok (isOrderable_canonical hv).hasTextUnions hdepth, canonical_canonical hv]

end

/-- The canonical form of a value is a reordering of it and its own canonical form, and two values
have one canonical form exactly if they are reorderings of each other. -/
theorem canonicalize_eq_iff_reordering {v w : Value} (hv : v.IsDecoded) (hw : w.IsDecoded)
    (htagsv : HasTextUnions v) (htagsw : HasTextUnions w)
    (hdepthv : v.nestsWithin maxCanonicalDepth = true)
    (hdepthw : w.nestsWithin maxCanonicalDepth = true) :
    ∃ form form', canonicalize v = .ok form ∧ canonicalize w = .ok form' ∧
      Reordering form v ∧ canonicalize form = .ok form ∧ (form = form' ↔ Reordering v w) := by
  have hv : IsOrderable v := ⟨hv, htagsv⟩
  have hw : IsOrderable w := ⟨hw, htagsw⟩
  refine ⟨canonical v, canonical w, canonicalize_eq_ok htagsv hdepthv,
    canonicalize_eq_ok htagsw hdepthw, reordering_canonical hv,
    canonicalize_canonical hv hdepthv, fun h => ?_, fun h => h.canonical_eq hv⟩
  exact (reordering_canonical hv).symm.trans (h ▸ reordering_canonical hw)

/-- Members and tags in two orders, where a property is called like the list of tags. -/
theorem canonicalize_eq_iff_reordering_property :
    let tagged (names : List Text) := Value.object [(typeKey, .list (names.map .string))]
    let v := Value.object [(typeKey, tagged ["null", "array"]), ("a", .int 0)]
    let w := Value.object [("a", .int 0), (typeKey, tagged ["array", "null"])]
    (IsOrderable v ∧ IsOrderable w ∧ v.nestsWithin maxCanonicalDepth = true ∧
      w.nestsWithin maxCanonicalDepth = true) ∧ canonicalize v = canonicalize w := by
  intro tagged v w
  have htagged (names : List Text) : IsOrderable (tagged names) := by
    refine isOrderable_object.mpr ⟨List.nodup_singleton _, ?_⟩
    simp only [List.forall_mem_singleton, isOrderable_list, List.forall_mem_map]
    refine ⟨fun t _ => ⟨.string t, .string t⟩, ?_⟩
    rintro - form ts ⟨⟩
    simp
  have hmember (names : List Text) :
      IsOrderable (tagged names) ∧ HoldsTextTags typeKey (tagged names) := ⟨htagged names, nofun⟩
  have ha : IsOrderable (.int 0) ∧ HoldsTextTags "a" (.int 0) :=
    ⟨⟨.int 0, .leaf nofun nofun⟩, nofun⟩
  have hv : IsOrderable v := isOrderable_object.mpr ⟨by decide, by simp [hmember, ha]⟩
  have hw : IsOrderable w := isOrderable_object.mpr ⟨by decide, by simp [hmember, ha]⟩
  have hreordering : Reordering v w :=
    (Reordering.members (.swap _ _ [])).trans
      (.member typeKey [("a", .int 0)] [] (.tags [] [] (.swap _ _ [])))
  obtain ⟨form, form', hform, hform', _, _, hiff⟩ := canonicalize_eq_iff_reordering hv.isDecoded
    hw.isDecoded hv.hasTextUnions hw.hasTextUnions (by decide) (by decide)
  exact ⟨⟨hv, hw, by decide, by decide⟩, by rw [hform, hform', hiff.mpr hreordering]⟩

end JsonSurvey.Schema
