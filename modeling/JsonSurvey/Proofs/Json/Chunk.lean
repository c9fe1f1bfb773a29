import JsonSurvey.Proofs.Json.Compact
import JsonSurvey.Proofs.Json.Plain

/-! The chunks of a value. The faults among them are of three kinds, none of which is trouble with
files (`indented_isOfValue`). If the value is readable and does not nest too deeply, each of its
chunks is a text, and what is not plain in them is spelled by the value in a string or a key
(`indented_isSpelled`). -/

namespace JsonSurvey

/-- A value spells the code points of its strings and of its keys. -/
inductive Value.Spells (c : CodePoint) : Value → Prop
  | string {t : Text} : c ∈ t → Spells c (.string t)
  | element {form : ArrayForm} {es : List Value} {e : Value} : e ∈ es → Spells c e →
    Spells c (.array form es)
  | key {ms : List (Text × Value)} {m : Text × Value} : m ∈ ms → c ∈ m.1 → Spells c (.object ms)
  | member {ms : List (Text × Value)} {m : Text × Value} : m ∈ ms → Spells c m.2 →
    Spells c (.object ms)

/-- A fault for which a value is to blame that is written. -/
inductive Fault.IsOfValue : Fault → Prop
  | integer : IsOfValue .unwritableInteger
  | depth : IsOfValue .tooDeep
  | leaf (name : Text) : IsOfValue (.notWritable name)

theorem Fault.IsOfValue.isFileTrouble {fault : Fault} (h : fault.IsOfValue) :
    fault.isFileTrouble = false := by
  cases h <;> rfl

namespace Json

section
variable {level : Nat} {fault : Fault}

theorem elementChunks_isOfValue {vs : List Value}
    (h : ∀ v ∈ vs, ∀ lead, .error fault ∈ chunks level lead v → fault.IsOfValue)
    (hmem : .error fault ∈ elementChunks level vs) : fault.IsOfValue := by
  induction vs with
  | nil => simp [elementChunks] at hmem
  | cons v vs ih =>
    obtain ⟨hv, hvs⟩ := List.forall_mem_cons.mp h
    rw [elementChunks] at hmem
    rcases List.mem_append.mp hmem with hmem | hmem
    · exact hv _ hmem
    · exact ih hvs hmem

theorem memberChunks_isOfValue {ms : List (Text × Value)}
    (h : ∀ m ∈ ms, ∀ lead, .error fault ∈ chunks level lead m.2 → fault.IsOfValue)
    (hmem : .error fault ∈ memberChunks level ms) : fault.IsOfValue := by
  induction ms with
  | nil => simp [memberChunks] at hmem
  | cons m ms ih =>
    obtain ⟨hm, hms⟩ := List.forall_mem_cons.mp h
    simp only [memberChunks, List.mem_cons, reduceCtorEq, false_or] at hmem
    rcases List.mem_append.mp hmem with hmem | hmem
    · exact hm _ hmem
    · exact ih hms hmem

theorem mem_containerChunks {lead : Text} {rest : List Chunk}
    (h : .error fault ∈ (.ok lead ::
      if maxWrittenDepth ≤ level then [.error .tooDeep] else rest : List Chunk)) :
    fault.IsOfValue ∨ .error fault ∈ rest := by
  rcases List.mem_cons.mp h with h | h
  · contradiction
  split at h
  · cases List.mem_singleton.mp h
    exact .inl .depth
  · exact .inr h

/-- A value stops its writing with an integer that is too long, with containers that nest too deeply
or with a leaf without a text. -/
theorem chunks_isOfValue {v : Value} {lead : Text} (h : .error fault ∈ chunks level lead v) :
    fault.IsOfValue := by
  induction v generalizing level lead with
  | null | float | string => simp [chunks] at h
  | bool b => cases b <;> simp [chunks] at h
  | int i =>
    rw [chunks, List.mem_singleton, integerText] at h
    split at h
    · cases h
      exact .integer
    · contradiction
  | array form es ih =>
    rw [chunks.eq_def] at h
    rcases mem_containerChunks h with h | h
    · exact h
    cases es with
    | nil => simp at h
    | cons v vs =>
      obtain ⟨hv, hvs⟩ := List.forall_mem_cons.mp ih
      rcases List.mem_append.mp h with h | h
      · exact hv h
      · exact elementChunks_isOfValue (fun v hv lead => hvs v hv) h
  | object ms ih =>
    rw [chunks.eq_def] at h
    rcases mem_containerChunks h with h | h
    · exact h
    cases ms with
    | nil => simp at h
    | cons m ms =>
      obtain ⟨hm, hms⟩ := List.forall_mem_cons.mp ih
      simp only [List.mem_cons, reduceCtorEq, false_or] at h
      rcases List.mem_append.mp h with h | h
      · exact hm h
      · exact memberChunks_isOfValue (fun m hm lead => hms m hm) h
  | foreign leaf =>
    simp only [chunks, List.mem_cons, reduceCtorEq, List.not_mem_nil, false_or, or_false,
      Except.error.injEq] at h
    rw [h]
    exact .leaf _

theorem indented_isOfValue {v : Value} (h : .error fault ∈ indented v) : fault.IsOfValue :=
  chunks_isOfValue h

end

/-- A chunk that is a text of plain code points and of those that may be spelled. -/
def IsSpelled (spelled : CodePoint → Prop) (chunk : Chunk) : Prop :=
  ∃ t, chunk = .ok t ∧ ∀ c ∈ t, IsPlain c ∨ spelled c

section
variable {spelled spelled' : CodePoint → Prop} {chunk : Chunk} {level : Nat} {lead t : Text}

theorem IsSpelled.mono (h : IsSpelled spelled chunk) (hle : ∀ c, spelled c → spelled' c) :
    IsSpelled spelled' chunk := by
  obtain ⟨t, rfl, ht⟩ := h
  exact ⟨t, rfl, fun c hc => (ht c hc).imp_right (hle c)⟩

theorem isSpelled_of_allPlain (h : AllPlain t) : IsSpelled spelled (.ok t) :=
  ⟨t, rfl, fun c hc => .inl (h c hc)⟩

theorem isSpelled_append_quote (hlead : AllPlain lead) (h : ∀ c ∈ t, spelled c) :
    IsSpelled spelled (.ok (lead ++ quote t)) := by
  refine ⟨_, rfl, fun c hc => ?_⟩
  rcases List.mem_append.mp hc with hc | hc
  · exact .inl (hlead c hc)
  · exact (isPlain_or_of_mem_quote hc).imp_right fun hmem => h c hmem.1

theorem isSpelled_quote (h : ∀ c ∈ t, spelled c) : IsSpelled spelled (.ok (quote t)) := by
  have hlead : AllPlain [] := List.forall_mem_nil _
  exact isSpelled_append_quote hlead h

theorem isSpelled_elementChunks {vs : List Value}
    (h : ∀ v ∈ vs, ∀ lead, AllPlain lead → ∀ chunk ∈ chunks level lead v, IsSpelled spelled chunk) :
    ∀ chunk ∈ elementChunks level vs, IsSpelled spelled chunk := by
  induction vs with
  | nil =>
    rw [elementChunks, List.forall_mem_cons, List.forall_mem_singleton]
    exact ⟨isSpelled_of_allPlain (allPlain_newLine _), isSpelled_of_allPlain (by decide)⟩
  | cons v vs ih =>
    obtain ⟨hv, hvs⟩ := List.forall_mem_cons.mp h
    rw [elementChunks, List.forall_mem_append]
    exact ⟨hv _ (allPlain_cons.mpr ⟨by decide, allPlain_newLine _⟩), ih hvs⟩

theorem isSpelled_memberChunks {ms : List (Text × Value)} (hkeys : ∀ m ∈ ms, ∀ c ∈ m.1, spelled c)
    (h : ∀ m ∈ ms, ∀ lead, AllPlain lead →
      ∀ chunk ∈ chunks level lead m.2, IsSpelled spelled chunk) :
    ∀ chunk ∈ memberChunks level ms, IsSpelled spelled chunk := by
  induction ms with
  | nil =>
    rw [memberChunks, List.forall_mem_cons, List.forall_mem_singleton]
    exact ⟨isSpelled_of_allPlain (allPlain_newLine _), isSpelled_of_allPlain (by decide)⟩
  | cons m ms ih =>
    obtain ⟨hm, hms⟩ := List.forall_mem_cons.mp h
    obtain ⟨hkey, hkeys⟩ := List.forall_mem_cons.mp hkeys
    rw [memberChunks]
    simp only [List.forall_mem_cons, List.forall_mem_append]
    exact ⟨isSpelled_of_allPlain (allPlain_cons.mpr ⟨by decide, allPlain_newLine _⟩),
      isSpelled_quote hkey, isSpelled_of_allPlain (by decide), hm [] (List.forall_mem_nil _),
      ih hkeys hms⟩

end

/-- Every chunk of a readable value that does not nest too deeply is a text, and all of it is plain
but for what the value spells. -/
theorem chunks_isSpelled {v : Value} (h : IsReadable v) {level : Nat}
    (hdepth : v.nestsWithin (maxWrittenDepth - level) = true) {lead : Text}
    (hlead : AllPlain lead) : ∀ chunk ∈ chunks level lead v, IsSpelled v.Spells chunk := by
  induction h generalizing level lead with
  | null =>
    rw [chunks, List.forall_mem_singleton]
    exact isSpelled_of_allPlain (allPlain_append.mpr ⟨hlead, by decide⟩)
  | bool b =>
    cases b <;> rw [chunks, List.forall_mem_singleton] <;>
      exact isSpelled_of_allPlain (allPlain_append.mpr ⟨hlead, by decide⟩)
  | @int i hdigits =>
    rw [chunks, integerText, if_neg (Nat.not_lt.mpr hdigits), List.forall_mem_singleton]
    exact isSpelled_of_allPlain (allPlain_append.mpr ⟨hlead, allPlain_ofInt i⟩)
  | float x =>
    rw [chunks, List.forall_mem_singleton]
    exact isSpelled_of_allPlain (allPlain_append.mpr ⟨hlead, allPlain_toText x⟩)
  | string t =>
    rw [chunks, List.forall_mem_singleton]
    exact isSpelled_append_quote hlead fun c => .string
  | @list es _ ih =>
    obtain ⟨inner, hinner, hes⟩ := Value.nestsWithin_array.mp hdepth
    have helements : ∀ e ∈ es, ∀ lead, AllPlain lead →
        ∀ chunk ∈ chunks (level + 1) lead e, IsSpelled (Value.list es).Spells chunk :=
      fun e he lead hlead chunk hchunk => (ih e he (by
        rw [show maxWrittenDepth - (level + 1) = inner by omega]
        exact hes e he) hlead chunk hchunk).mono fun c => .element he
    have hlevel : ¬ maxWrittenDepth ≤ level := by omega
    cases es with
    | nil =>
      rw [chunks, if_neg hlevel, List.forall_mem_cons, List.forall_mem_singleton]
      exact ⟨isSpelled_of_allPlain hlead, isSpelled_of_allPlain (by decide)⟩
    | cons v vs =>
      obtain ⟨hv, hvs⟩ := List.forall_mem_cons.mp helements
      rw [chunks, if_neg hlevel, List.forall_mem_cons, List.forall_mem_append]
      exact ⟨isSpelled_of_allPlain hlead,
        hv _ (allPlain_cons.mpr ⟨by decide, allPlain_newLine _⟩), isSpelled_elementChunks hvs⟩
  | @object ms hkeys _ ih =>
    obtain ⟨inner, hinner, hms⟩ := Value.nestsWithin_object.mp hdepth
    have hmembers : ∀ m ∈ ms, ∀ lead, AllPlain lead →
        ∀ chunk ∈ chunks (level + 1) lead m.2, IsSpelled (Value.object ms).Spells chunk :=
      fun m hm lead hlead chunk hchunk => (ih m hm (by
        rw [show maxWrittenDepth - (level + 1) = inner by omega]
        exact hms m hm) hlead chunk hchunk).mono fun c => .member hm
    have hspelled : ∀ m ∈ ms, ∀ c ∈ m.1, (Value.object ms).Spells c := fun m hm c => .key hm
    have hlevel : ¬ maxWrittenDepth ≤ level := by omega
    cases ms with
    | nil =>
      rw [chunks, if_neg hlevel, List.forall_mem_cons, List.forall_mem_singleton]
      exact ⟨isSpelled_of_allPlain hlead, isSpelled_of_allPlain (by decide)⟩
    | cons m ms =>
      obtain ⟨hm, hms⟩ := List.forall_mem_cons.mp hmembers
      obtain ⟨hkey, hkeys⟩ := List.forall_mem_cons.mp hspelled
      rw [chunks, if_neg hlevel]
      simp only [List.forall_mem_cons, List.forall_mem_append]
      exact ⟨isSpelled_of_allPlain hlead, isSpelled_of_allPlain (by decide),
        isSpelled_of_allPlain (allPlain_newLine _), isSpelled_quote hkey,
        isSpelled_of_allPlain (by decide), hm [] (List.forall_mem_nil _),
        isSpelled_memberChunks hkeys hms⟩

theorem indented_isSpelled {v : Value} (h : IsReadable v)
    (hdepth : v.nestsWithin maxWrittenDepth = true) :
    ∀ chunk ∈ indented v, IsSpelled v.Spells chunk := by
  have hlevel : v.nestsWithin (maxWrittenDepth - 0) = true := hdepth
  exact chunks_isSpelled h hlevel (List.forall_mem_nil _)

end Json
end JsonSurvey
