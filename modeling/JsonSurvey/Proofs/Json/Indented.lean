import JsonSurvey.Proofs.Json.Layout
import JsonSurvey.Proofs.Json.Plain

/-! Indented texts read back. Chunks that are all written make up a text that is read as the value
(`writesBack`), whatever is in front of it, and no line of it ends with a carriage return. That
all chunks are written is itself a condition on the value: its integers have few enough digits, and
it does not nest too deeply. -/

namespace JsonSurvey.Json

/-! ### Spaces and carriage returns -/

theorem AllPlain.return_notMem {t : Text} (h : AllPlain t) : 0x0D ∉ t :=
  fun hmem => absurd (h _ hmem) (by decide)

/-- A carriage return in a string is escaped. -/
theorem return_notMem_quote (t : Text) : 0x0D ∉ quote t := by
  intro hmem
  rcases isPlain_or_of_mem_quote hmem with hplain | ⟨_, hcontrol⟩
  · exact absurd hplain (by decide)
  · exact absurd hcontrol (by decide)

theorem return_notMem_newLine (level : Nat) : 0x0D ∉ newLine level :=
  (allPlain_newLine level).return_notMem

theorem isSpaces_newLine (level : Nat) : IsSpaces (newLine level) := by
  intro c hc
  rcases List.mem_cons.mp hc with rfl | hc
  · rfl
  · rw [List.eq_of_mem_replicate hc]
    rfl

/-! ### Chunks that are all written -/

section
variable {limit level : Nat} {lead : Text} {texts : List Text}

theorem exists_of_map_ok {t : Text} {rest : List Chunk} (hok : texts.map .ok = .ok t :: rest) :
    ∃ inner, texts = t :: inner ∧ inner.map .ok = rest := by
  obtain ⟨_, inner, rfl, ht, hinner⟩ := List.map_eq_cons_iff.mp hok
  cases ht
  exact ⟨inner, rfl, hinner⟩

theorem eq_singleton_of_map_ok {t : Text} (hok : texts.map .ok = [(.ok t : Chunk)]) :
    texts = [t] := by
  obtain ⟨inner, rfl, hinner⟩ := exists_of_map_ok hok
  rw [List.map_eq_nil_iff.mp hinner]

theorem not_map_ok_error {fault : Fault} : texts.map .ok ≠ [(.error fault : Chunk)] := by
  intro hok
  obtain ⟨_, _, h⟩ := List.map_eq_singleton_iff.mp hok
  contradiction

/-- A container that is written does not lie too deep. -/
theorem exists_of_container {rest : List Chunk}
    (hok : texts.map .ok = .ok lead ::
      if maxWrittenDepth ≤ level then [.error .tooDeep] else rest) :
    level < maxWrittenDepth ∧ ∃ inner, texts = lead :: inner ∧ inner.map .ok = rest := by
  obtain ⟨inner, rfl, hinner⟩ := exists_of_map_ok hok
  split at hinner
  · exact absurd hinner not_map_ok_error
  · next hdepth => exact ⟨Nat.not_le.mp hdepth, inner, rfl, hinner⟩

/-- If all chunks of a value are written, they make up its text behind the lead. -/
def WritesBack (limit : Nat) (v : Value) : Prop :=
  ∀ (level : Nat) (lead : Text) (texts : List Text), texts.map .ok = chunks level lead v →
    ∃ t, texts.flatten = lead ++ t ∧ 0x0D ∉ t ∧ Reads limit level t v

theorem exists_of_leaf {t : Text} {v : Value} (hok : texts.map .ok = [(.ok (lead ++ t) : Chunk)])
    (hreturn : 0x0D ∉ t) (hreads : Reads limit level t v) :
    ∃ t, texts.flatten = lead ++ t ∧ 0x0D ∉ t ∧ Reads limit level t v := by
  rw [eq_singleton_of_map_ok hok]
  exact ⟨t, List.flatten_singleton, hreturn, hreads⟩

theorem reads_elementChunks {vs : List Value} (h : ∀ v ∈ vs, WritesBack limit v)
    (hok : texts.map .ok = elementChunks level vs) :
    0x0D ∉ texts.flatten ∧ ReadsElements limit level texts.flatten vs := by
  induction vs generalizing texts with
  | nil =>
    rw [elementChunks] at hok
    obtain ⟨inner, rfl, hinner⟩ := exists_of_map_ok hok
    rw [eq_singleton_of_map_ok hinner]
    refine ⟨?_, readsElements_nil (isSpaces_newLine _)⟩
    simp [return_notMem_newLine]
  | cons v vs ih =>
    obtain ⟨hv, hvs⟩ := List.forall_mem_cons.mp h
    rw [elementChunks] at hok
    obtain ⟨first, rest, rfl, hfirst, hrest⟩ := List.map_eq_append_iff.mp hok
    obtain ⟨t, ht, hreturn, hreads⟩ := hv _ _ _ hfirst
    obtain ⟨hreturn', hreads'⟩ := ih hvs hrest
    have hflatten : (first ++ rest).flatten = 0x2C :: (newLine level ++ (t ++ rest.flatten)) := by
      rw [List.flatten_append, ht]
      simp
    rw [hflatten]
    refine ⟨?_, readsElements_cons (isSpaces_newLine _) hreads hreads'⟩
    simp [return_notMem_newLine, hreturn, hreturn']

theorem isSpaces_behindColon : IsSpaces [0x20] := by
  intro c hc
  rw [List.mem_singleton.mp hc]
  rfl

theorem reads_memberChunks {ms : List (Text × Value)} (h : ∀ m ∈ ms, WritesBack limit m.2)
    (hok : texts.map .ok = memberChunks level ms) :
    0x0D ∉ texts.flatten ∧ ReadsMembers limit level texts.flatten ms := by
  induction ms generalizing texts with
  | nil =>
    rw [memberChunks] at hok
    obtain ⟨inner, rfl, hinner⟩ := exists_of_map_ok hok
    rw [eq_singleton_of_map_ok hinner]
    refine ⟨?_, readsMembers_nil (isSpaces_newLine _)⟩
    simp [return_notMem_newLine]
  | cons m ms ih =>
    obtain ⟨hm, hms⟩ := List.forall_mem_cons.mp h
    rw [memberChunks] at hok
    obtain ⟨_, rfl, hkey⟩ := exists_of_map_ok hok
    obtain ⟨_, rfl, hcolon⟩ := exists_of_map_ok hkey
    obtain ⟨_, rfl, hvalue⟩ := exists_of_map_ok hcolon
    obtain ⟨first, rest, rfl, hfirst, hrest⟩ := List.map_eq_append_iff.mp hvalue
    obtain ⟨t, ht, hreturn, hreads⟩ := hm _ _ _ hfirst
    obtain ⟨hreturn', hreads'⟩ := ih hms hrest
    have hflatten : ((0x2C :: newLine level) :: quote m.1 :: [0x3A, 0x20] ::
        (first ++ rest)).flatten =
          0x2C :: (newLine level ++ (quote m.1 ++ 0x3A :: ([0x20] ++ (t ++ rest.flatten)))) := by
      simp [ht]
    rw [hflatten]
    refine ⟨?_, readsMembers_cons (isSpaces_newLine _) isSpaces_behindColon hreads hreads'⟩
    simp [return_notMem_newLine, return_notMem_quote, hreturn, hreturn']

end

section
variable {limit : Nat} (hlimit : maxWrittenDepth ≤ limit)
include hlimit

theorem writesBack_list {es : List Value} (h : ∀ e ∈ es, WritesBack limit e) :
    WritesBack limit (.list es) := by
  intro level lead texts hok
  cases es with
  | nil =>
    rw [chunks] at hok
    obtain ⟨hdepth, inner, rfl, hinner⟩ := exists_of_container hok
    rw [eq_singleton_of_map_ok hinner]
    exact ⟨_, by simp, by decide, reads_emptyArray (Nat.lt_of_lt_of_le hdepth hlimit)⟩
  | cons v vs =>
    obtain ⟨hv, hvs⟩ := List.forall_mem_cons.mp h
    rw [chunks] at hok
    obtain ⟨hdepth, inner, rfl, hinner⟩ := exists_of_container hok
    obtain ⟨first, rest, rfl, hfirst, hrest⟩ := List.map_eq_append_iff.mp hinner
    obtain ⟨t, ht, hreturn, hreads⟩ := hv _ _ _ hfirst
    obtain ⟨hreturn', hreads'⟩ := reads_elementChunks hvs hrest
    refine ⟨_, ?_, ?_, reads_array (Nat.lt_of_lt_of_le hdepth hlimit) (isSpaces_newLine (level + 1))
      hreads hreads'⟩
    · simp [ht]
    · simp [return_notMem_newLine, hreturn, hreturn']

theorem writesBack_object {ms : List (Text × Value)} (hkeys : (ms.map (·.1)).Nodup)
    (h : ∀ m ∈ ms, WritesBack limit m.2) : WritesBack limit (.object ms) := by
  intro level lead texts hok
  cases ms with
  | nil =>
    rw [chunks] at hok
    obtain ⟨hdepth, inner, rfl, hinner⟩ := exists_of_container hok
    rw [eq_singleton_of_map_ok hinner]
    exact ⟨_, by simp, by decide, reads_emptyObject (Nat.lt_of_lt_of_le hdepth hlimit)⟩
  | cons m ms =>
    obtain ⟨hm, hms⟩ := List.forall_mem_cons.mp h
    rw [chunks] at hok
    obtain ⟨hdepth, inner, rfl, hopen⟩ := exists_of_container hok
    obtain ⟨_, rfl, hgap⟩ := exists_of_map_ok hopen
    obtain ⟨_, rfl, hkey⟩ := exists_of_map_ok hgap
    obtain ⟨_, rfl, hcolon⟩ := exists_of_map_ok hkey
    obtain ⟨_, rfl, hvalue⟩ := exists_of_map_ok hcolon
    obtain ⟨first, rest, rfl, hfirst, hrest⟩ := List.map_eq_append_iff.mp hvalue
    obtain ⟨t, ht, hreturn, hreads⟩ := hm _ _ _ hfirst
    obtain ⟨hreturn', hreads'⟩ := reads_memberChunks hms hrest
    have hspaces := isSpaces_newLine (level + 1)
    refine ⟨_, ?_, ?_, reads_object (Nat.lt_of_lt_of_le hdepth hlimit) hspaces
      isSpaces_behindColon hkeys hreads hreads'⟩
    · simp [ht]
    · simp [return_notMem_newLine, return_notMem_quote, hreturn, hreturn']

/-- The written text of a decoded value is read as the value. -/
theorem writesBack {v : Value} (h : v.IsDecoded) : WritesBack limit v := by
  induction h with
  | null =>
    intro level lead texts hok
    exact exists_of_leaf hok (by decide) reads_null
  | bool b =>
    intro level lead texts hok
    cases b with
    | false => exact exists_of_leaf hok (by decide) reads_false
    | true => exact exists_of_leaf hok (by decide) reads_true
  | int i =>
    intro level lead texts hok
    rw [chunks, integerText] at hok
    split at hok
    · exact absurd hok not_map_ok_error
    · next hdigits =>
      exact exists_of_leaf hok (allPlain_ofInt i).return_notMem (reads_int (Nat.not_lt.mp hdigits))
  | float x =>
    intro level lead texts hok
    exact exists_of_leaf hok (allPlain_toText x).return_notMem (reads_float x)
  | string t =>
    intro level lead texts hok
    exact exists_of_leaf hok (return_notMem_quote t) (reads_string t)
  | list _ ih => exact writesBack_list hlimit ih
  | object hkeys _ ih => exact writesBack_object hlimit hkeys ih

/-- What the chunks of a value make up, if all are written, is decoded to the value by a reader that
goes as deep as the writer. -/
theorem decode_indented {v : Value} (h : v.IsDecoded) {texts : List Text}
    (hok : texts.map .ok = indented v) :
    0x0D ∉ texts.flatten ∧ decodeWithin limit texts.flatten = .ok v := by
  obtain ⟨t, ht, hreturn, hreads⟩ := writesBack hlimit h 0 [] texts hok
  rw [ht, List.nil_append]
  exact ⟨hreturn, decode_of_reads hreads⟩

end

end JsonSurvey.Json
