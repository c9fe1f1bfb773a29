import JsonSurvey.Analysis
import JsonSurvey.Proofs.Source
import JsonSurvey.Proofs.Variant
import Mathlib.Data.List.Permutation

/-! What an analysis tells. Every source that can be read from has one (`ofSource_consistent`): what
goes wrong in reading is bad content or trouble with a file, which the status tells of, and a
document that was read is a JSON value, so that only its depth can keep its variants from being
collected. -/

namespace JsonSurvey

/-! ### Documents without schemas -/

theorem Value.items_eq_nil {v : Value} : v.items = [] ↔ v = .list [] := by
  cases v with
  | array form es => cases form <;> simp [items]
  | _ => simp [items]

namespace Schema

/-- A JSON value has no schema exactly if it nests too deeply. -/
theorem extract_eq_tooDeep_iff {v : Value} (h : v.IsJson) :
    extract v = .error .tooDeep ↔ v.nestsWithin maxDepth = false := by
  cases hdepth : v.nestsWithin maxDepth with
  | true => simp [extract_eq h hdepth]
  | false => simp [extract, hdepth]

end Schema

namespace Variant

theorem observe_tooDeep {item : Value} (h : item.nestsWithin Schema.maxDepth = false)
    (seen : List (Text × Variant)) : observe seen item = .error .tooDeep := by
  have hextract : Schema.extract item = .error .tooDeep := by
    rw [Schema.extract, h]
    rfl
  rw [observe, hextract]
  rfl

/-- The first item that nests too deeply ends the collection. -/
theorem foldlM_observe_tooDeep {items : List Value} (h : ∀ item ∈ items, item.IsJson)
    (hdeep : ∃ item ∈ items, item.nestsWithin Schema.maxDepth = false)
    (seen : List (Text × Variant)) : items.foldlM observe seen = .error .tooDeep := by
  induction items generalizing seen with
  | nil => simp at hdeep
  | cons item items ih =>
    obtain ⟨hitem, hitems⟩ := List.forall_mem_cons.mp h
    rw [List.foldlM_cons]
    cases hdepth : item.nestsWithin Schema.maxDepth with
    | true =>
      rw [observe_eq ⟨hitem, hdepth⟩]
      refine ih hitems ?_ _
      simpa [hdepth] using hdeep
    | false =>
      rw [observe_tooDeep hdepth]
      rfl

theorem collect_tooDeep {document : Value} (h : document.IsJson)
    (hdeep : ∃ item ∈ document.items, item.nestsWithin Schema.maxDepth = false) :
    collect document = .error .tooDeep := by
  rw [collect, foldlM_observe_tooDeep (isJson_of_mem_items h) hdeep]
  rfl

/-- There are at most as many variants as items, and none only if there is no item. -/
theorem collect_eq_ok {document : Value} (h : document.IsJson)
    (hdepth : ∀ item ∈ document.items, item.nestsWithin Schema.maxDepth = true) :
    ∃ variants, collect document = .ok variants ∧
      variants.length ≤ document.items.length ∧ (variants = [] ↔ document.items = []) := by
  have hcollect :
      collect document = .ok (firstOccurrences sameSchema (document.items.map ofItem)) :=
    collect_list (isItem_of_mem h hdepth)
  refine ⟨_, hcollect, ?_, ?_⟩
  · have hsublist : (firstOccurrences sameSchema (document.items.map ofItem)).Sublist
        (document.items.map ofItem) := firstOccurrences_sublist _
    simpa using hsublist.length_le
  · rw [firstOccurrences_eq_nil, List.map_eq_nil_iff]

end Variant

namespace Analysis

/-! ### Rows -/

theorem row_record (c : Coordinate) : row c.record = .ok c.pair := rfl

/-- The rows of a table are those of the coordinates, read off their records. -/
theorem rows_coordinatesValue (a : Analysis) : rows a.coordinatesValue = .ok a.rowsValue := by
  have hmap (cs : List Coordinate) :
      (cs.map Coordinate.record).mapM row = .ok (cs.map Coordinate.pair) := by
    induction cs with
    | nil => rfl
    | cons c cs ih =>
      rw [List.map_cons, List.mapM_cons, row_record, ih]
      rfl
  change (do return Value.list (← (a.coordinates.map Coordinate.record).mapM row)) = _
  rw [hmap]
  rfl

/-! ### Documents -/

/-- The analysis of a document: its coordinates in any case, and its variants unless it nests too
deeply for them. -/
theorem ofDocument_result (document : Value) :
    (ofDocument document).result = match Variant.collect document with
      | .ok variants => .ok ⟨variants, Coordinate.collect document,
          statusOfCounts document.items.length variants.length
            (Coordinate.collect document).length⟩
      | .error .tooDeep =>
        .ok ⟨[], Coordinate.collect document, tooDeepStatus (Coordinate.collect document).length⟩
      | .error fault => .error fault := by
  have hcoordinates : (Coordinate.survey document).result = .ok (Coordinate.collect document) := rfl
  have hvariants : (Variant.survey document).result = Variant.collect document := by
    rw [Variant.survey, Report.result_bind]
    change (Variant.collect document).bind _ = _
    cases Variant.collect document <;> rfl
  rw [ofDocument, hcoordinates]
  dsimp only
  rw [hvariants]
  cases Variant.collect document with
  | ok variants => rfl
  | error fault => cases fault <;> rfl

/-! ### Sources -/

section
variable {tree : FileTree} {source : Source}

theorem ofSource_of_read_ok {document : Value} (h : (source.read tree).result = .ok document) :
    (ofSource tree source).result = (ofDocument document).result := by
  cases source with
  | absent => contradiction
  | _ => simp only [ofSource, h]

/-- A source that cannot be read is told of in the status, whatever the reason. -/
theorem ofSource_of_read_error (hsource : source.isSupported = true) {fault : Fault}
    (h : (source.read tree).result = .error fault) :
    ∃ status, (ofSource tree source).result = .ok (failed status) ∧ fault.message <:+ status := by
  have hcause := Source.read_error hsource h
  cases source with
  | absent =>
    cases h
    exact ⟨_, rfl, List.suffix_rfl⟩
  | _ =>
    simp only [ofSource, h]
    split
    · exact ⟨_, rfl, by simp [Text.concat, List.suffix_append]⟩
    · next hbad =>
      rw [if_pos (hcause.resolve_left hbad)]
      exact ⟨_, rfl, by simp [Text.concat, List.suffix_append]⟩

/-- The analysis of a document with an item that nests too deeply for a schema. -/
theorem ofDocument_of_deep {document : Value} (h : document.IsJson)
    (hdeep : ∃ item ∈ document.items, Schema.extract item = .error .tooDeep) :
    Variant.collect document = .error .tooDeep ∧ (ofDocument document).result =
      .ok ⟨[], Coordinate.collect document,
        tooDeepStatus (Coordinate.collect document).length⟩ := by
  obtain ⟨item, hitem, hextract⟩ := hdeep
  rw [Schema.extract_eq_tooDeep_iff (Variant.isJson_of_mem_items h item hitem)] at hextract
  have hcollect := Variant.collect_tooDeep h ⟨item, hitem, hextract⟩
  rw [ofDocument_result, hcollect]
  exact ⟨rfl, rfl⟩

/-- The analysis of a document of which all items have schemas. -/
theorem ofDocument_of_shallow {document : Value} (h : document.IsJson)
    (hall : ∀ item ∈ document.items, Schema.extract item ≠ .error .tooDeep) :
    ∃ variants, Variant.collect document = .ok variants ∧
      variants.length ≤ document.items.length ∧ (variants = [] ↔ document.items = []) ∧
      (ofDocument document).result = .ok ⟨variants, Coordinate.collect document, statusOfCounts
        document.items.length variants.length (Coordinate.collect document).length⟩ := by
  have hdepth : ∀ item ∈ document.items, item.nestsWithin Schema.maxDepth = true := by
    intro item hitem
    have hne := hall item hitem
    rwa [ne_eq, Schema.extract_eq_tooDeep_iff (Variant.isJson_of_mem_items h item hitem),
      Bool.not_eq_false] at hne
  obtain ⟨variants, hcollect, hlength, hempty⟩ := Variant.collect_eq_ok h hdepth
  refine ⟨variants, hcollect, hlength, hempty, ?_⟩
  rw [ofDocument_result, hcollect]

/-- Every document has an analysis, whether or not all of its items have schemas. -/
theorem ofDocument_total {document : Value} (h : document.IsJson) :
    ∃ a, (ofDocument document).result = .ok a := by
  by_cases hdeep : ∃ item ∈ document.items, Schema.extract item = .error .tooDeep
  · exact ⟨_, (ofDocument_of_deep h hdeep).2⟩
  · obtain ⟨_, _, _, _, hresult⟩ := ofDocument_of_shallow h (by simpa using hdeep)
    exact ⟨_, hresult⟩

theorem ofSource_total (tree : FileTree) (hsource : source.isSupported = true) :
    ∃ a, (ofSource tree source).result = .ok a := by
  cases hread : (source.read tree).result with
  | ok document =>
    rw [ofSource_of_read_ok hread]
    exact ofDocument_total (Source.read_isJson hread)
  | error fault =>
    obtain ⟨status, hresult, _⟩ := ofSource_of_read_error hsource hread
    exact ⟨_, hresult⟩

/-- Every source of a supported type has an analysis. One that cannot be read, or is absent, leaves
everything empty, and the status ends in the reason. Of a document that was read the coordinates are
all shown; its variants are shown unless one of its items nests too deeply for a schema, and the
status counts what is shown. -/
theorem ofSource_consistent (tree : FileTree) (hsource : source.isSupported = true) :
    ∃ a, (ofSource tree source).result = .ok a ∧
      (∀ fault, (source.read tree).result = .error fault →
        a.variants = [] ∧ a.coordinates = [] ∧ a.rowsValue = .list [] ∧ a.exportable = false ∧
          fault.message <:+ a.status) ∧
      ∀ document, (source.read tree).result = .ok document →
        a.coordinates = Coordinate.collect document ∧
        a.rowsValue = .list ((Coordinate.collect document).map Coordinate.pair) ∧
        rows a.coordinatesValue = .ok a.rowsValue ∧
        ((∃ item ∈ document.items, Schema.extract item = .error .tooDeep) →
          Variant.collect document = .error .tooDeep ∧ a.variants = [] ∧ a.exportable = false ∧
            a.status = Text.concat [
              "Error: document is nested too deeply to compute schema variants. ",
              "Coordinates: ", Text.ofNat (Coordinate.collect document).length]) ∧
        ((∀ item ∈ document.items, Schema.extract item ≠ .error .tooDeep) →
          Variant.collect document = .ok a.variants ∧
            a.status = Text.concat ["Successfully loaded. Items: ",
              Text.ofNat document.items.length, " | Schema variants: ",
              Text.ofNat a.variants.length, " | Coordinates: ",
              Text.ofNat (Coordinate.collect document).length] ∧
            a.variants.length ≤ document.items.length ∧
            (a.exportable = true ↔ document ≠ .list [])) := by
  cases hread : (source.read tree).result with
  | error fault =>
    obtain ⟨status, hresult, hstatus⟩ := ofSource_of_read_error hsource hread
    refine ⟨failed status, hresult, ?_, nofun⟩
    rintro _ ⟨⟩
    exact ⟨rfl, rfl, rfl, rfl, hstatus⟩
  | ok document =>
    have hjson := Source.read_isJson hread
    have hresult := ofSource_of_read_ok hread
    by_cases hdeep : ∃ item ∈ document.items, Schema.extract item = .error .tooDeep
    · obtain ⟨hcollect, hdocument⟩ := ofDocument_of_deep hjson hdeep
      refine ⟨_, hresult.trans hdocument, nofun, ?_⟩
      rintro _ ⟨⟩
      refine ⟨rfl, rfl, rows_coordinatesValue _, fun _ => ⟨hcollect, rfl, rfl, rfl⟩, fun hall => ?_⟩
      obtain ⟨item, hitem, hextract⟩ := hdeep
      exact absurd hextract (hall item hitem)
    · have hall : ∀ item ∈ document.items, Schema.extract item ≠ .error .tooDeep := by
        simpa using hdeep
      obtain ⟨variants, hcollect, hlength, hempty, hdocument⟩ := ofDocument_of_shallow hjson hall
      refine ⟨_, hresult.trans hdocument, nofun, ?_⟩
      rintro _ ⟨⟩
      refine ⟨rfl, rfl, rows_coordinatesValue _, (absurd · hdeep),
        fun _ => ⟨hcollect, rfl, hlength, ?_⟩⟩
      rw [ne_eq, ← Value.items_eq_nil, ← hempty]
      simp [exportable]

/-- A stream that is rewound to a document of one item, which mentions a coordinate. -/
theorem ofSource_consistent_rewound :
    let source := Source.textStream "[\"geo:1,2\"]" 3 true
    source.isSupported = true ∧ ∃ a, (ofSource .empty source).result = .ok a ∧
      a.exportable = true ∧ a.coordinates.length = 1 ∧
      a.status = "Successfully loaded. Items: 1 | Schema variants: 1 | Coordinates: 1" := by
  intro source
  have hread : (source.read .empty).result = .ok (.list [.string "geo:1,2"]) := by cbv
  have hlength : (Coordinate.collect (.list [.string "geo:1,2"])).length = 1 := by
    rw [Coordinate.collect, List.length_map]
    cbv
  have hall : ∀ item ∈ [Value.string "geo:1,2"], Schema.extract item ≠ .error .tooDeep := by
    simp [Schema.extract, Value.nestsWithin_string, Schema.describe]
  have hsource : source.isSupported = true := rfl
  obtain ⟨a, hresult, _, hdocument⟩ := ofSource_consistent .empty hsource
  obtain ⟨hcoordinates, _, _, _, hshown⟩ := hdocument _ hread
  obtain ⟨_, hstatus, hvariants, hexport⟩ := hshown hall
  have hexportable := hexport.mpr (by simp)
  have hvariants' : a.variants.length = 1 := by
    have hne : a.variants ≠ [] := by simpa [exportable] using hexportable
    exact Nat.le_antisymm hvariants (List.length_pos_iff.mpr hne)
  refine ⟨hsource, a, hresult, hexportable, hcoordinates ▸ hlength, ?_⟩
  rw [hstatus, hvariants', hlength]
  cbv

end

end Analysis
end JsonSurvey
