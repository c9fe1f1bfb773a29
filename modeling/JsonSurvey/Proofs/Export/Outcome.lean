import JsonSurvey.Proofs.Analysis
import JsonSurvey.Proofs.Export
import JsonSurvey.Proofs.Json.Chunk

/-! What comes of exporting an analysis. The results of an analysis are readable, so that they have
a text unless they nest too deeply. An export that gives no outcome is kept from it by a single code
point, a null character in the name or the directory or a surrogate there or in a string of the
results, or by a directory with too many names (`run_outcome`). Trouble with the file tree, be it
with a path or in the midst of writing, is an outcome and told in the status. -/

namespace JsonSurvey

/-! ### Results of an analysis -/

theorem Json.isReadable_pair {key key' : Text} {v w : Value} (hkeys : key ≠ key')
    (hv : IsReadable v) (hw : IsReadable w) : IsReadable (.object [(key, v), (key', w)]) :=
  .object (by simpa using hkeys) (by simpa using ⟨hv, hw⟩)

namespace Variant

theorem isReadable_of_mem_items {document : Value} (h : Json.IsReadable document) :
    ∀ item ∈ document.items, Json.IsReadable item := by
  intro item hitem
  cases h with
  | list hes => exact hes item hitem
  | _ => rw [List.mem_singleton.mp hitem]; constructor <;> assumption

/-- The variants of a readable document have schemas made of texts and items of the document. -/
theorem isTextual_schema_of_mem {document : Value} (h : Json.IsReadable document)
    {variants : List Variant} (hcollect : collect document = .ok variants) :
    ∀ v ∈ variants, Json.IsTextual v.schema ∧ v.item ∈ document.items := by
  have hjson : document.IsJson := h.isJson
  have hdepth : ∀ item ∈ document.items, item.nestsWithin Schema.maxDepth = true := by
    by_contra hdeep
    simp only [not_forall, Bool.not_eq_true, exists_prop] at hdeep
    cases hcollect.symm.trans (collect_tooDeep hjson hdeep)
  have hitems := isItem_of_mem hjson hdepth
  cases hcollect.symm.trans (show collect document = _ from collect_list hitems)
  intro v hv
  obtain ⟨item, hitem, rfl⟩ := List.mem_map.mp ((firstOccurrences_sublist _).mem hv)
  have hnormal := (hitems item hitem).isNormal
  exact ⟨Schema.isTextual_canonical hnormal.isTextual hnormal.hasTextUnions, hitem⟩

theorem isReadable_record {document : Value} (h : Json.IsReadable document)
    {variants : List Variant} (hcollect : collect document = .ok variants) :
    ∀ v ∈ variants, Json.IsReadable v.record := by
  intro v hv
  obtain ⟨hschema, hitem⟩ := isTextual_schema_of_mem h hcollect v hv
  exact Json.isReadable_pair (by decide) hschema.isReadable (isReadable_of_mem_items h v.item hitem)

end Variant

theorem Coordinate.isReadable_record (c : Coordinate) : Json.IsReadable c.record :=
  Json.isReadable_pair (by decide) (.float c.lat) (.float c.lng)

namespace Analysis

/-- An analysis shows nothing, or the coordinates of the document that was read, and its variants or
none. -/
theorem ofSource_cases {tree : FileTree} {source : Source} {a : Analysis}
    (h : (ofSource tree source).result = .ok a) :
    (a.variants = [] ∧ a.coordinates = []) ∨
      ∃ document, (source.read tree).result = .ok document ∧
        a.coordinates = Coordinate.collect document ∧
        (a.variants = [] ∨ Variant.collect document = .ok a.variants) := by
  have hsource : source.isSupported = true := by
    cases source with
    | unreadable => contradiction
    | _ => rfl
  cases hread : (source.read tree).result with
  | error fault =>
    obtain ⟨status, hfailed, _⟩ := ofSource_of_read_error hsource hread
    cases h.symm.trans hfailed
    exact .inl ⟨rfl, rfl⟩
  | ok document =>
    rw [ofSource_of_read_ok hread, ofDocument_result] at h
    split at h
    · next hcollect =>
      cases h
      exact .inr ⟨document, rfl, rfl, .inr hcollect⟩
    · cases h
      exact .inr ⟨document, rfl, rfl, .inl rfl⟩
    · contradiction

/-- What is shown of the variants of an analysed source can be written and read back. -/
theorem isReadable_variantsValue {tree : FileTree} {source : Source} {a : Analysis}
    (h : (ofSource tree source).result = .ok a) : Json.IsReadable a.variantsValue := by
  refine .list fun record hrecord => ?_
  obtain ⟨v, hv, rfl⟩ := List.mem_map.mp hrecord
  rcases ofSource_cases h with ⟨hnil, _⟩ | ⟨document, hread, _, hnil | hcollect⟩
  · rw [hnil] at hv
    contradiction
  · rw [hnil] at hv
    contradiction
  · exact Variant.isReadable_record (Source.read_isReadable hread) hcollect v hv

theorem isReadable_coordinatesValue (a : Analysis) : Json.IsReadable a.coordinatesValue := by
  refine .list fun record hrecord => ?_
  obtain ⟨c, _, rfl⟩ := List.mem_map.mp hrecord
  exact c.isReadable_record

end Analysis

namespace Export

theorem isReadable_results {variants coordinates : Value} (hvariants : Json.IsReadable variants)
    (hcoordinates : Json.IsReadable coordinates) :
    Json.IsReadable (results variants coordinates) := by
  refine Json.isReadable_pair (by decide) hvariants ?_
  split
  · exact .list (List.forall_mem_nil _)
  · exact hcoordinates

/-! ### Paths -/

section
variable {c : CodePoint} {name? : Option Text} {directory : Text}

theorem mem_of_mem_strip {t : Text} (h : c ∈ t.strip) : c ∈ t := by
  have hinner := (List.dropWhile_suffix _).subset (List.mem_reverse.mp h)
  exact (List.dropWhile_suffix _).subset (List.mem_reverse.mp hinner)

theorem isPlain_or_of_mem_fileName (h : c ∈ fileName name?) :
    Json.IsPlain c ∨ c ∈ name?.getD [] := by
  have hdefault : Json.AllPlain defaultName := by decide
  have hextension : Json.AllPlain extension := by decide
  have hwhole {base : Text} (hbase : ∀ c ∈ base, Json.IsPlain c ∨ c ∈ name?.getD [])
      (h : c ∈ if hasExtension base then base else base ++ extension) :
      Json.IsPlain c ∨ c ∈ name?.getD [] := by
    split at h
    · exact hbase c h
    · exact (List.mem_append.mp h).elim (hbase c) fun h => .inl (hextension c h)
  cases name? with
  | none => exact hwhole (fun c hc => .inl (hdefault c hc)) h
  | some name =>
    have hbase : ∀ c ∈ (if name.isBlank then defaultName else name.strip),
        Json.IsPlain c ∨ c ∈ name := by
      split
      · exact fun c hc => .inl (hdefault c hc)
      · exact fun c hc => .inr (mem_of_mem_strip hc)
    exact hwhole hbase h

/-- The path of an export is made of the directory, the name and plain code points. -/
theorem isPlain_or_of_mem_filePath (h : c ∈ filePath name? directory) :
    Json.IsPlain c ∨ c ∈ directory ∨ c ∈ name?.getD [] := by
  have hname (h : c ∈ fileName name?) : Json.IsPlain c ∨ c ∈ directory ∨ c ∈ name?.getD [] :=
    (isPlain_or_of_mem_fileName h).imp_right .inr
  unfold filePath Path.join at h
  split at h
  · exact hname h
  split at h
  · exact (List.mem_append.mp h).elim (fun h => .inr (.inl h)) hname
  · rcases List.mem_append.mp h with h | h
    · exact .inr (.inl h)
    rcases List.mem_cons.mp h with rfl | h
    · exact .inl (by decide)
    · exact hname h

end

/-! ### Faults -/

/-- A fault of an export: trouble of the file tree, a directory with too many names to be made, or a
code point that no path can hold or, for a surrogate, no file. -/
inductive IsFault (name? : Option Text) (directory : Text) (spelled : CodePoint → Prop) :
    Fault → Prop
  | file {fault : Fault} : fault.isFileTrouble = true → IsFault name? directory spelled fault
  | deep : FileTree.maxMissing ≤ (Path.names directory).length →
    IsFault name? directory spelled .tooDeep
  | null : 0 ∈ directory ∨ 0 ∈ name?.getD [] → IsFault name? directory spelled .nullCharacter
  | gap {gap : Utf8.Gap} : gap.surrogate.isSurrogate = true →
    (gap.surrogate ∈ directory ∨ gap.surrogate ∈ name?.getD []) ∨ spelled gap.surrogate →
    IsFault name? directory spelled (.notEncodable gap)

section
variable {spelled : CodePoint → Prop} {fault : Fault} {results : Value} {name? : Option Text}
  {directory : Text}

theorem not_isPlain_of_isSurrogate {c : CodePoint} (h : c.isSurrogate = true) :
    ¬ Json.IsPlain c := by
  simp only [CodePoint.isSurrogate, Bool.and_eq_true, decide_eq_true_eq] at h
  rintro (rfl | hplain)
  · exact absurd h.1 (by decide)
  · omega

theorem isFault_of_isOfPath {path : Text} (h : fault.IsOfPath path)
    (hpath : ∀ c ∈ path, Json.IsPlain c ∨ c ∈ directory ∨ c ∈ name?.getD []) :
    IsFault name? directory spelled fault := by
  cases h with
  | file trouble at' => exact .file rfl
  | null hmem => exact .null ((hpath 0 hmem).resolve_left (by decide))
  | gap hmem hnone =>
    have hsurrogate := Utf8.isSurrogate_of_encodeCodePoint?
      (Utf8.encodeCodePoint?_of_encodeNamePoint? hnone)
    exact .gap hsurrogate (.inl
      ((hpath _ hmem).resolve_left (not_isPlain_of_isSurrogate hsurrogate)))

/-- Writing results whose chunks are all texts tells the path of the file or has a fault. -/
theorem write_result_cases (hchunks : ∀ chunk ∈ Json.indented results, Json.IsSpelled spelled chunk)
    (tree : FileTree) :
    (write tree results name? directory).2.result = .ok (filePath name? directory) ∨
      ∃ fault, (write tree results name? directory).2.result = .error fault ∧
        IsFault name? directory spelled fault := by
  unfold write
  split
  · next made fault hmake =>
    refine .inr ⟨fault, rfl, ?_⟩
    rcases FileTree.makeDirectories_fault hmake with hpath | ⟨rfl, hnames⟩
    · exact isFault_of_isOfPath hpath fun c hc => .inr (.inl hc)
    · exact .deep hnames
  split
  · next made _ written fault hwritten =>
    refine .inr ⟨fault, rfl, ?_⟩
    rcases FileTree.write_eq_some hwritten with hpath | ⟨trouble, rfl⟩ | herror |
      ⟨gap, t, rfl, ht, hmem, hsurrogate⟩
    · exact isFault_of_isOfPath hpath fun c => isPlain_or_of_mem_filePath
    · exact .file rfl
    · obtain ⟨_, hok, _⟩ := hchunks _ herror
      contradiction
    · obtain ⟨_, hok, hspelled⟩ := hchunks _ ht
      cases hok
      exact .gap hsurrogate (.inr
        ((hspelled _ hmem).resolve_left (not_isPlain_of_isSurrogate hsurrogate)))
  · exact .inl rfl

end

/-! ### Outcomes -/

section
variable {tree tree' : FileTree} {source : Source} {a : Analysis} {name? : Option Text}
  {directory : Text}

/-- An export of variants goes by what the writing of the results comes to. -/
theorem run_eq {variants coordinates : Value} (h : variants.isVoid = false) (tree : FileTree)
    (name? : Option Text) (directory : Text) :
    (run tree variants coordinates name? directory).1 =
        (write tree (results variants coordinates) name? directory).1 ∧
      (run tree variants coordinates name? directory).2.result =
        match (write tree (results variants coordinates) name? directory).2.result with
        | .ok path => .ok ⟨some path, Text.concat ["Export successful! Saved to ", path]⟩
        | .error fault =>
          if fault.isFileTrouble then
            .ok ⟨none, Text.concat ["Error during export: ", fault.message]⟩
          else .error fault := by
  rw [run, h]
  cases hwrite : write tree (results variants coordinates) name? directory with
  | mk written report =>
    refine ⟨rfl, ?_⟩
    simp only [Bool.false_eq_true, if_false]
    cases report.result with
    | ok path => rfl
    | error fault =>
      dsimp only
      split <;> rfl

/-- What an export of an analysis comes to, whatever the name and the directory and however the file
tree and its disk stand. Either the file holds exactly the results and its path is told; or there
was nothing to export, or trouble with the file tree, and the status tells so; or it has no outcome,
because the directory has too many names to be made, or because of a null character in the name or
the directory, or of a surrogate there or in a string or a key of the results. -/
theorem run_outcome (ha : (Analysis.ofSource tree source).result = .ok a)
    (hdepth : (results a.variantsValue a.coordinatesValue).nestsWithin Json.maxWrittenDepth = true)
    (tree' : FileTree) (name? : Option Text) (directory : Text) :
    let written := results a.variantsValue a.coordinatesValue
    let path := filePath name? directory
    let exported := run tree' a.variantsValue a.coordinatesValue name? directory
    (exported.2.result = .ok ⟨some path, Text.concat ["Export successful! Saved to ", path]⟩ ∧
        ∃ (texts : List Text) (content : List Byte), texts.map .ok = Json.indented written ∧
          Utf8.Encodes texts.flatten content ∧ exported.1.read path = .ok content ∧
          ((Source.pathText path).read exported.1).result = .ok written) ∨
      (exported.2.result = .ok ⟨none, "No data loaded."⟩ ∧ a.variants = []) ∨
      (∃ fault : Fault, fault.isFileTrouble = true ∧ exported.2.result =
        .ok ⟨none, Text.concat ["Error during export: ", fault.message]⟩) ∨
      (exported.2.result = .error .tooDeep ∧
        FileTree.maxMissing ≤ (Path.names directory).length) ∨
      (exported.2.result = .error .nullCharacter ∧ (0 ∈ directory ∨ 0 ∈ name?.getD [])) ∨
      ∃ gap, exported.2.result = .error (.notEncodable gap) ∧
        gap.surrogate.isSurrogate = true ∧ ((gap.surrogate ∈ directory ∨
          gap.surrogate ∈ name?.getD []) ∨ written.Spells gap.surrogate) := by
  intro written path exported
  have hreadable : Json.IsReadable written := isReadable_results
    (Analysis.isReadable_variantsValue ha) (Analysis.isReadable_coordinatesValue a)
  have hchunks := Json.indented_isSpelled hreadable hdepth
  cases hvariants : a.variants with
  | nil =>
    refine .inr (.inl ⟨?_, rfl⟩)
    simp only [exported, run, Analysis.variantsValue, hvariants]
    rfl
  | cons v vs =>
    have hvoid : a.variantsValue.isVoid = false := by
      rw [Analysis.variantsValue, hvariants]
      rfl
    obtain ⟨htree, hresult⟩ : exported.1 = (write tree' written name? directory).1 ∧ _ :=
      run_eq hvoid tree' name? directory
    rcases write_result_cases hchunks tree' with hpath | ⟨fault, herror, hfault⟩
    · rw [hpath] at hresult
      obtain ⟨texts, content, htexts, hcontent, hread, hresults⟩ :=
        exists_content_of_write (Json.isReadable_iff.mp hreadable).1 (Prod.eta _).symm hpath
      rw [← htree] at hread hresults
      exact .inl ⟨hresult, texts, content, htexts, hcontent, hread, hresults⟩
    · rw [herror] at hresult
      cases hfault with
      | file htrouble =>
        exact .inr (.inr (.inl ⟨fault, htrouble, hresult.trans (if_pos htrouble)⟩))
      | deep hnames => exact .inr (.inr (.inr (.inl ⟨hresult, hnames⟩)))
      | null hnamed => exact .inr (.inr (.inr (.inr (.inl ⟨hresult, hnamed⟩))))
      | gap hsurrogate hspelled =>
        exact .inr (.inr (.inr (.inr (.inr ⟨_, hresult, hsurrogate, hspelled⟩))))

/-- The analysis of a list with one string, which mentions no coordinate. -/
def stringAnalysis (t : Text) : Analysis :=
  ⟨[⟨.object [("type", .string "string")], .string t⟩], [], Analysis.statusOfCounts 1 1 0⟩

theorem startFile_root : FileTree.empty.startFile (filePath (some "a") "/") =
    .ok (FileTree.empty.clear [Utf8.nameBytes "a.json"]) := rfl

/-- The one variant of a document with a string in it is written and read back. -/
theorem run_outcome_string :
    let a := stringAnalysis "a"
    let source := Source.textStream "[\"a\"]" 0 true
    (Analysis.ofSource .empty source).result = .ok a ∧
      (results a.variantsValue a.coordinatesValue).nestsWithin Json.maxWrittenDepth = true ∧
      (run .empty a.variantsValue a.coordinatesValue (some "a") "/").2.result =
        .ok ⟨some "/a.json", "Export successful! Saved to /a.json"⟩ ∧
      ((Source.pathText "/a.json").read
        (run .empty a.variantsValue a.coordinatesValue (some "a") "/").1).result =
          .ok (results a.variantsValue a.coordinatesValue) := by
  intro a source
  have ha : (Analysis.ofSource .empty source).result = .ok (stringAnalysis "a") := by cbv
  have hdepth :
      (results a.variantsValue a.coordinatesValue).nestsWithin Json.maxWrittenDepth = true := rfl
  have hchunks : (FileTree.writeChunks []
      (Json.indented (results a.variantsValue a.coordinatesValue))).2 = none := rfl
  have hwrite :
      (write .empty (results a.variantsValue a.coordinatesValue) (some "a") "/").2.result =
        .ok "/a.json" := by
    rw [write_result makeDirectories_root, FileTree.write_snd startFile_root rfl, hchunks]
    rfl
  have hresult : (run .empty a.variantsValue a.coordinatesValue (some "a") "/").2.result =
      .ok ⟨some "/a.json", "Export successful! Saved to /a.json"⟩ := by
    rw [(run_eq rfl _ _ _).2, hwrite]
    rfl
  refine ⟨ha, hdepth, hresult, ?_⟩
  rcases run_outcome ha hdepth .empty (some "a") "/" with ⟨_, _, _, _, _, _, hread⟩ | ⟨hnone, _⟩ |
    ⟨_, _, hnone⟩ | ⟨herror, _⟩ | ⟨herror, _⟩ | ⟨_, herror, _⟩
  · exact hread
  · cases hresult.symm.trans hnone
  · cases hresult.symm.trans hnone
  · cases hresult.symm.trans herror
  · cases hresult.symm.trans herror
  · cases hresult.symm.trans herror

/-- An export has no outcome if a string of the document is a surrogate, none if the name has a null
character, and none if too many directories are missing. -/
theorem run_surrogate :
    let a := stringAnalysis [0xD800]
    let source := Source.textStream "[\"\\ud800\"]" 0 true
    (Analysis.ofSource .empty source).result = .ok a ∧
      (results a.variantsValue a.coordinatesValue).nestsWithin Json.maxWrittenDepth = true ∧
      (run .empty a.variantsValue a.coordinatesValue (some "a") "/").2.result =
        .error (.notEncodable ⟨0xD800, 1, 1⟩) ∧
      (run .empty a.variantsValue a.coordinatesValue (some [0]) "/").2.result =
        .error .nullCharacter ∧
      (run .empty a.variantsValue a.coordinatesValue (some "a")
        (FileTree.missingPath 1200)).2.result = .error .tooDeep := by
  intro a source
  have ha : (Analysis.ofSource .empty source).result = .ok (stringAnalysis [0xD800]) := by cbv
  have hchunks : (FileTree.writeChunks []
      (Json.indented (results a.variantsValue a.coordinatesValue))).2 =
        some (.notEncodable ⟨0xD800, 1, 1⟩) := rfl
  have hnull : (FileTree.empty.write (filePath (some [0]) "/")
      (Json.indented (results a.variantsValue a.coordinatesValue))).2 = some .nullCharacter := rfl
  have hdeep := FileTree.makeDirectories_missingPath (show FileTree.maxMissing ≤ 1200 by decide)
  refine ⟨ha, rfl, ?_, ?_, ?_⟩
  · rw [(run_eq rfl _ _ _).2, write_result makeDirectories_root,
      FileTree.write_snd startFile_root rfl, hchunks]
    rfl
  · rw [(run_eq rfl _ _ _).2, write_result makeDirectories_root, hnull]
    rfl
  · rw [(run_eq rfl _ _ _).2, write, hdeep]
    rfl

end

end Export
end JsonSurvey
