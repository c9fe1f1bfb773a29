import JsonSurvey.Export
import JsonSurvey.Proofs.Json.Indented
import JsonSurvey.Proofs.Source

/-! Exports read back. The path that an export tells is one under which the file tree now has the
results: its bytes are the encoding of the indented text, in which no line ends with a carriage
return, so that the text is read as it was written and decoded to the results
(`read_eq_of_write`). -/

namespace JsonSurvey.Export

variable {tree tree' : FileTree} {results : Value} {name? : Option Text} {directory path : Text}

/-- An export that tells a path has written all chunks of the results under it. -/
theorem write_eq_ok {report : Report Text}
    (h : write tree results name? directory = (tree', report)) (hpath : report.result = .ok path) :
    ∃ made : FileTree, made.write path (Json.indented results) = (tree', none) := by
  unfold write at h
  split at h
  · cases h
    cases hpath
  next made _ =>
  split at h
  · cases h
    cases hpath
  next written hwritten =>
  cases h
  cases hpath
  exact ⟨made, hwritten⟩

/-- Once its directory is made, an export goes by the writing of its file. -/
theorem write_result {made : FileTree} (hmake : tree.makeDirectories directory = (made, none)) :
    (write tree results name? directory).2.result =
      match (made.write (filePath name? directory) (Json.indented results)).2 with
      | none => .ok (filePath name? directory)
      | some fault => .error fault := by
  rw [write, hmake]
  cases hwrite : made.write (filePath name? directory) (Json.indented results) with
  | mk written fault? =>
    cases fault? with
    | none => simp only [hwrite]; rfl
    | some fault => simp only [hwrite]; rfl

/-- Under the path that an export tells, the file tree now has the bytes of the indented text, and
they are read as the results. -/
theorem exists_content_of_write {report : Report Text} (hresults : results.IsDecoded)
    (h : write tree results name? directory = (tree', report)) (hpath : report.result = .ok path) :
    ∃ (texts : List Text) (content : List Byte), texts.map .ok = Json.indented results ∧
      Utf8.Encodes texts.flatten content ∧ tree'.read path = .ok content ∧
      (Source.readFile tree' path).result = .ok results := by
  obtain ⟨made, hwrite⟩ := write_eq_ok h hpath
  obtain ⟨texts, content, htexts, hcontent, hread⟩ := FileTree.read_of_write hwrite
  have hlimit : Json.maxWrittenDepth ≤ Json.maxFileDepth := by decide
  obtain ⟨hreturn, hdecode⟩ := Json.decode_indented hlimit hresults htexts
  refine ⟨texts, content, htexts, hcontent, hread, ?_⟩
  rw [← Text.unifyLines_of_notMem hreturn] at hdecode
  rw [Source.readFile_of_read hread, hcontent.decode_eq_ok]
  exact hdecode

/-- What was exported is read back from the path that the export tells: the same value, with the
members of every object in the same order, every string code point for code point, and every number
as it was. -/
theorem read_eq_of_write {report : Report Text} (hresults : results.IsDecoded)
    (h : write tree results name? directory = (tree', report)) (hpath : report.result = .ok path) :
    ((Source.pathText path).read tree').result = .ok results := by
  obtain ⟨_, _, _, _, _, hread⟩ := exists_content_of_write hresults h hpath
  exact hread

theorem makeDirectories_root : tree.makeDirectories "/" = (tree, none) := by
  rw [FileTree.makeDirectories_eq_ensureDirectory (.inr (.inl rfl))]
  rfl

/-- A key made of a carriage return and a line feed is read back, as are a quote and a backslash, a
negative zero and what is not a number. -/
theorem read_eq_of_write_lineEnd :
    let results := Value.object
      [("\r\n", .list [.string "\"\\", .int (-7), .float (.finite true 0), .float .nan])]
    let written := write .empty results none "/"
    results.IsDecoded ∧ written.2.result = .ok "/schema_variants.json" ∧
      ((Source.pathText "/schema_variants.json").read written.1).result = .ok results := by
  intro results written
  have hresults : results.IsDecoded := by
    refine .object (by decide) ?_
    simpa [Value.isDecoded_list] using ⟨.string _, .int _, .float _, .float _⟩
  have hstart : FileTree.empty.startFile (filePath none "/") =
      .ok (FileTree.empty.clear [Utf8.nameBytes "schema_variants.json"]) := rfl
  have hchunks : (FileTree.writeChunks [] (Json.indented results)).2 = none :=
    Option.isNone_iff_eq_none.mp (by decide +kernel)
  have hpath : written.2.result = .ok "/schema_variants.json" := by
    rw [write_result makeDirectories_root, FileTree.write_snd hstart rfl, hchunks]
    rfl
  exact ⟨hresults, hpath, read_eq_of_write hresults (Prod.eta written).symm hpath⟩

end JsonSurvey.Export
