import JsonSurvey.Proofs.Export.Outcome
import JsonSurvey.Proofs.FileTree.Frame

/-! What an export leaves alone. The directories that it makes are no files, so one file at most is
changed, and only once it could be started (`write_eq_or`). An export that fails has therefore left
all files as they were, unless a part of the results cannot be written, or the disk does not take
all that is: the text in front of that part, or a beginning of it, is then all that its file holds
(`write_failed`). -/

namespace JsonSurvey.Export

variable {tree made : FileTree} {results : Value} {name? : Option Text} {directory : Text}
  {fault : Fault}

/-- Once its directory is made, an export leaves behind what the writing of its file does. -/
theorem write_tree (hmake : tree.makeDirectories directory = (made, none)) :
    (write tree results name? directory).1 =
      (made.write (filePath name? directory) (Json.indented results)).1 := by
  rw [write, hmake]
  dsimp only
  split
  · next hwrite => rw [hwrite]
  · next hwrite => rw [hwrite]

/-- A fault that keeps an export from starting its file: one of the path of the file or of its
directory, or too many names of the directory. -/
def Prevents (name? : Option Text) (directory : Text) (fault : Fault) : Prop :=
  fault.IsOfPath directory ∨ fault.IsOfPath (filePath name? directory) ∨
    fault = .tooDeep ∧ FileTree.maxMissing ≤ (Path.names directory).length

/-- What an export gives to the disk: the bytes of the chunks of the results, as far as they can be
written, and the fault that ends them. -/
def written (results : Value) : List Byte × Option Fault :=
  FileTree.writeChunks [] (Json.indented results)

/-- An export changes no file and has a fault that keeps it from starting one, or it writes chunks
to the file of its path and ends as they do, if the disk takes them. -/
theorem write_eq_or (tree : FileTree) (results : Value) (name? : Option Text) (directory : Text) :
    (∃ fault, (write tree results name? directory).2.result = .error fault ∧
        Prevents name? directory fault ∧
        (write tree results name? directory).1.files = tree.files) ∨
      (∃ made, tree.makeDirectories directory = (made, none)) ∧
        ∃ target,
          (write tree results name? directory).1.NamesFile (filePath name? directory) target ∧
          FileTree.Overwrites tree (write tree results name? directory).1 target
            (tree.disk.write (written results).1).1 ∧
          (write tree results name? directory).2.result =
            match ((tree.disk.write (written results).1).2.map Fault.incomplete).or
                (written results).2 with
            | none => .ok (filePath name? directory)
            | some fault => .error fault := by
  have hadds := FileTree.makeDirectories_adds tree directory
  cases hmake : tree.makeDirectories directory with
  | mk made fault? =>
    rw [hmake] at hadds
    cases fault? with
    | some fault =>
      have hwrite : write tree results name? directory =
          (made, Report.ofExcept (.error fault)) := by
        rw [write, hmake]
      rw [hwrite]
      exact .inl ⟨fault, rfl, (FileTree.makeDirectories_fault hmake).imp_right .inr,
        hadds.files_eq⟩
    | none =>
      rw [write_tree hmake, write_result hmake]
      rcases made.write_eq_or (filePath name? directory) (Json.indented results) with
        ⟨fault, hstart, hwrite⟩ | ⟨target, hfile, hoverwrites, hfault⟩
      · rw [hwrite]
        exact .inl ⟨fault, rfl, .inr (.inl (FileTree.startFile_isOfPath hstart)), hadds.files_eq⟩
      · have hdisk : made.disk = tree.disk := hadds.disk
        rw [hfault, hdisk]
        rw [hdisk] at hoverwrites
        exact .inr ⟨⟨made, rfl⟩, target, hfile, hoverwrites.of_adds hadds, rfl⟩

/-! ### Exports that fail -/

/-- Results are cut off at a fault: the file of a path, and no other one, is replaced or made, and
it holds exactly the text of the chunks in front of the one at which writing stops. -/
def CutsOff (tree : FileTree) (results : Value) (path : Text) (fault : Fault) (tree' : FileTree) :
    Prop :=
  ∃ (texts : List Text) (chunk : Json.Chunk) (rest : List Json.Chunk)
    (target : List FileTree.Name) (number : Nat) (content : List Byte),
    Json.indented results = texts.map .ok ++ chunk :: rest ∧ FileTree.Stops chunk fault ∧
    Utf8.Encodes texts.flatten content ∧ tree'.find path = .ok (target, .file number) ∧
    FileTree.Overwrites tree tree' target content

/-- The disk comes to trouble with results: the file of a path, and no other one, is replaced or
made, and it holds what the disk took, a beginning of the text of the chunks. -/
def BreaksOff (tree : FileTree) (results : Value) (path : Text) (trouble : FileTrouble)
    (tree' : FileTree) : Prop :=
  ∃ (texts : List Text) (rest : List Json.Chunk) (target : List FileTree.Name) (number : Nat)
    (bytes content : List Byte),
    Json.indented results = texts.map .ok ++ rest ∧ Utf8.Encodes texts.flatten bytes ∧
    tree.disk.write bytes = (content, some trouble) ∧ content <+: bytes ∧
    tree'.find path = .ok (target, .file number) ∧ FileTree.Overwrites tree tree' target content

theorem isOfValue_of_stops {chunk : Json.Chunk} (h : FileTree.Stops chunk fault)
    (hmem : chunk ∈ Json.indented results) :
    fault.IsOfValue ∨ ∃ gap, fault = .notEncodable gap := by
  cases h with
  | fault => exact .inl (Json.indented_isOfValue hmem)
  | gap => exact .inr ⟨_, rfl⟩

theorem files_eq_or_cutsOff (h : (write tree results name? directory).2.result = .error fault) :
    Prevents name? directory fault ∧
        (write tree results name? directory).1.files = tree.files ∨
      (fault.IsOfValue ∨ ∃ gap, fault = .notEncodable gap) ∧
        CutsOff tree results (filePath name? directory) fault
          (write tree results name? directory).1 ∨
      ∃ trouble, fault = .incomplete trouble ∧
        BreaksOff tree results (filePath name? directory) trouble
          (write tree results name? directory).1 := by
  rcases write_eq_or tree results name? directory with ⟨fault', hresult, hprevents, hfiles⟩ |
    ⟨_, target, hfile, hoverwrites, hresult⟩
  · cases hresult.symm.trans h
    exact .inl ⟨hprevents, hfiles⟩
  obtain ⟨number, hfind⟩ := hfile.find_of_files (hoverwrites.changed target (.inl rfl))
  rw [h] at hresult
  obtain ⟨texts, rest, hindented, hends, hbytes⟩ :=
    FileTree.exists_ends_of_writeChunks (Json.indented results)
  rw [← written] at hends hbytes
  cases htrouble : (tree.disk.write (written results).1).2 with
  | some trouble =>
    rw [htrouble] at hresult
    cases hresult
    exact .inr (.inr ⟨trouble, rfl, texts, rest, target, number, _, _, hindented, hbytes,
      Prod.ext rfl htrouble, tree.disk.write_begins _, hfind, hoverwrites⟩)
  | none =>
    rw [htrouble] at hresult
    rw [tree.disk.write_complete _ htrouble] at hoverwrites
    cases hfault : (written results).2 with
    | none =>
      rw [hfault] at hresult
      cases hresult
    | some fault' =>
      rw [hfault] at hresult hends
      cases hresult
      cases hends with
      | @stop chunk _ rest hstop =>
      have hmem : chunk ∈ Json.indented results := by
        rw [hindented]
        exact List.mem_append_right _ List.mem_cons_self
      exact .inr (.inl ⟨isOfValue_of_stops hstop hmem, texts, chunk, rest, target, number, _,
        hindented, hstop, hbytes, hfind, hoverwrites⟩)

/-- What an export that fails has left behind. If its file was never started, and that is so with
all trouble that a path has, every file is as before and there is no new one. Otherwise a part of
the results cannot be written, and they are cut off there, or the disk comes to trouble on the way.
An export of variants and coordinates leaves the same files behind, and fails alike or tells the
trouble in its status. -/
theorem write_failed (h : (write tree results name? directory).2.result = .error fault) :
    let path := filePath name? directory
    let tree' := (write tree results name? directory).1
    (Prevents name? directory fault ∧ tree'.files = tree.files ∨
        (fault.IsOfValue ∨ ∃ gap, fault = .notEncodable gap) ∧
          CutsOff tree results path fault tree' ∨
        ∃ trouble, fault = .incomplete trouble ∧ BreaksOff tree results path trouble tree') ∧
      (∀ trouble at', fault = .file trouble at' → tree'.files = tree.files) ∧
      ∀ variants coordinates : Value, variants.isVoid = false →
        results = Export.results variants coordinates →
        let exported := run tree variants coordinates name? directory
        exported.1 = tree' ∧
          (exported.2.result = .error fault ∧ fault.isFileTrouble = false ∨
            fault.isFileTrouble = true ∧ exported.2.result =
              .ok ⟨none, Text.concat ["Error during export: ", fault.message]⟩) := by
  intro path tree'
  have hcases := files_eq_or_cutsOff h
  refine ⟨hcases, ?_, ?_⟩
  · rintro trouble at' rfl
    rcases hcases with ⟨_, hfiles⟩ | ⟨hvalue | ⟨gap, hgap⟩, _⟩ | ⟨_, hbreaks, _⟩
    · exact hfiles
    · cases hvalue.isFileTrouble
    · contradiction
    · contradiction
  · rintro variants coordinates hvoid rfl exported
    obtain ⟨htree, hresult⟩ : exported.1 = _ ∧ exported.2.result = _ :=
      run_eq hvoid tree name? directory
    refine ⟨htree, ?_⟩
    rw [h] at hresult
    dsimp only at hresult
    split at hresult
    · next htrouble => exact .inr ⟨htrouble, hresult⟩
    · next htrouble => exact .inl ⟨hresult, Bool.eq_false_iff.mpr htrouble⟩

/-- The tree with the file of an earlier export, an empty array. -/
def earlier : FileTree := FileTree.oneFile "a.json" (Utf8.nameBytes "[]")

/-- A string that cannot be encoded cuts the results off behind the string in front of it. -/
theorem write_failed_surrogate :
    let results : Value := .list [.string "a", .string [0xD800]]
    (write earlier results (some "a") "/").2.result = .error (.notEncodable ⟨0xD800, 5, 5⟩) ∧
      CutsOff earlier results "/a.json" (.notEncodable ⟨0xD800, 5, 5⟩)
        (write earlier results (some "a") "/").1 := by
  intro results
  have hresult : (write earlier results (some "a") "/").2.result =
      .error (.notEncodable ⟨0xD800, 5, 5⟩) := by
    rw [write_result makeDirectories_root]
    rfl
  refine ⟨hresult, ?_⟩
  obtain ⟨⟨hprevents, _⟩ | ⟨_, hcutsOff⟩ | ⟨_, hincomplete, _⟩, _⟩ := write_failed hresult
  · rcases hprevents with ⟨⟩ | ⟨⟩ | ⟨⟨⟩, _⟩ <;> contradiction
  · exact hcutsOff
  · contradiction

/-- The file of an earlier export is replaced by the beginning of an object if a key of the results
cannot be encoded, and where there was no file there is one with this beginning then. If the disk
has no room, it is replaced by what there is room for. -/
theorem write_replaces_earlier :
    let file := [Utf8.nameBytes "a.json"]
    let results : Value := .object [([0xD800], .null)]
    let tooLarge : FileTrouble := .other 27 "File too large"
    let full : FileTree := { earlier with disk := .limited 1 tooLarge }
    (write earlier results (some "a") "/").2.result = .error (.notEncodable ⟨0xD800, 1, 1⟩) ∧
      earlier.files file = some [0x5B, 0x5D] ∧
      (write earlier results (some "a") "/").1.files file = some [0x7B, 0x0A, 0x20, 0x20] ∧
      (write .empty results (some "a") "/").2.result = .error (.notEncodable ⟨0xD800, 1, 1⟩) ∧
      FileTree.empty.files file = none ∧
      (write .empty results (some "a") "/").1.files file = some [0x7B, 0x0A, 0x20, 0x20] ∧
      (write full (.list []) (some "a") "/").2.result = .error (.incomplete tooLarge) ∧
      full.files file = some [0x5B, 0x5D] ∧
      (write full (.list []) (some "a") "/").1.files file = some [0x5B] := by
  intro file results tooLarge full
  rw [write_result makeDirectories_root, write_tree makeDirectories_root,
    write_result makeDirectories_root, write_tree makeDirectories_root,
    write_result makeDirectories_root, write_tree makeDirectories_root]
  exact ⟨rfl, rfl, rfl, rfl, rfl, rfl, rfl, rfl, rfl⟩

end JsonSurvey.Export
