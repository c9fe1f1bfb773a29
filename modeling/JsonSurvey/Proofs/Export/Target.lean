import JsonSurvey.Proofs.Export.Frame
import JsonSurvey.Proofs.FileTree.Path
import JsonSurvey.Proofs.Text.Blank

/-! Where an export goes. The name of its file is stripped and has the extension, and asking for
that name gives it again (`fileName_fileName`). A name without a slash is the name of a file in the
export directory, which is the only file that changes (`write_target`), unless there is a link under
that name: the link is followed. A slash in the name leads elsewhere: into a directory below, above
or anywhere else. -/

namespace JsonSurvey.Export

/-! ### Names -/

/-- A name without white space at its ends, of which something is left. -/
structure IsStripped (name : Text) : Prop where
  ne_nil : name ≠ []
  head : ∀ c ∈ name.head?, c.isBlank = false
  last : ∀ c ∈ name.getLast?, c.isBlank = false

namespace IsStripped
variable {name : Text} (h : IsStripped name)
include h

theorem strip_eq : name.strip = name := Text.strip_eq_self h.ne_nil h.head h.last

theorem isBlank_eq : name.isBlank = false := by
  obtain ⟨c, rest, rfl⟩ := List.exists_cons_of_ne_nil h.ne_nil
  rw [Text.isBlank, List.all_cons, h.head c rfl, Bool.false_and]

theorem append_extension : IsStripped (name ++ extension) where
  ne_nil := List.append_ne_nil_of_left_ne_nil h.ne_nil _
  head := by
    rw [List.head?_append_of_ne_nil _ h.ne_nil]
    exact h.head
  last := by
    rw [List.getLast?_append_of_ne_nil _ (by decide)]
    rintro c ⟨⟩
    rfl

end IsStripped

theorem isStripped_strip {name : Text} (h : name.isBlank = false) : IsStripped name.strip where
  ne_nil := Text.strip_ne_nil h
  head := Text.head?_strip name
  last := Text.getLast?_strip name

theorem hasExtension_append (name : Text) : hasExtension (name ++ extension) = true := by
  have hlower : extension.map CodePoint.asciiLower = extension := rfl
  rw [hasExtension, List.map_append, hlower, List.reverse_append,
    ← List.length_reverse, List.take_left, beq_self_eq_true]

theorem isStripped_defaultName : IsStripped defaultName where
  ne_nil := by decide
  head := by
    rintro c ⟨⟩
    rfl
  last := by
    rintro c ⟨⟩
    rfl

theorem fileName_some {name : Text} (h : name.isBlank = false) :
    fileName (some name) =
      if hasExtension name.strip then name.strip else name.strip ++ extension := by
  simp only [fileName, h, Bool.false_eq_true, if_false]

section
variable (name? : Option Text)

/-- The name of the file is the name that was asked for, stripped, or the default name, with the
extension behind it if it is missing. -/
theorem exists_fileName : ∃ name, IsStripped name ∧
    (name = defaultName ∨ ∃ asked, name? = some asked ∧ name = asked.strip) ∧
    fileName name? = if hasExtension name then name else name ++ extension := by
  cases name? with
  | none => exact ⟨defaultName, isStripped_defaultName, .inl rfl, rfl⟩
  | some asked =>
    cases hblank : asked.isBlank with
    | true =>
      refine ⟨defaultName, isStripped_defaultName, .inl rfl, ?_⟩
      simp only [fileName, hblank, if_true]
    | false =>
      exact ⟨asked.strip, isStripped_strip hblank, .inr ⟨asked, rfl, rfl⟩, fileName_some hblank⟩

theorem isStripped_fileName : IsStripped (fileName name?) := by
  obtain ⟨name, hname, _, hfile⟩ := exists_fileName name?
  rw [hfile]
  split
  · exact hname
  · exact hname.append_extension

theorem hasExtension_fileName : hasExtension (fileName name?) = true := by
  obtain ⟨name, _, _, hfile⟩ := exists_fileName name?
  rw [hfile]
  split
  · next hextension => exact hextension
  · exact hasExtension_append name

/-- Asking for the name of a file gives that name. -/
theorem fileName_fileName : fileName (some (fileName name?)) = fileName name? := by
  have hname := isStripped_fileName name?
  rw [fileName_some hname.isBlank_eq, hname.strip_eq, hasExtension_fileName, if_pos rfl]

theorem slash_notMem_fileName (h : Path.slash ∉ name?.getD []) :
    Path.slash ∉ fileName name? := by
  obtain ⟨name, _, hasked, hfile⟩ := exists_fileName name?
  have hname : Path.slash ∉ name := by
    rcases hasked with rfl | ⟨asked, rfl, rfl⟩
    · decide
    · exact fun hmem => h (mem_of_mem_strip hmem)
  have hextension : Path.slash ∉ extension := by decide
  rw [hfile]
  split
  · exact hname
  · exact fun hmem => (List.mem_append.mp hmem).elim hname hextension

end

/-! ### Targets -/

variable {tree : FileTree} {results : Value} {name? : Option Text} {directory path : Text}

theorem makeDirectories_nil (tree : FileTree) :
    (tree.makeDirectories []).2 = some (.file .notFound []) := by
  rw [FileTree.makeDirectories_eq_ensureDirectory (.inl rfl)]
  rfl

/-- One file is made or replaced by an export that tells a path, and the path leads to it; it has
that content under all its names, and no other file changes. If the name that was asked for has no
slash, that file stands in the export directory itself, under a name that is not blank, has no white
space at its ends and has the extension, unless there was a link under that name; and asking for
that name exports in the same way, whatever there is to export. -/
theorem write_target (h : (write tree results name? directory).2.result = .ok path) :
    let tree' := (write tree results name? directory).1
    path = Path.join directory (fileName name?) ∧
      ∃ target number content, tree'.find path = .ok (target, .file number) ∧
        FileTree.Overwrites tree tree' target content ∧
        (Path.slash ∉ name?.getD [] →
          let base := Path.lastPart path
          (∃ place, tree'.find directory = .ok (place, .directory) ∧
            (target = place ++ [Utf8.nameBytes base] ∨
              ∃ t, tree.entry? (place ++ [Utf8.nameBytes base]) = some (.link t))) ∧
          base.isBlank = false ∧ base.strip = base ∧ hasExtension base = true ∧
          ∀ (tree : FileTree) (results : Value),
            write tree results (some base) directory = write tree results name? directory) := by
  intro tree'
  rcases write_eq_or tree results name? directory with ⟨fault, hresult, _⟩ |
    ⟨⟨made, hmake⟩, target, hfile, hoverwrites, hresult⟩
  · cases hresult.symm.trans h
  obtain ⟨number, hfind⟩ := hfile.find_of_files (hoverwrites.changed target (.inl rfl))
  rw [h] at hresult
  split at hresult
  · cases hresult
    refine ⟨rfl, target, number, _, hfind, hoverwrites, fun hslash => ?_⟩
    have hname := slash_notMem_fileName name? hslash
    have hstripped := isStripped_fileName name?
    have hdirectory : directory ≠ [] := by
      rintro rfl
      cases (congrArg Prod.snd hmake).symm.trans (makeDirectories_nil tree)
    have hbase : Path.lastPart (filePath name? directory) = fileName name? :=
      Path.lastPart_join hdirectory hname
    obtain ⟨place, hplace, htarget⟩ := hfile.find_directory hdirectory hstripped.ne_nil hname
    dsimp only
    rw [hbase]
    refine ⟨⟨place, hplace, htarget.imp_right ?_⟩, hstripped.isBlank_eq, hstripped.strip_eq,
      hasExtension_fileName name?, fun tree results => ?_⟩
    · rintro ⟨t, ht⟩
      exact ⟨t, (hoverwrites.links _ t).mp ht⟩
    · rw [write, write, filePath, fileName_fileName, ← filePath]
  · cases hresult

/-- A name is stripped and keeps its extension. -/
theorem write_target_stripped :
    let written := write .empty (.object []) (some " Report.JSON ") "/"
    written.2.result = .ok "/Report.JSON" ∧
      ∃ place content, written.1.find "/" = .ok (place, .directory) ∧
        written.1.files = Function.update FileTree.empty.files
          (place ++ [Utf8.nameBytes "Report.JSON"]) (some content) := by
  intro written
  have hresult : written.2.result = .ok "/Report.JSON" := by
    rw [write_result makeDirectories_root]
    rfl
  have hsole (target names : List FileTree.Name) (h : FileTree.empty.SameFile target names) :
      names = target := by
    obtain ⟨number, hfile, _⟩ := h
    have hne := FileTree.MayHold.ne_nil (.inr ⟨number, hfile⟩)
    cases (FileTree.entry?_empty hne).symm.trans hfile
  obtain ⟨_, target, _, content, _, hoverwrites, hdirect⟩ := write_target hresult
  obtain ⟨⟨place, hplace, rfl | ⟨t, hlink⟩⟩, _⟩ := hdirect (by decide)
  · exact ⟨hresult, place, content, hplace, hoverwrites.files_eq_update (hsole _)⟩
  · cases (FileTree.entry?_empty (by simp)).symm.trans hlink

/-- The tree with one directory. -/
def oneDirectory : FileTree := FileTree.empty.put [Utf8.nameBytes "d"] .directory

/-- The tree with one directory and a link in it that leads out. -/
def withLink : FileTree :=
  oneDirectory.put [Utf8.nameBytes "d", Utf8.nameBytes "schema_variants.json"] (.link "../y")

theorem makeDirectories_oneDirectory :
    oneDirectory.makeDirectories "/d" = (oneDirectory, none) := by
  rw [FileTree.makeDirectories_eq_ensureDirectory (.inr (.inr rfl))]
  rfl

theorem makeDirectories_withLink : withLink.makeDirectories "/d" = (withLink, none) := by
  rw [FileTree.makeDirectories_eq_ensureDirectory (.inr (.inr rfl))]
  rfl

/-- A name with a slash leads out of the directory, and the last part of its path is the name of
another file. A link leads out of it even from the name that an export has by default. -/
theorem write_escapes :
    let written := write oneDirectory (.object []) (some "../x") "/d"
    let linked := write withLink (.object []) none "/d"
    written.2.result = .ok "/d/../x.json" ∧
      written.1.find "/d" = .ok ([Utf8.nameBytes "d"], .directory) ∧
      oneDirectory.files [Utf8.nameBytes "x.json"] = none ∧
      written.1.files [Utf8.nameBytes "x.json"] = some [0x7B, 0x7D] ∧
      Path.lastPart "/d/../x.json" = "x.json" ∧
      (write oneDirectory (.object []) (some "x.json") "/d").2.result = .ok "/d/x.json" ∧
      linked.2.result = .ok "/d/schema_variants.json" ∧
      withLink.files [Utf8.nameBytes "y"] = none ∧
      linked.1.files [Utf8.nameBytes "y"] = some [0x7B, 0x7D] := by
  intro written linked
  dsimp only [written, linked]
  rw [write_result makeDirectories_oneDirectory, write_tree makeDirectories_oneDirectory,
    write_result makeDirectories_oneDirectory, write_result makeDirectories_withLink,
    write_tree makeDirectories_withLink]
  exact ⟨rfl, rfl, rfl, rfl, rfl, rfl, rfl, rfl, rfl⟩

end JsonSurvey.Export
