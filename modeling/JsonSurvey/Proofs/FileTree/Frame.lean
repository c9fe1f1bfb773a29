import JsonSurvey.Proofs.FileTree.Fault
import Mathlib.Logic.Function.Basic

/-! What operations on a tree leave alone. The files of a tree are a map from names to contents
(`files`). Directories that are made leave this map as it is (`makeDirectories_adds`). A file that
is written is its only change, under whichever names the file has, and whether or not all of it is
written (`write_eq_or`). -/

namespace JsonSurvey.FileTree

variable {tree tree' tree'' made : FileTree} {names target : List Name} {path : Text}
  {content : List Byte}

/-- The contents of the files, by the names that lead to them. -/
def files (tree : FileTree) (names : List Name) : Option (List Byte) :=
  match tree.entry? names with
  | some (.file number) => some (tree.contents number)
  | _ => none

theorem files_eq_some : tree.files names = some content ↔
    ∃ number, tree.entry? names = some (.file number) ∧ tree.contents number = content := by
  unfold files
  split
  · next number hentry => simp [hentry]
  · next hfile => exact ⟨nofun, fun ⟨number, hentry, _⟩ => absurd hentry (hfile number)⟩

theorem files_congr (hentry : tree'.entry? names = tree.entry? names)
    (hcontents : ∀ number, tree.entry? names = some (.file number) →
      tree'.contents number = tree.contents number) : tree'.files names = tree.files names := by
  unfold files
  rw [hentry]
  split
  · next number hfile => rw [hcontents number hfile]
  · rfl

/-- The file under the one name is the file under the other one, too. -/
def SameFile (tree : FileTree) (names names' : List Name) : Prop :=
  ∃ number, tree.entry? names = some (.file number) ∧ tree.entry? names' = some (.file number)

/-! ### Directories -/

/-- Nothing but directories is added to a tree. -/
structure AddsDirectories (tree tree' : FileTree) : Prop where
  entry : ∀ names, tree'.entry? names = tree.entry? names ∨
    tree.entry? names = none ∧ tree'.entry? names = some .directory
  contents : tree'.contents = tree.contents
  disk : tree'.disk = tree.disk

namespace AddsDirectories

theorem refl (tree : FileTree) : AddsDirectories tree tree where
  entry _ := .inl rfl
  contents := rfl
  disk := rfl

theorem trans (h : AddsDirectories tree tree') (h' : AddsDirectories tree' tree'') :
    AddsDirectories tree tree'' where
  entry names := by
    rcases h'.entry names with hsame' | ⟨hnone', hdirectory'⟩
    · rw [hsame']
      exact h.entry names
    · rcases h.entry names with hsame | ⟨hnone, hdirectory⟩
      · exact .inr ⟨hsame ▸ hnone', hdirectory'⟩
      · exact .inr ⟨hnone, hdirectory'⟩
  contents := h'.contents.trans h.contents
  disk := h'.disk.trans h.disk

/-- Whatever else is in a tree was there before. -/
theorem entry?_eq_some_iff (h : AddsDirectories tree tree') {entry : Entry}
    (hentry : entry ≠ .directory) :
    tree'.entry? names = some entry ↔ tree.entry? names = some entry := by
  rcases h.entry names with hsame | ⟨hnone, hdirectory⟩
  · rw [hsame]
  · rw [hnone, hdirectory]
    exact ⟨fun h => absurd (Option.some.inj h).symm hentry, nofun⟩

theorem file_iff (h : AddsDirectories tree tree') {number : Nat} :
    tree'.entry? names = some (.file number) ↔ tree.entry? names = some (.file number) :=
  h.entry?_eq_some_iff nofun

theorem sameFile_iff (h : AddsDirectories tree tree') {names names' : List Name} :
    tree'.SameFile names names' ↔ tree.SameFile names names' := by
  simp only [SameFile, h.file_iff]

theorem files_eq (h : AddsDirectories tree tree') : tree'.files = tree.files := by
  funext names
  refine Option.ext fun content => ?_
  simp only [files_eq_some, h.contents, h.file_iff]

end AddsDirectories

theorem addsDirectories_put (h : tree.entry? names = none) :
    AddsDirectories tree (tree.put names .directory) where
  entry names' := by
    by_cases hsame : names' = names
    · rw [hsame]
      exact .inr ⟨h, entry?_put_self (MayHold.ne_nil (.inl h))⟩
    · exact .inl (entry?_put_of_ne hsame)
  contents := rfl
  disk := rfl

theorem place_eq_ok {directory : List Name} {name? : Option Text}
    (h : tree.place directory name? = .ok (names, none)) : tree.entry? names = none := by
  cases name? with
  | none => cases h
  | some name =>
    simp only [place] at h
    split at h
    · cases h
    split at h
    · cases h
    split at h
    · cases h
    · obtain ⟨rfl, hnone⟩ := Prod.mk.inj (Except.ok.inj h)
      exact hnone

theorem makeDirectory_adds (h : tree.makeDirectory path = .ok tree') :
    AddsDirectories tree tree' := by
  rw [makeDirectory, onPath_eq_ok] at h
  obtain ⟨_, h⟩ := h
  simp only [bind, Except.bind] at h
  split at h
  · contradiction
  split at h
  · contradiction
  next hplace =>
  split at h
  · contradiction
  split at h
  · contradiction
  · cases h
    exact addsDirectories_put (place_eq_ok hplace)

theorem ensureDirectory_adds (tree : FileTree) (path : Text) :
    AddsDirectories tree (tree.ensureDirectory path).1 := by
  unfold ensureDirectory
  split
  · next hmake => exact makeDirectory_adds hmake
  · exact .refl tree

theorem makeDirectoriesWithin_adds (tree : FileTree) (calls : Nat) (path : Text) :
    AddsDirectories tree (tree.makeDirectoriesWithin calls path).1 := by
  fun_induction makeDirectoriesWithin tree calls path with
  | case1 => exact .refl tree
  | case2 _ _ _ made hmake _ ih =>
    rw [hmake] at ih
    exact ih
  | case3 _ _ _ made hmake _ ih =>
    rw [hmake] at ih
    exact ih.trans (ensureDirectory_adds made _)
  | case4 _ _ _ made at' hmake _ ih =>
    rw [hmake] at ih
    exact ih
  | case5 _ _ _ made at' hmake _ ih =>
    rw [hmake] at ih
    exact ih.trans (ensureDirectory_adds made _)
  | case6 _ _ _ made fault _ hmake ih =>
    rw [hmake] at ih
    exact ih
  | case7 _ path => exact ensureDirectory_adds tree path

/-- Making directories adds nothing else, even if one of them cannot be made. -/
theorem makeDirectories_adds (tree : FileTree) (path : Text) :
    AddsDirectories tree (tree.makeDirectories path).1 :=
  makeDirectoriesWithin_adds tree maxMissing path

/-! ### Files -/

/-- The number of a new file is no other file's. -/
theorem lt_freshNumber {number : Nat} (h : tree.entry? names = some (.file number)) :
    number < tree.freshNumber := by
  obtain ⟨entries, contents, disk⟩ := tree
  unfold entry? at h
  split at h
  · cases h
  unfold freshNumber
  dsimp only at h ⊢
  induction entries with
  | nil => contradiction
  | cons e entries ih =>
    rw [List.foldr_cons]
    rw [List.lookup_cons] at h
    split at h
    · rw [Option.some.inj h]
      exact Nat.le_max_left _ _
    · split
      · exact Nat.lt_of_lt_of_le (ih h) (Nat.le_max_right _ _)
      · exact ih h

/-- A content is given to the file under a name, which may be a new file. No other file changes, and
no link does. -/
structure Overwrites (tree tree' : FileTree) (target : List Name) (content : List Byte) : Prop where
  changed : ∀ names, names = target ∨ tree.SameFile target names →
    tree'.files names = some content
  kept : ∀ names, names ≠ target → ¬ tree.SameFile target names →
    tree'.files names = tree.files names
  links : ∀ names t, tree'.entry? names = some (.link t) ↔ tree.entry? names = some (.link t)

namespace Overwrites

theorem of_adds (hadds : AddsDirectories tree made) (h : Overwrites made tree' target content) :
    Overwrites tree tree' target content where
  changed names hnames := h.changed names (hnames.imp_right hadds.sameFile_iff.mpr)
  kept names hne hsame := by
    rw [h.kept names hne (mt hadds.sameFile_iff.mp hsame), hadds.files_eq]
  links names t := (h.links names t).trans (hadds.entry?_eq_some_iff nofun)

/-- If the file has no other name, its content is all that changes. -/
theorem files_eq_update (h : Overwrites tree tree' target content)
    (hsole : ∀ names, tree.SameFile target names → names = target) :
    tree'.files = Function.update tree.files target (some content) := by
  funext names
  by_cases hnames : names = target
  · rw [hnames, Function.update_self]
    exact h.changed target (.inl rfl)
  · rw [Function.update_of_ne hnames]
    exact h.kept names hnames (mt (hsole names) hnames)

end Overwrites

theorem overwrites_store (h : tree.MayHold target) (content : List Byte) :
    Overwrites tree ((tree.clear target).1.store (tree.clear target).2 content) target content where
  changed names hnames := by
    have hself := entry?_clear_self h
    have hfile : FileTree.entry? (tree.clear target).1 names =
        some (.file (tree.clear target).2) := by
      rcases hnames with rfl | ⟨number, htarget, hnames⟩
      · exact hself
      · rw [clear_of_file htarget]
        exact hnames
    rw [files_eq_some]
    exact ⟨_, hfile, contents_store_self _ _ _⟩
  kept names hne hsame := by
    refine files_congr (entry?_clear_of_ne h hne) fun number hfile => ?_
    rcases h with hnone | ⟨number', htarget⟩
    · have hnumber := Nat.ne_of_lt (lt_freshNumber hfile)
      rw [clear_of_none hnone, contents_store_of_ne hnumber, contents_store_of_ne hnumber]
      rfl
    · have hnumber : number ≠ number' := by
        rintro rfl
        exact hsame ⟨number, htarget, hfile⟩
      rw [clear_of_file htarget, contents_store_of_ne hnumber, contents_store_of_ne hnumber]
  links names t :=
    have hsame := sameWays_clear h
    ⟨hsame.symm.link, hsame.link⟩

theorem disk_clear (tree : FileTree) (names : List Name) :
    (tree.clear names).1.disk = tree.disk := by
  unfold clear
  split <;> rfl

/-- The path of a file leads to what has been put there. -/
theorem NamesFile.find_of_files (h : NamesFile tree path target)
    (hfiles : tree.files target = some content) :
    ∃ number, tree.find path = .ok (target, .file number) := by
  obtain ⟨number, hfile, _⟩ := files_eq_some.mp hfiles
  exact ⟨number, h.find_eq_ok hfile⟩

/-- Writing to a path changes nothing if no file can be started there. Otherwise the file to which
the path leads is the only one that changes, whether or not all chunks are written: it holds what
the disk takes of them. -/
theorem write_eq_or (tree : FileTree) (path : Text) (chunks : List (Except Fault Text)) :
    (∃ fault, tree.startFile path = .error fault ∧ tree.write path chunks = (tree, some fault)) ∨
      ∃ target, NamesFile (tree.write path chunks).1 path target ∧
        Overwrites tree (tree.write path chunks).1 target
          (tree.disk.write (writeChunks [] chunks).1).1 ∧
        (tree.write path chunks).2 =
          ((tree.disk.write (writeChunks [] chunks).1).2.map Fault.incomplete).or
            (writeChunks [] chunks).2 := by
  cases hstart : tree.startFile path with
  | error fault =>
    refine .inl ⟨fault, rfl, ?_⟩
    rw [write, hstart]
  | ok started =>
    obtain ⟨started, number⟩ := started
    obtain ⟨target, hfile, hclear⟩ := namesFile_of_startFile hstart
    have hdisk := disk_clear tree target
    have hsame := sameWays_clear hfile.mayHold
    have hstore := overwrites_store hfile.mayHold
    rw [hclear] at hdisk hsame hstore
    rw [write_of_startFile hstart, ← show started.disk = tree.disk from hdisk]
    exact .inr ⟨target, hfile.of_sameWays hsame, hstore _, rfl⟩

end JsonSurvey.FileTree
