import JsonSurvey.FileTree
import JsonSurvey.Proofs.Text.Utf8
import Mathlib.Data.List.Basic

/-! Reading a file back. The names of a path lead from directory to directory and over links to a
directory, or to a place where a file is or may be made (`Leads`), and they lead there as long as
nothing changes but at such places (`SameWays`). A path under which a file can be started leads to
such a place (`NamesFile`); whatever content the file is given is read under the path
(`read_of_startFile`). After chunks have all been written, that is the encoding of their texts
(`read_of_write`). -/

namespace JsonSurvey.FileTree

variable {tree : FileTree} {names target : List Name} {entry : Entry}

/-! ### Putting entries -/

theorem lookup_filter_of_ne {entries : List (List Name × Entry)} (h : names ≠ target) :
    (entries.filter (·.1 != target)).lookup names = entries.lookup names := by
  induction entries with
  | nil => rfl
  | cons e entries ih =>
    rw [List.filter_cons]
    split
    · rw [List.lookup_cons, List.lookup_cons, ih]
    · next he =>
      have heq : e.1 = target := by simpa using he
      have hne : (names == e.1) = false := by simpa [heq] using h
      rw [ih, List.lookup_cons, hne]

theorem lookup_filter_self (entries : List (List Name × Entry)) (target : List Name) :
    (entries.filter (·.1 != target)).lookup target = none := by
  rw [List.lookup_eq_none_iff]
  intro e he
  simpa [bne_iff_ne, ne_comm] using (List.mem_filter.mp he).2

/-- What was put is there. -/
theorem entry?_put_self (h : target ≠ []) :
    FileTree.entry? (tree.put target entry) target = some entry := by
  unfold entry?
  rw [if_neg h, put, List.lookup_append, lookup_filter_self]
  simp

/-- Nothing else is touched. -/
theorem entry?_put_of_ne (h : names ≠ target) :
    FileTree.entry? (tree.put target entry) names = tree.entry? names := by
  have hsingle : ([(target, entry)] : List (List Name × Entry)).lookup names = none := by
    simpa using h
  unfold entry?
  rw [put, List.lookup_append, lookup_filter_of_ne h, hsingle, Option.or_none]

/-- A place where no directory and no link is, so that a file is or may be made there. -/
def MayHold (tree : FileTree) (names : List Name) : Prop :=
  tree.entry? names = none ∨ ∃ number, tree.entry? names = some (.file number)

section
variable (h : tree.MayHold names)
include h

theorem MayHold.ne_directory : tree.entry? names ≠ some .directory := by
  rcases h with h | ⟨number, h⟩ <;> rw [h] <;> nofun

theorem MayHold.ne_link (t : Text) : tree.entry? names ≠ some (.link t) := by
  rcases h with h | ⟨number, h⟩ <;> rw [h] <;> nofun

theorem MayHold.ne_nil : names ≠ [] := by
  rintro rfl
  exact h.ne_directory rfl

end

/-! ### Giving a file a content -/

@[simp]
theorem entry?_store (tree : FileTree) (number : Nat) (content : List Byte) :
    FileTree.entry? (tree.store number content) = tree.entry? := rfl

@[simp]
theorem contents_store_self (tree : FileTree) (number : Nat) (content : List Byte) :
    (tree.store number content).contents number = content := if_pos rfl

theorem contents_store_of_ne {number n : Nat} (h : n ≠ number) (tree : FileTree)
    (content : List Byte) : (tree.store number content).contents n = tree.contents n := if_neg h

theorem clear_of_file {number : Nat} (h : tree.entry? target = some (.file number)) :
    tree.clear target = (tree.store number [], number) := by
  rw [clear, h]

theorem clear_of_none (h : tree.entry? target = none) :
    tree.clear target = ((tree.put target (.file tree.freshNumber)).store tree.freshNumber [],
      tree.freshNumber) := by
  rw [clear, h]

/-- A file that is cleared is there. -/
theorem entry?_clear_self (h : tree.MayHold target) :
    FileTree.entry? (tree.clear target).1 target = some (.file (tree.clear target).2) := by
  rcases h with hnone | ⟨number, hfile⟩
  · rw [clear_of_none hnone]
    exact entry?_put_self (MayHold.ne_nil (.inl hnone))
  · rw [clear_of_file hfile]
    exact hfile

theorem entry?_clear_of_ne (h : tree.MayHold target) (hne : names ≠ target) :
    FileTree.entry? (tree.clear target).1 names = tree.entry? names := by
  rcases h with hnone | ⟨number, hfile⟩
  · rw [clear_of_none hnone]
    exact entry?_put_of_ne hne
  · rw [clear_of_file hfile, entry?_store]

/-! ### Following names -/

/-- A name that is not for a directory itself or the one above, and that is not too long. -/
structure IsStep (name : Text) : Prop where
  ne_here : name ≠ Path.here
  ne_above : name ≠ Path.above
  length_le : (Utf8.nameBytes name).length ≤ maxNameBytes

/-- Over at most so many links, names lead from a directory to another one, or to a place where a
file is or may be made. -/
inductive Leads (tree : FileTree) : Nat → List Name → List Text → List Name → Prop
  | nil {links : Nat} (place : List Name) : Leads tree links place [] place
  | here {links : Nat} {place result : List Name} {rest : List Text} :
    Leads tree links place rest result → Leads tree links place (Path.here :: rest) result
  | above {links : Nat} {place result : List Name} {rest : List Text} :
    Leads tree links place.dropLast rest result → Leads tree links place (Path.above :: rest) result
  | down {links : Nat} {place result : List Name} {name : Text} {rest : List Text} : IsStep name →
    tree.entry? (place ++ [Utf8.nameBytes name]) = some .directory →
    Leads tree links (place ++ [Utf8.nameBytes name]) rest result →
    Leads tree links place (name :: rest) result
  | last {links : Nat} {place : List Name} {name : Text} : IsStep name →
    tree.MayHold (place ++ [Utf8.nameBytes name]) →
    Leads tree links place [name] (place ++ [Utf8.nameBytes name])
  | jump {links : Nat} {place result : List Name} {name target : Text} {rest : List Text} :
    IsStep name → tree.entry? (place ++ [Utf8.nameBytes name]) = some (.link target) →
    Leads tree links (if Path.isAbsolute target then [] else place) (Path.steps target ++ rest)
      result →
    Leads tree (links + 1) place (name :: rest) result

section
variable {links : Nat} {place result : List Name} {path front back : List Text}

theorem leads_of_followWith {jump : List Name → List Text → Except FileTrouble (List Name)}
    (hjump : ∀ {place path result}, jump place path = .ok result →
      ∃ left, links = left + 1 ∧ Leads tree left place path result)
    (h : tree.followWith jump place path = .ok result) : Leads tree links place path result := by
  fun_induction followWith tree jump place path with
  | case1 place =>
    cases h
    exact .nil _
  | case2 place rest ih => exact .here (ih h)
  | case3 place rest _ ih => exact .above (ih h)
  | case4 | case6 | case9 => contradiction
  | case5 place name next hhere habove hlength hnone =>
    rw [← Except.ok.inj h]
    exact .last ⟨hhere, habove, Nat.not_lt.mp hlength⟩ (.inl hnone)
  | case7 place name rest next hhere habove hlength hdirectory ih =>
    exact .down ⟨hhere, habove, Nat.not_lt.mp hlength⟩ hdirectory (ih h)
  | case8 place name next hhere habove hlength number hfile =>
    rw [← Except.ok.inj h]
    exact .last ⟨hhere, habove, Nat.not_lt.mp hlength⟩ (.inr ⟨number, hfile⟩)
  | case10 place name rest next hhere habove hlength target hlink =>
    obtain ⟨left, rfl, hleads⟩ := hjump h
    exact .jump ⟨hhere, habove, Nat.not_lt.mp hlength⟩ hlink hleads

theorem leads_of_follow (h : tree.follow links place path = .ok result) :
    Leads tree links place path result := by
  induction links generalizing place path result with
  | zero => exact leads_of_followWith (fun hjump => by cases hjump) h
  | succ links ih => exact leads_of_followWith (fun hjump => ⟨links, rfl, ih hjump⟩) h

theorem exists_jump (tree : FileTree) (links : Nat) :
    ∃ jump, tree.follow links = tree.followWith jump := by
  cases links <;> exact ⟨_, rfl⟩

theorem followWith_step {jump : List Name → List Text → Except FileTrouble (List Name)}
    {name : Text} (h : IsStep name) (rest : List Text) :
    tree.followWith jump place (name :: rest) =
      match tree.entry? (place ++ [Utf8.nameBytes name]) with
      | none =>
        if rest = [] then .ok (place ++ [Utf8.nameBytes name]) else .error .notFound
      | some .directory => tree.followWith jump (place ++ [Utf8.nameBytes name]) rest
      | some (.file _) =>
        if rest = [] then .ok (place ++ [Utf8.nameBytes name]) else .error .notADirectory
      | some (.link target) =>
        jump (if Path.isAbsolute target then [] else place) (Path.steps target ++ rest) := by
  rw [followWith, if_neg h.ne_here, if_neg h.ne_above]
  exact if_neg (Nat.not_lt.mpr h.length_le)

theorem Leads.follow_eq_ok (h : Leads tree links place path result) :
    tree.follow links place path = .ok result := by
  induction h with
  | @jump links _ _ _ _ _ hstep hlink _ ih =>
    rw [follow, followWith_step hstep, hlink]
    exact ih
  | @nil links _ =>
    obtain ⟨jump, hjump⟩ := exists_jump tree links
    rw [hjump, followWith]
  | @here links _ _ _ _ ih =>
    obtain ⟨jump, hjump⟩ := exists_jump tree links
    rw [hjump] at ih ⊢
    rw [followWith, if_pos rfl, ih]
  | @above links _ _ _ _ ih =>
    obtain ⟨jump, hjump⟩ := exists_jump tree links
    rw [hjump] at ih ⊢
    rw [followWith, if_neg (by decide), if_pos rfl, ih]
  | @down links _ _ _ _ hstep hdirectory _ ih =>
    obtain ⟨jump, hjump⟩ := exists_jump tree links
    rw [hjump] at ih ⊢
    rw [followWith_step hstep, hdirectory]
    exact ih
  | @last links _ _ hstep hmay =>
    obtain ⟨jump, hjump⟩ := exists_jump tree links
    rw [hjump, followWith_step hstep]
    rcases hmay with hnone | ⟨number, hfile⟩
    · rw [hnone]
      rfl
    · rw [hfile]
      rfl

/-! ### Places -/

/-- A directory all of whose parents are directories. -/
def Grounded (tree : FileTree) (place : List Name) : Prop :=
  ∀ names, names <+: place → tree.entry? names = some .directory

theorem grounded_nil (tree : FileTree) : tree.Grounded [] := by
  intro names hnames
  rw [List.prefix_nil.mp hnames]
  rfl

theorem Grounded.isDirectory (h : tree.Grounded place) : tree.entry? place = some .directory :=
  h place List.prefix_rfl

theorem Grounded.dropLast (h : tree.Grounded place) : tree.Grounded place.dropLast :=
  fun names hnames => h names (hnames.trans (List.dropLast_prefix place))

theorem Grounded.concat (h : tree.Grounded place) {name : Name}
    (hname : tree.entry? (place ++ [name]) = some .directory) :
    tree.Grounded (place ++ [name]) := by
  intro names hnames
  rcases List.prefix_concat_iff.mp hnames with rfl | hnames
  · exact hname
  · exact h names hnames

/-- Where a link goes on from: the root or the directory in which it is. -/
theorem Grounded.start (h : tree.Grounded place) (target : Text) :
    tree.Grounded (if Path.isAbsolute target then [] else place) := by
  split
  · exact grounded_nil tree
  · exact h

/-- Names lead to a directory, or to a place where a file is or may be made. -/
theorem Leads.grounded_or (h : Leads tree links place path result)
    (hplace : tree.Grounded place) : tree.Grounded result ∨ tree.MayHold result := by
  induction h with
  | nil place => exact .inl hplace
  | here _ ih => exact ih hplace
  | above _ ih => exact ih hplace.dropLast
  | down _ hdirectory _ ih => exact ih (hplace.concat hdirectory)
  | last _ hmay => exact .inr hmay
  | @jump _ _ _ _ target _ _ _ _ ih => exact ih (hplace.start target)

theorem Leads.split_nil (h : Leads tree links place path result) (hplace : tree.Grounded place)
    (hpath : back = path) : ∃ middle left, Leads tree links place [] middle ∧
      tree.Grounded middle ∧ Leads tree left middle back result :=
  ⟨place, links, .nil place, hplace, hpath ▸ h⟩

/-- Names lead a part of their way to a directory, and from there the rest of it. -/
theorem Leads.split (h : Leads tree links place (front ++ back) result)
    (hplace : tree.Grounded place) (hback : back ≠ []) :
    ∃ middle left, Leads tree links place front middle ∧ tree.Grounded middle ∧
      Leads tree left middle back result := by
  generalize hpath : front ++ back = path at h
  induction h generalizing front with
  | nil place => exact absurd (List.append_eq_nil_iff.mp hpath).2 hback
  | here h ih =>
    rcases front with _ | ⟨name, front⟩
    · exact (Leads.here h).split_nil hplace hpath
    · obtain ⟨rfl, hrest⟩ := List.cons.inj hpath
      obtain ⟨middle, left, hfront, hmiddle⟩ := ih hplace hrest
      exact ⟨middle, left, .here hfront, hmiddle⟩
  | above h ih =>
    rcases front with _ | ⟨name, front⟩
    · exact (Leads.above h).split_nil hplace hpath
    · obtain ⟨rfl, hrest⟩ := List.cons.inj hpath
      obtain ⟨middle, left, hfront, hmiddle⟩ := ih hplace.dropLast hrest
      exact ⟨middle, left, .above hfront, hmiddle⟩
  | down hstep hdirectory h ih =>
    rcases front with _ | ⟨name, front⟩
    · exact (Leads.down hstep hdirectory h).split_nil hplace hpath
    · obtain ⟨rfl, hrest⟩ := List.cons.inj hpath
      obtain ⟨middle, left, hfront, hmiddle⟩ := ih (hplace.concat hdirectory) hrest
      exact ⟨middle, left, .down hstep hdirectory hfront, hmiddle⟩
  | @last links _ _ hstep hmay =>
    rcases front with _ | ⟨name, front⟩
    · exact (Leads.last hstep hmay : Leads tree links _ _ _).split_nil hplace hpath
    · exact absurd (List.append_eq_nil_iff.mp (List.cons.inj hpath).2).2 hback
  | @jump _ _ _ _ target rest hstep hlink h ih =>
    rcases front with _ | ⟨name, front⟩
    · exact (Leads.jump hstep hlink h).split_nil hplace hpath
    · obtain ⟨rfl, hrest⟩ := List.cons.inj hpath
      have hsplit : Path.steps target ++ front ++ back = Path.steps target ++ rest := by
        rw [List.append_assoc]
        exact congrArg _ hrest
      obtain ⟨middle, left, hfront, hmiddle⟩ := ih (hplace.start target) hsplit
      exact ⟨middle, left, .jump hstep hlink hfront, hmiddle⟩

/-- A directory is its own directory. -/
theorem Leads.concat_here (h : Leads tree links place path result)
    (hresult : tree.entry? result = some .directory) :
    Leads tree links place (path ++ [Path.here]) result := by
  induction h with
  | nil place => exact .here (.nil place)
  | here _ ih => exact .here (ih hresult)
  | above _ ih => exact .above (ih hresult)
  | down hstep hdirectory _ ih => exact .down hstep hdirectory (ih hresult)
  | last _ hmay => exact absurd hresult hmay.ne_directory
  | jump hstep hlink _ ih =>
    refine .jump hstep hlink ?_
    have hrest := ih hresult
    rwa [List.append_assoc] at hrest

end

/-! ### Ways that stay open -/

/-- Two trees differ only at places where files are or may be made. -/
def SameWays (tree tree' : FileTree) : Prop :=
  ∀ names, tree'.entry? names = tree.entry? names ∨ tree.MayHold names ∧ tree'.MayHold names

section
variable {tree' : FileTree}

theorem SameWays.symm (h : SameWays tree tree') : SameWays tree' tree :=
  fun names => (h names).imp Eq.symm And.symm

theorem SameWays.directory (h : SameWays tree tree')
    (hnames : tree.entry? names = some .directory) : tree'.entry? names = some .directory := by
  rcases h names with hsame | ⟨hmay, _⟩
  · rw [hsame, hnames]
  · exact absurd hnames hmay.ne_directory

theorem SameWays.link (h : SameWays tree tree') {t : Text}
    (hnames : tree.entry? names = some (.link t)) : tree'.entry? names = some (.link t) := by
  rcases h names with hsame | ⟨hmay, _⟩
  · rw [hsame, hnames]
  · exact absurd hnames (hmay.ne_link t)

theorem SameWays.mayHold (h : SameWays tree tree') (hnames : tree.MayHold names) :
    tree'.MayHold names := by
  rcases h names with hsame | ⟨_, hmay⟩
  · rwa [MayHold, hsame]
  · exact hmay

theorem Leads.of_sameWays {links : Nat} {place result : List Name} {path : List Text}
    (h : Leads tree links place path result) (hsame : SameWays tree tree') :
    Leads tree' links place path result := by
  induction h with
  | nil place => exact .nil place
  | here _ ih => exact .here ih
  | above _ ih => exact .above ih
  | down hstep hdirectory _ ih => exact .down hstep (hsame.directory hdirectory) ih
  | last hstep hmay => exact .last hstep (hsame.mayHold hmay)
  | jump hstep hlink _ ih => exact .jump hstep (hsame.link hlink) ih

/-- Clearing a file leaves all ways open. -/
theorem sameWays_clear (h : tree.MayHold target) : SameWays tree (tree.clear target).1 := by
  intro names
  by_cases hnames : names = target
  · subst hnames
    exact .inr ⟨h, .inr ⟨_, entry?_clear_self h⟩⟩
  · exact .inl (entry?_clear_of_ne h hnames)

end

/-! ### Files -/

theorem onPath_eq_ok {α : Type} {path : Text} {operation : Except FileTrouble α} {a : α} :
    onPath path operation = .ok a ↔ pathFault? path = none ∧ operation = .ok a := by
  unfold onPath
  cases pathFault? path <;> cases operation <;> simp [Except.mapError]

theorem resolve_eq_ok {path : Text} {steps : List Text} :
    tree.resolve path steps = .ok names ↔ path ≠ [] ∧
      (Utf8.nameBytes path).length < maxPathBytes ∧ tree.follow maxLinks [] steps = .ok names := by
  constructor
  · intro h
    simp only [resolve, bind, Except.bind] at h
    split at h
    · contradiction
    next hne =>
    split at h
    · contradiction
    next hlength => exact ⟨hne, Nat.not_le.mp hlength, h⟩
  · rintro ⟨hne, hlength, hfollow⟩
    rw [resolve, if_neg hne, if_neg (Nat.not_le.mpr hlength)]
    exact hfollow

theorem Leads.find_eq_ok {path : Text} {entry : Entry}
    (h : Leads tree maxLinks [] (Path.steps path) names) (hne : path ≠ [])
    (hlength : (Utf8.nameBytes path).length < maxPathBytes)
    (hentry : tree.entry? names = some entry) : tree.find path = .ok (names, entry) := by
  simp only [find, resolve_eq_ok.mpr ⟨hne, hlength, h.follow_eq_ok⟩, bind, Except.bind, hentry]
  rfl

theorem find_eq_ok {path : Text} {entry : Entry} (h : tree.find path = .ok (names, entry)) :
    Leads tree maxLinks [] (Path.steps path) names ∧ tree.entry? names = some entry := by
  simp only [find, bind, Except.bind] at h
  split at h
  · contradiction
  next place hresolve =>
  split at h
  · next hentry =>
    obtain ⟨rfl, rfl⟩ := Prod.mk.inj (Except.ok.inj h)
    exact ⟨leads_of_follow (resolve_eq_ok.mp hresolve).2.2, hentry⟩
  · contradiction

theorem entry?_empty (h : names ≠ []) : FileTree.entry? empty names = none := if_neg h

/-- There is nothing below the root. -/
theorem has_empty {path name : Text} {rest : List Text} (h : Path.names path = name :: rest)
    (hstep : IsStep name) : empty.has path = false := by
  have hnone (place : List Name) :
      FileTree.entry? empty (place ++ [Utf8.nameBytes name]) = none := entry?_empty (by simp)
  obtain ⟨rest', hsteps⟩ : ∃ rest', Path.steps path = name :: rest' := by
    rw [Path.steps, h]
    exact ⟨_, rfl⟩
  rw [has]
  cases hfind : onPath path (empty.find path) with
  | error fault => rfl
  | ok found =>
    obtain ⟨names, entry⟩ := found
    obtain ⟨hleads, hentry⟩ := find_eq_ok (onPath_eq_ok.mp hfind).2
    rw [hsteps] at hleads
    cases hleads with
    | here => exact absurd rfl hstep.ne_here
    | above => exact absurd rfl hstep.ne_above
    | down _ hdirectory => cases (hnone []).symm.trans hdirectory
    | last => cases (hnone []).symm.trans hentry
    | jump _ hlink => cases (hnone []).symm.trans hlink

/-- A path leads to a place where a file is or may be made. -/
structure NamesFile (tree : FileTree) (path : Text) (target : List Name) : Prop where
  noFault : pathFault? path = none
  ne_nil : path ≠ []
  length_lt : (Utf8.nameBytes path).length < maxPathBytes
  noSlash : Path.endsWithSlash path = false
  leads : Leads tree maxLinks [] (Path.names path) target
  mayHold : tree.MayHold target

section
variable {tree' : FileTree} {path : Text} {number : Nat}

theorem NamesFile.of_sameWays (h : NamesFile tree path target) (hsame : SameWays tree tree') :
    NamesFile tree' path target where
  noFault := h.noFault
  ne_nil := h.ne_nil
  length_lt := h.length_lt
  noSlash := h.noSlash
  leads := h.leads.of_sameWays hsame
  mayHold := hsame.mayHold h.mayHold

theorem NamesFile.find_eq_ok (h : NamesFile tree path target)
    (hfile : tree.entry? target = some (.file number)) :
    tree.find path = .ok (target, .file number) := by
  have hsteps : Path.steps path = Path.names path := by
    rw [Path.steps, h.noSlash]
    exact List.append_nil _
  have hleads : Leads tree maxLinks [] (Path.steps path) target := hsteps ▸ h.leads
  exact hleads.find_eq_ok h.ne_nil h.length_lt hfile

theorem NamesFile.read_eq_ok (h : NamesFile tree path target)
    (hfile : tree.entry? target = some (.file number)) :
    tree.read path = .ok (tree.contents number) := by
  rw [read, onPath_eq_ok, h.find_eq_ok hfile]
  exact ⟨h.noFault, rfl⟩

/-- A file is started by clearing it. -/
theorem namesFile_of_startFile (h : tree.startFile path = .ok (tree', number)) :
    ∃ target, NamesFile tree path target ∧ tree.clear target = (tree', number) := by
  rw [startFile, onPath_eq_ok] at h
  obtain ⟨hfault, h⟩ := h
  simp only [bind, Except.bind] at h
  split at h
  · split at h <;> contradiction
  next hslash =>
  split at h
  · contradiction
  next names hresolve =>
  split at h
  · contradiction
  next hdirectory =>
  split at h
  · contradiction
  obtain ⟨hne, hlength, hfollow⟩ := resolve_eq_ok.mp hresolve
  have hleads := leads_of_follow hfollow
  have hmay : tree.MayHold names :=
    (hleads.grounded_or (grounded_nil tree)).resolve_left fun h => hdirectory h.isDirectory
  exact ⟨names, ⟨hfault, hne, hlength, Bool.eq_false_iff.mpr hslash, hleads, hmay⟩,
    Except.ok.inj h⟩

/-- Whatever content a file is given once it is started, it is read under its path. -/
theorem read_of_startFile (h : tree.startFile path = .ok (tree', number)) (content : List Byte) :
    (tree'.store number content).read path = .ok content := by
  obtain ⟨target, hfile, hclear⟩ := namesFile_of_startFile h
  have hself := entry?_clear_self hfile.mayHold
  have hsame := sameWays_clear hfile.mayHold
  rw [hclear] at hself hsame
  have hstored : NamesFile (tree'.store number content) path target := hfile.of_sameWays hsame
  rw [hstored.read_eq_ok hself, contents_store_self]

end

/-- The tree with one file below its root. -/
def oneFile (name : Text) (content : List Byte) : FileTree :=
  (empty.put [Utf8.nameBytes name] (.file 0)).store 0 content

/-- A directory is made alone if the one above it is there, or if its path has no name for that
one. -/
theorem makeDirectories_eq_ensureDirectory {path : Text} (h : (Path.split path).1 = [] ∨
    (Path.split path).2 = [] ∨ tree.has (Path.split path).1 = true) :
    tree.makeDirectories path = tree.ensureDirectory path := by
  refine if_neg ?_
  rintro ⟨hfirst, hlast, hmissing⟩
  rcases h with h | h | h
  · exact hfirst h
  · exact hlast h
  · rw [h] at hmissing
    contradiction

/-! ### Chunks -/

/-- A chunk at which writing stops: a fault, or a text that cannot be encoded. -/
inductive Stops : Except Fault Text → Fault → Prop
  | fault (fault : Fault) : Stops (.error fault) fault
  | gap {t : Text} {gap : Utf8.Gap} : Utf8.encode t = .error gap →
    Stops (.ok t) (.notEncodable gap)

/-- What is left of chunks where writing ends: nothing, or the chunk at which it stops and all
behind it. -/
inductive Ends : List (Except Fault Text) → Option Fault → Prop
  | all : Ends [] none
  | stop {chunk : Except Fault Text} {fault : Fault} (rest : List (Except Fault Text)) :
    Stops chunk fault → Ends (chunk :: rest) (some fault)

theorem exists_tail_of_writeChunks (done : List Byte) (chunks : List (Except Fault Text)) :
    ∃ (texts : List Text) (rest : List (Except Fault Text)) (tail : List Byte),
      chunks = texts.map .ok ++ rest ∧ Ends rest (writeChunks done chunks).2 ∧
        Utf8.Encodes texts.flatten tail ∧ (writeChunks done chunks).1 = done.reverse ++ tail := by
  induction chunks generalizing done with
  | nil => exact ⟨[], [], [], rfl, .all, .nil, (List.append_nil _).symm⟩
  | cons chunk chunks ih =>
    cases chunk with
    | error fault =>
      exact ⟨[], _, [], rfl, .stop chunks (.fault fault), .nil, (List.append_nil _).symm⟩
    | ok t =>
      rw [writeChunks]
      split
      · next bytes hbytes =>
        obtain ⟨texts, rest, tail, hchunks, hends, htail, hwritten⟩ := ih (bytes.reverse ++ done)
        refine ⟨t :: texts, rest, bytes ++ tail, ?_, hends, ?_, ?_⟩
        · rw [hchunks, List.map_cons, List.cons_append]
        · exact (Utf8.encode_eq_ok_iff.mp hbytes).append htail
        · rw [hwritten, List.reverse_append, List.reverse_reverse, List.append_assoc]
      · next gap hgap =>
        exact ⟨[], _, [], rfl, .stop chunks (.gap hgap), .nil, (List.append_nil _).symm⟩

/-- Chunks are texts up to where writing ends, and the bytes are those of these texts one behind the
other. -/
theorem exists_ends_of_writeChunks (chunks : List (Except Fault Text)) :
    ∃ (texts : List Text) (rest : List (Except Fault Text)), chunks = texts.map .ok ++ rest ∧
      Ends rest (writeChunks [] chunks).2 ∧
      Utf8.Encodes texts.flatten (writeChunks [] chunks).1 := by
  obtain ⟨texts, rest, tail, hchunks, hends, htail, hwritten⟩ :=
    exists_tail_of_writeChunks [] chunks
  rw [hwritten]
  exact ⟨texts, rest, hchunks, hends, htail⟩

/-- What a file comes to hold, and the fault with which writing to it ends: a beginning of what is
written of the chunks, and all of it if the disk takes it. -/
theorem write_of_startFile {path : Text} {started : FileTree} {number : Nat}
    (h : tree.startFile path = .ok (started, number)) (chunks : List (Except Fault Text)) :
    tree.write path chunks =
      (started.store number (started.disk.write (writeChunks [] chunks).1).1,
        ((started.disk.write (writeChunks [] chunks).1).2.map Fault.incomplete).or
          (writeChunks [] chunks).2) := by
  rw [write, h]

/-- On a sound disk writing goes by its chunks once the file is started. -/
theorem write_snd {path : Text} {started : FileTree} {number : Nat}
    (h : tree.startFile path = .ok (started, number)) (hdisk : started.disk = .sound)
    (chunks : List (Except Fault Text)) :
    (tree.write path chunks).2 = (writeChunks [] chunks).2 := by
  rw [write_of_startFile h, hdisk]
  rfl

/-- A file to which all chunks were written holds the bytes of their texts. -/
theorem read_of_write {path : Text} {chunks : List (Except Fault Text)} {tree' : FileTree}
    (h : tree.write path chunks = (tree', none)) :
    ∃ (texts : List Text) (content : List Byte), texts.map .ok = chunks ∧
      Utf8.Encodes texts.flatten content ∧ tree'.read path = .ok content := by
  cases hstart : tree.startFile path with
  | error fault =>
    rw [write, hstart] at h
    cases h
  | ok started =>
  obtain ⟨started, number⟩ := started
  rw [write_of_startFile hstart] at h
  obtain ⟨rfl, hfault⟩ := Prod.mk.inj h
  obtain ⟨htrouble, hnone⟩ := Option.or_eq_none_iff.mp hfault
  rw [started.disk.write_complete _ (Option.map_eq_none_iff.mp htrouble)]
  obtain ⟨texts, rest, hchunks, hends, hcontent⟩ := exists_ends_of_writeChunks chunks
  rw [hnone] at hends
  cases hends
  rw [List.append_nil] at hchunks
  exact ⟨texts, _, hchunks.symm, hcontent, read_of_startFile hstart _⟩

end JsonSurvey.FileTree
