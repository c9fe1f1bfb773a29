import JsonSurvey.FileTree.Path

/-! A tree of directories, files and symbolic links. Every operation names its target by a path and
tells the trouble that the path or the tree gives it; a path with a null character or a surrogate
that stands for no byte names nothing. Names are kept as their bytes, so that two texts with the
same bytes name the same entry. A file may have several names: what stands under a name is the
number of the file, by which its content is kept.

A tree also tells how its disk takes what is given to it, so that an entry may not be made, and a
file may end before the end of what was written. What a tree does not tell is who may read it: no
way is barred and no file is closed to a reader. Nobody else changes it during an operation. -/

namespace JsonSurvey

namespace FileTree

/-- The bytes of the name of an entry. -/
abbrev Name := List Byte

/-- What is under a name. -/
inductive Entry
  | directory
  | file (number : Nat)
  | link (target : Text)
deriving DecidableEq

/-- How a disk takes what it is given. It may refuse to make an entry under some names and to open
the file there for writing. Of the bytes that are written to a file it may take the first ones only,
and come to trouble on the way or when the file is closed. -/
structure Disk where
  refuses? : List Name → Option FileTrouble
  write : List Byte → List Byte × Option FileTrouble
  write_begins : ∀ bytes, (write bytes).1 <+: bytes
  write_complete : ∀ bytes, (write bytes).2 = none → (write bytes).1 = bytes

namespace Disk

/-- A disk that takes everything. -/
def sound : Disk where
  refuses? _ := none
  write bytes := (bytes, none)
  write_begins _ := List.prefix_rfl
  write_complete _ _ := rfl

/-- A disk that takes so many bytes of a file and comes to trouble with more of them. -/
def limited (room : Nat) (trouble : FileTrouble) : Disk where
  refuses? _ := none
  write bytes := (bytes.take room, if bytes.length ≤ room then none else some trouble)
  write_begins bytes := List.take_prefix room bytes
  write_complete bytes h := by
    dsimp only at h ⊢
    split at h
    · next hroom => exact List.take_of_length_le hroom
    · contradiction

end Disk
end FileTree

/-- A tree as the entries below its root, each under the names that lead to it, and the contents of
its files by their numbers. -/
structure FileTree where
  entries : List (List FileTree.Name × FileTree.Entry)
  contents : Nat → List Byte
  disk : FileTree.Disk

namespace FileTree

/-- The tree with nothing below its root. -/
def empty : FileTree := ⟨[], fun _ => [], .sound⟩

/-- A name takes at most so many bytes. -/
def maxNameBytes : Nat := 255

/-- A path takes fewer bytes than this. -/
def maxPathBytes : Nat := 4096

/-- The way of a path goes over at most so many links. -/
def maxLinks : Nat := 40

/-- At most so many directories above each other are made at once: each takes a call, and five more
are in use if an export is called from the outermost function. -/
def maxMissing : Nat := 995

/-- What the names lead to; the root is a directory. -/
def entry? (tree : FileTree) (names : List Name) : Option Entry :=
  if names = [] then some .directory else tree.entries.lookup names

/-- Puts an entry under names, in place of the one that was there. -/
def put (tree : FileTree) (names : List Name) (entry : Entry) : FileTree :=
  { tree with entries := tree.entries.filter (·.1 != names) ++ [(names, entry)] }

/-- Gives a file a content, in place of the one that it had. -/
def store (tree : FileTree) (number : Nat) (content : List Byte) : FileTree :=
  { tree with contents := fun n => if n = number then content else tree.contents n }

/-- A number that no file has. -/
def freshNumber (tree : FileTree) : Nat :=
  tree.entries.foldr (fun e fresh => match e.2 with
    | .file number => max (number + 1) fresh
    | _ => fresh) 0

/-- Follows names from a directory to a place: every name but the last must lead to a directory, and
the last one leads to a directory, to a file or to nothing as yet. At a link, `jump` goes on to its
target and from there to the rest of the names. -/
def followWith (tree : FileTree) (jump : List Name → List Text → Except FileTrouble (List Name))
    (place : List Name) : List Text → Except FileTrouble (List Name)
  | [] => .ok place
  | name :: rest =>
    let next := place ++ [Utf8.nameBytes name]
    if name = Path.here then followWith tree jump place rest
    else if name = Path.above then followWith tree jump place.dropLast rest
    else if maxNameBytes < (Utf8.nameBytes name).length then .error .nameTooLong
    else match tree.entry? next with
      | none => if rest = [] then .ok next else .error .notFound
      | some .directory => followWith tree jump next rest
      | some (.file _) => if rest = [] then .ok next else .error .notADirectory
      | some (.link target) =>
        jump (if Path.isAbsolute target then [] else place) (Path.steps target ++ rest)

/-- Follows names over at most so many links. -/
def follow (tree : FileTree) : Nat → List Name → List Text → Except FileTrouble (List Name)
  | 0 => tree.followWith fun _ _ => .error .tooManyLinks
  | links + 1 => tree.followWith (tree.follow links)

/-- Follows the names of a path from the root, unless the path is empty or too long. -/
def resolve (tree : FileTree) (path : Text) (names : List Text) :
    Except FileTrouble (List Name) := do
  if path = [] then throw .notFound
  if maxPathBytes ≤ (Utf8.nameBytes path).length then throw .nameTooLong
  tree.follow maxLinks [] names

/-- Where a path leads, with what is there. -/
def find (tree : FileTree) (path : Text) : Except FileTrouble (List Name × Entry) := do
  let names ← tree.resolve path (Path.steps path)
  match tree.entry? names with
  | some entry => return (names, entry)
  | none => throw .notFound

/-- The directory in which a path ends, and the last name of the path; the root has none. -/
def parent (tree : FileTree) (path : Text) : Except FileTrouble (List Name × Option Text) := do
  let directory ← tree.resolve path (Path.names path).dropLast
  match tree.entry? directory with
  | some .directory => return (directory, (Path.names path).getLast?)
  | none => throw .notFound
  | _ => throw .notADirectory

/-- The place of a name in a directory, with what is there already. Names for the directory itself
and the one above are of directories. -/
def place (tree : FileTree) (directory : List Name) (name? : Option Text) :
    Except FileTrouble (List Name × Option Entry) :=
  match name? with
  | none => .ok (directory, some .directory)
  | some name =>
    if name = Path.here then .ok (directory, some .directory)
    else if name = Path.above then .ok (directory.dropLast, some .directory)
    else if maxNameBytes < (Utf8.nameBytes name).length then .error .nameTooLong
    else
      let names := directory ++ [Utf8.nameBytes name]
      .ok (names, tree.entry? names)

/-- The fault of a path that can name nothing at all. -/
def pathFault? (path : Text) : Option Fault :=
  match Utf8.encodeName path with
  | .error gap => some (.notEncodable gap)
  | .ok _ => if path.contains 0 then some .nullCharacter else none

/-- An operation on a path, whose trouble becomes a fault. -/
def onPath {α : Type} (path : Text) (operation : Except FileTrouble α) : Except Fault α :=
  match pathFault? path with
  | some fault => .error fault
  | none => operation.mapError (.file · path)

/-- Whether a path leads to anything. -/
def has (tree : FileTree) (path : Text) : Bool := (onPath path (tree.find path)).toBool

/-- Whether a path leads to a directory. -/
def isDirectory (tree : FileTree) (path : Text) : Bool :=
  match onPath path (tree.find path) with
  | .ok (_, .directory) => true
  | _ => false

/-- The content of a file. -/
def read (tree : FileTree) (path : Text) : Except Fault (List Byte) :=
  onPath path do
    match ← tree.find path with
    | (_, .file number) => return tree.contents number
    | _ => throw .isADirectory

/-! ### Directories -/

/-- Makes a directory where nothing is yet, not even a link. -/
def makeDirectory (tree : FileTree) (path : Text) : Except Fault FileTree :=
  onPath path do
    let (directory, name?) ← tree.parent path
    match ← tree.place directory name? with
    | (_, some _) => throw .alreadyExists
    | (names, none) =>
      match tree.disk.refuses? names with
      | some trouble => throw trouble
      | none => return tree.put names .directory

/-- Makes a directory, unless there is one already. -/
def ensureDirectory (tree : FileTree) (path : Text) : FileTree × Option Fault :=
  match tree.makeDirectory path with
  | .ok tree => (tree, none)
  | .error fault =>
    (tree, if fault.isFileTrouble && tree.isDirectory path then none else some fault)

/-- Makes a directory with all directories above it that are missing, as far as so many calls go. A
directory that is there already is left as it is. What was made before a fault stays. -/
def makeDirectoriesWithin (tree : FileTree) : Nat → Text → FileTree × Option Fault
  | 0, _ => (tree, some .tooDeep)
  | calls + 1, path =>
    if (Path.split path).1 ≠ [] ∧ (Path.split path).2 ≠ [] ∧ !tree.has (Path.split path).1 then
      match tree.makeDirectoriesWithin calls (Path.split path).1 with
      | (tree, none) | (tree, some (.file .alreadyExists _)) =>
        if (Path.split path).2 = Path.here then (tree, none) else tree.ensureDirectory path
      | (tree, some fault) => (tree, some fault)
    else tree.ensureDirectory path

/-- Makes a directory with all directories above it that are missing. -/
def makeDirectories (tree : FileTree) (path : Text) : FileTree × Option Fault :=
  tree.makeDirectoriesWithin maxMissing path

/-! ### Files -/

/-- The file under names that are no directory's, without content: the one that is there, or else a
new one. -/
def clear (tree : FileTree) (names : List Name) : FileTree × Nat :=
  match tree.entry? names with
  | some (.file number) => (tree.store number [], number)
  | _ => ((tree.put names (.file tree.freshNumber)).store tree.freshNumber [], tree.freshNumber)

/-- Makes a file without content, or takes the content from the file that is there, and tells its
number. -/
def startFile (tree : FileTree) (path : Text) : Except Fault (FileTree × Nat) :=
  onPath path do
    if Path.endsWithSlash path then
      let _ ← tree.parent path
      throw .isADirectory
    let names ← tree.resolve path (Path.names path)
    if tree.entry? names = some .directory then throw .isADirectory
    match tree.disk.refuses? names with
    | some trouble => throw trouble
    | none => return tree.clear names

/-- Appends to the reversed bytes `done` what can be written of a sequence of chunks: it ends before
the first fault, and before the first chunk with a surrogate. -/
def writeChunks (done : List Byte) : List (Except Fault Text) → List Byte × Option Fault
  | [] => (done.reverse, none)
  | .error fault :: _ => (done.reverse, some fault)
  | .ok t :: rest =>
    match Utf8.encode t with
    | .ok bytes => writeChunks (bytes.reverse ++ done) rest
    | .error gap => (done.reverse, some (.notEncodable gap))

/-- Writes chunks to a file, which keeps what was written before a fault. The file is closed in any
case, and trouble of the disk is then told in place of another fault. -/
def write (tree : FileTree) (path : Text) (chunks : List (Except Fault Text)) :
    FileTree × Option Fault :=
  match tree.startFile path with
  | .error fault => (tree, some fault)
  | .ok (tree, number) =>
    let (bytes, fault?) := writeChunks [] chunks
    let (content, trouble?) := tree.disk.write bytes
    (tree.store number content, (trouble?.map Fault.incomplete).or fault?)

/-- The paths of everything below a directory, seen from there. -/
def below (tree : FileTree) (directory : List Name) : List Text :=
  tree.entries.filterMap fun (names, _) =>
    if directory.isPrefixOf names && directory.length < names.length then
      some (Path.ofNames ((names.drop directory.length).map Utf8.decodeName))
    else none

end FileTree
end JsonSurvey
