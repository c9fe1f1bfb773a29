import JsonSurvey.Fault

/-! Paths as texts: joining, taking apart and bringing into plain form. A path is a sequence of
names with slashes between them; one that begins with a slash starts at the root, and any other one
does so too, since the root is the working directory. -/

namespace JsonSurvey.Path

def slash : CodePoint := 0x2F

/-- The path of `name` seen from `directory`. A name that begins with a slash stands alone. -/
def join (directory name : Text) : Text :=
  if name.head? = some slash then name
  else if directory = [] ∨ directory.getLast? = some slash then directory ++ name
  else directory ++ slash :: name

/-- The names of a path, with an empty one wherever two slashes meet or one is at an end. -/
def parts (path : Text) : List Text :=
  path.foldr (fun c parts =>
    if c = slash then [] :: parts
    else match parts with
      | [] => [[c]]
      | part :: others => (c :: part) :: others) [[]]

/-- The names of a path. -/
def names (path : Text) : List Text := (parts path).filter (· != [])

/-- Whether a path ends with a slash, so that it can only name a directory. -/
def endsWithSlash (path : Text) : Bool := path.getLast? == some slash

/-- Whether a path begins with a slash, so that it starts at the root. -/
def isAbsolute (path : Text) : Bool := path.head? == some slash

/-- Names with slashes between them. -/
def ofNames (names : List Text) : Text := [slash].intercalate names

/-- The name for the directory itself. -/
def here : Text := "."

/-- The name for the directory above. -/
def above : Text := ".."

/-- The names of a path as they are followed. A slash at the end leads on to the directory itself,
so that there has to be one. -/
def steps (path : Text) : List Text := names path ++ if endsWithSlash path then [here] else []

/-- A path without empty names and names for the directory itself. Exactly two slashes at the
beginning are kept, and more of them are as good as one. -/
def plain (path : Text) : Text :=
  let body := ofNames ((names path).filter (· != here))
  match (path.takeWhile (· == slash)).length with
  | 0 => if body = [] then here else body
  | 2 => slash :: slash :: body
  | _ => slash :: body

/-- What comes after the last slash of a path. -/
def lastPart (path : Text) : Text := (path.reverse.takeWhile (· != slash)).reverse

/-- What comes before the last part of a path, without slashes at its end unless it is nothing but
slashes. -/
def beforeLast (path : Text) : Text :=
  let front := path.reverse.dropWhile (· != slash)
  let trimmed := front.dropWhile (· == slash)
  if trimmed = [] then front.reverse else trimmed.reverse

/-- The path of the directory that holds a path, and the name there; a slash at the end of a path is
left aside. -/
def split (path : Text) : Text × Text :=
  if lastPart path = [] then (beforeLast (beforeLast path), lastPart (beforeLast path))
  else (beforeLast path, lastPart path)

end JsonSurvey.Path
