import PointerAnalysis.Command.Basic

/-! A directory that holds only plain files, and the command run inside it. Of the system around it
no more is known than what every system has. -/
namespace PointerAnalysis

/-- The files of a directory by name, with what the command has printed so far. -/
structure Directory where
  files : Std.TreeMap String String
  printed : String

/-- What a path can lead to. -/
inductive Place where
  /-- The directory itself. -/
  | here
  /-- A directory that encloses it. -/
  | above
  /-- The directory that encloses all others. -/
  | top
  | devices
  | temporary
  /-- The device that swallows what is written and yields nothing. -/
  | null
  | file (name : String)

def Place.isDirectory : Place → Bool
  | .here | .above | .top | .devices | .temporary => true
  | .null | .file _ => false

/-- The most bytes that a name may have. -/
def nameCapacity : Nat := 255

/-- The fewest bytes that are too many for a path. -/
def pathLimit : Nat := 4096

namespace Directory

/-- The place that a name leads to from another place. Only a directory leads anywhere, which is
checked before the name is looked at. -/
def enter (d : Directory) (place : Place) (name : String) : Except FileError Place :=
  if !place.isDirectory then .error .notDirectory
  else if name = "." then .ok place
  else if name = ".." then
    match place with
    | .here | .above => .ok .above
    | _ => .ok .top
  else if nameCapacity < name.utf8ByteSize then .error .nameTooLong
  else match place, name with
    | .here, _ => if name ∈ d.files then .ok (.file name) else .error .notFound
    | .top, "dev" => .ok .devices
    | .top, "tmp" => .ok .temporary
    | .devices, "null" => .ok .null
    | _, _ => .error .notFound

/-- A path as its start, the names along it, and whether a slash ends it. -/
def parts (path : String) : Except FileError (Place × List String × Bool) :=
  if path = "" then .error .notFound
  else if pathLimit ≤ path.utf8ByteSize then .error .nameTooLong
  else
    let start := if path.startsWith "/" then .top else .here
    .ok (start, (path.splitOn "/").filter (· ≠ ""), path.endsWith "/")

/-- The text of a file. Only a directory may be named with a slash at the end, and a directory
cannot be read. -/
def read (d : Directory) (path : String) : Except FileError String := do
  let (start, names, slash) ← parts path
  let place ← names.foldlM d.enter start
  if place.isDirectory then throw .isDirectory
  if slash then throw .notDirectory
  match place with
  | .file name => return d.files.getD name ""
  | _ => return ""

/-- Writes a file, which a slash at the end must not mark as a directory. What is written
elsewhere is out of sight. -/
def write (d : Directory) (path text : String) : Except FileError Directory := do
  let (start, names, slash) ← parts path
  let parent ← names.dropLast.foldlM d.enter start
  match names.getLast? with
  | none => throw .isDirectory
  | some name =>
    if !parent.isDirectory then throw .notDirectory
    if slash && name ≠ "." && name ≠ ".." then throw .isDirectory
    let changed := { d with files := d.files.insert name text }
    match d.enter parent name, parent with
    | .ok (.file _), _ | .error .notFound, .here => return changed
    | .ok .null, _ | .error .notFound, _ => return d
    | .ok _, _ => throw .isDirectory
    | .error error, _ => throw error

def access : FileAccess (StateM Directory) where
  read path := return (← get).read path
  write path text := do
    match (← get).write path text with
    | .ok d =>
      set d
      return .ok ()
    | .error error => return .error error
  print text := modify fun d => { d with printed := d.printed ++ text }

/-- The result of the command and the directory that it leaves. -/
def run (d : Directory) (preset : Option String) (arguments : List String) :
    Except CommandError Unit × Directory :=
  (access.run preset arguments).run d

end Directory

end PointerAnalysis
