import Pseudocode.Text.Space

/-!
# Files

A run reads files and writes files.  The working directory that it is given holds files and no
directories; a path leads to one of its files, to a directory, or nowhere.

* `Files` : what reading at a path gives, and what keeps a path from being written.
* `Files.ofDirectory` : the files of a working directory.
-/

namespace Pseudocode

/-- Why a file cannot be read or written. -/
inductive FileError
  | notFound
  | isDirectory
  | notDirectory
  | nameTooLong
  | invalidPath
  deriving DecidableEq, Repr

/-- The wording of the reason. -/
def FileError.reason : FileError → String
  | notFound => "no such file or directory"
  | isDirectory => "is a directory"
  | notDirectory => "not a directory"
  | nameTooLong => "file name too long"
  | invalidPath => "invalid argument"

/-- Where a path leads to. -/
inductive Location
  /-- The working directory or one that holds it. -/
  | directory
  /-- To a name outside of the working directory, or further on. -/
  | outside (name : String)
  /-- To a name in the working directory, perhaps marked as that of a directory. -/
  | entry (name : String) (marked : Bool)
  /-- Below a name in the working directory. -/
  | below (name : String)
  deriving DecidableEq, Repr

namespace Location

/-- The greatest number of bytes in a name. -/
def maxNameLength : Nat := 255

/-- The first name that is looked up, empty if none is. -/
def name : Location → String
  | directory => ""
  | outside name | entry name _ | below name => name

/-- The first name that is looked up is longer than names can be. -/
def isTooLong (l : Location) : Bool := maxNameLength < Text.byteLength l.name.toList

/-- The part of a path stays where it is. -/
def isHere (part : List Char) : Bool := part = [] || part = ['.']

/-- The part of a path goes up. -/
def isUp (part : List Char) : Bool := part = ['.', '.']

/-- Where a path leads to, if every name on the way is looked up. -/
def ofPath (path : String) : Location :=
  let parts := Text.splitOn '/' path.toList
  match parts.dropWhile fun part => isHere part || isUp part with
  | [] => if path.isEmpty then .outside "" else .directory
  | part :: rest =>
    let name := String.ofList part
    let start := parts.takeWhile fun part => isHere part || isUp part
    if start.head? = some [] || start.any isUp then .outside name
    else if rest.all (·.isEmpty) then .entry name (!rest.isEmpty)
    else .below name

/-- The names that the parts of a path come to, last one first, if a part that goes up cancels the
name before it; none if they leave the place where they start. -/
def cancelSteps : (names : List (List Char)) → List (List Char) → Option (List (List Char))
  | names, [] => some names
  | names, part :: parts =>
    if isHere part then cancelSteps names parts
    else if isUp part then
      match names with
      | [] => none
      | _ :: names => cancelSteps names parts
    else cancelSteps (part :: names) parts

/-- Where the parts of a path lead to, if a part that goes up cancels the name before it. -/
def ofSteps (parts : List (List Char)) : Location :=
  if parts.head? = some [] then .outside ""
  else match cancelSteps [] parts with
    | none => .outside ""
    | some [] => .directory
    | some [name] => .entry (String.ofList name) false
    | some names => .below (String.ofList (names.getLastD []))

end Location

/-- The files within reach. -/
structure Files where
  /-- Reads the file that a path leads to. -/
  read : String → Except FileError String
  /-- What keeps a file from being written at a path, if anything does. -/
  writeError? : String → Option FileError

/-- The files of a working directory and their texts. -/
abbrev Directory := List (String × String)

namespace Directory

/-- The greatest number of bytes in a path. -/
def maxPathLength : Nat := 4095

/-- What is wrong with the form of a path, if anything is. -/
def pathError? (path : String) : Option FileError :=
  if Char.ofNat 0 ∈ path.toList then some .invalidPath
  else if maxPathLength < Text.byteLength path.toList then some .nameTooLong
  else none

/-- What keeps a path from leading on below a name. -/
def belowError (d : Directory) (name : String) : FileError :=
  if (d.lookup name).isSome then .notDirectory else .notFound

/-- Reads the file at a location. -/
def readAt (d : Directory) (l : Location) : Except FileError String :=
  if l.isTooLong then .error .nameTooLong
  else match l with
    | .directory => .error .isDirectory
    | .outside _ => .error .notFound
    | .below name => .error (d.belowError name)
    | .entry name marked =>
      match d.lookup name with
      | some content => if marked then .error .notDirectory else .ok content
      | none => .error .notFound

/-- Reads the file that a path leads to. -/
def read (d : Directory) (path : String) : Except FileError String :=
  match pathError? path with
  | some e => .error e
  | none => d.readAt (.ofPath path)

/-- What keeps a file from being written at a location, if anything does. -/
def writeErrorAt? (d : Directory) (l : Location) : Option FileError :=
  match l with
  | .directory | .entry _ true => some .isDirectory
  | .outside _ => some (if l.isTooLong then .nameTooLong else .notFound)
  | .below name => some (if l.isTooLong then .nameTooLong else d.belowError name)
  | .entry _ false => if l.isTooLong then some .nameTooLong else none

/-- What keeps a file from being written, if anything does. -/
def writeError? (d : Directory) (path : String) : Option FileError :=
  (pathError? path).or (d.writeErrorAt? (.ofPath path))

/-- The names of the files that a run has created by what it wrote at paths, and their texts. -/
def created (d : Directory) (written : List (String × String)) : Directory :=
  written.filterMap fun (path, content) =>
    match Location.ofPath path with
    | .entry name _ => if (d.lookup name).isSome then none else some (name, content)
    | _ => none

end Directory

/-- The files of a working directory. -/
def Files.ofDirectory (d : Directory) : Files := ⟨d.read, d.writeError?⟩

end Pseudocode
