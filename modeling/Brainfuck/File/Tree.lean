/-
Files as a program finds them: a disk opens a path and gives the bytes of the
file there, or says why it cannot. A `FileTree` is a disk that holds
directories and files in a working directory, and nothing is known of what
else is around that directory.
-/
import Brainfuck.Error.Source
import Brainfuck.File.Path

namespace Brainfuck

/-- Opens the file under a path in plain form. -/
abbrev Disk := String → Except Cause (List UInt8)

/-- What may be found under a name. -/
inductive FileEntry where
  | directory
  | file (bytes : List UInt8)

/-- A working directory: what is found under the components of a path. -/
structure FileTree where
  entry? : List String → Option FileEntry

namespace FileTree

/-- The entries of a list, by their components. -/
def ofEntries (entries : List (List String × FileEntry)) : FileTree :=
  ⟨fun cs => entries.lookup cs⟩

/-- All the directories on the way to a path, the last one included. -/
def directoriesTo (path : String) : List (List String × FileEntry) :=
  let cs := Path.components path
  (List.range cs.length).map fun n => (cs.take (n + 1), .directory)

/-- The tree with the given directories, and those around them, and files. -/
def ofLists (directories : List String) (files : List (String × List UInt8)) : FileTree :=
  ofEntries (files.map (fun f => (Path.components f.1, .file f.2)) ++
    directories.flatMap directoriesTo)

/-- A place reached on the way along a path. -/
inductive Place where
  /-- In the working directory, by the components from there, last one first. -/
  | inside (way : List String)
  /-- In a directory around the working directory. -/
  | above

/-- The longest name, in bytes. -/
def maxName : Nat := 255

/-- The length from which on a path is too long, in bytes. -/
def maxPath : Nat := 4096

/-- The reason for refusing a name or a path for its length. -/
def nameTooLong : Cause := .system "File name too long"

/-- The entry at a place. -/
def entryAt (t : FileTree) : Place → Option FileEntry
  | .above | .inside [] => some .directory
  | .inside way => t.entry? way.reverse

/-- Goes from a directory to the place a component names. -/
def go (place : Place) (name : String) : Place :=
  match place, name with
  | .inside (_ :: way), ".." => .inside way
  | _, ".." => .above
  | .inside way, name => .inside (name :: way)
  | .above, _ => .above

/-- Whether a name leads somewhere from a place around the working directory:
only upwards. -/
def leads (place : Place) (name : String) : Bool :=
  match place with
  | .inside _ => true
  | .above => name == ".."

/-- Walks along components from a place and opens what is at the end. -/
def walk (t : FileTree) (place : Place) : List String → Except Cause (List UInt8)
  | [] =>
    match t.entryAt place with
    | none => .error .missing
    | some .directory => .error (.system "Is a directory")
    | some (.file bytes) => .ok bytes
  | name :: names =>
    match t.entryAt place with
    | none => .error .missing
    | some (.file _) => .error (.system "Not a directory")
    | some .directory =>
      if maxName < name.utf8ByteSize then .error nameTooLong
      else if leads place name then t.walk (go place name) names
      else .error .missing

/-- The tree as a disk. -/
def disk (t : FileTree) : Disk := fun path =>
  if maxPath ≤ path.utf8ByteSize then .error nameTooLong
  else t.walk (if Path.isAbsolute path then .above else .inside []) (Path.components path)

end FileTree

end Brainfuck
