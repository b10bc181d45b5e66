import Packrat.Grammar.Definition

/-!
# Snapshots

Texts kept in files under names, to be compared with later ones. A name is followed part by part from
the directory of the snapshots, or from the top if it begins with a slash. It may lead upwards; there
is no way down into a directory, since only files are ever made. The directory itself is there as soon
as something has been written to it.
-/

namespace Packrat

/-- Why the file of a snapshot cannot be written. -/
inductive SnapshotFault where
  | nulInName
  | missingDirectory
  /-- The way leads through a file. -/
  | notADirectory
  | nameTooLong
deriving DecidableEq, Repr

namespace SnapshotFault

def message : SnapshotFault → String
  | .nulInName => "file name contained an unexpected NUL byte"
  | .missingDirectory => "No such file or directory (os error 2)"
  | .notADirectory => "Not a directory (os error 20)"
  | .nameTooLong => "File name too long (os error 36)"

end SnapshotFault

/-- A directory in which the file of a snapshot can lie. -/
inductive SnapshotPlace where
  /-- The directory of the snapshots, or the one so many levels above it. -/
  | above (levels : Nat)
  | top
deriving DecidableEq, Repr

namespace SnapshotPlace

/-- The directory above; there is none above the topmost one, which stands for it. -/
def parent : SnapshotPlace → SnapshotPlace
  | .above levels => .above (levels + 1)
  | .top => .top

end SnapshotPlace

structure SnapshotFile where
  place : SnapshotPlace
  name : String
deriving DecidableEq, Repr

namespace Snapshot

def isAbsolute (name : String) : Bool := name.startsWith "/"

def path (directory name : String) : String :=
  if isAbsolute name then name ++ ".snap" else directory ++ "/" ++ name ++ ".snap"

/-- The parts of the path below the place where it begins. Slashes that follow each other count as
one. -/
def components (name : String) : List String :=
  ((name ++ ".snap").splitOn "/").filter (fun part => part != "")

def origin (name : String) : SnapshotPlace := if isAbsolute name then .top else .above 0

/-- The largest number of bytes in one part of a path. -/
def longestPart : Nat := 255

def longestPath : Nat := 4095

end Snapshot

inductive SnapshotError where
  | notFound (name : String)
  | mismatch (name expected actual : String)
  | unwritable (name : String) (fault : SnapshotFault)
deriving DecidableEq, Repr

namespace SnapshotError

def message (directory : String) : SnapshotError → String
  | .notFound name =>
    "Snapshot '" ++ name ++ "' not found at " ++ Snapshot.path directory name
      ++ ".\nTo create it, run with UPDATE_SNAPSHOTS=1"
  | .mismatch name expected actual =>
    "Snapshot mismatch for '" ++ name ++ "':\n--- Expected ---\n" ++ expected
      ++ "\n--- Actual ---\n" ++ actual ++ "\n\nTo update snapshots, run with UPDATE_SNAPSHOTS=1"
  | .unwritable name fault =>
    "Failed to write snapshot " ++ Snapshot.path directory name ++ ": " ++ fault.message

end SnapshotError

structure SnapshotStore where
  /-- The written form of the directory. -/
  directory : String
  /-- The files with their texts. -/
  files : List (SnapshotFile × String) := []
deriving DecidableEq, Repr

namespace SnapshotStore

/-- The file at the end of a path, given the parts of the path that are left at a place. -/
def follow (store : SnapshotStore) :
    SnapshotPlace → List String → Except SnapshotFault SnapshotFile
  | _, [] => .error .missingDirectory
  | place, [name] =>
    if Snapshot.longestPart < name.utf8ByteSize then .error .nameTooLong else .ok ⟨place, name⟩
  | place, part :: rest =>
    if part = "." then store.follow place rest
    else if part = ".." then store.follow place.parent rest
    else if Snapshot.longestPart < part.utf8ByteSize then .error .nameTooLong
    else if (store.files.lookup ⟨place, part⟩).isSome then .error .notADirectory
    else .error .missingDirectory

def locate (store : SnapshotStore) (name : String) : Except SnapshotFault SnapshotFile :=
  if name.any (· == '\x00') then .error .nulInName
  else if Snapshot.longestPath < (Snapshot.path store.directory name).utf8ByteSize then
    .error .nameTooLong
  else store.follow (Snapshot.origin name) (Snapshot.components name)

def get? (store : SnapshotStore) (name : String) : Option String :=
  match store.locate name with
  | .ok file => store.files.lookup file
  | .error _ => none

def put (store : SnapshotStore) (file : SnapshotFile) (text : String) : SnapshotStore :=
  { store with files := (file, text) :: store.files.filter (fun entry => entry.1 != file) }

/-- Keeps the text if `update` is set; compares it with the kept one otherwise. -/
def check (store : SnapshotStore) (update : Bool) (name text : String) :
    Except SnapshotError SnapshotStore :=
  if update then
    match store.locate name with
    | .error fault => .error (.unwritable name fault)
    | .ok file => .ok (store.put file text)
  else
    match store.get? name with
    | none => .error (.notFound name)
    | some expected => if text = expected then .ok store else .error (.mismatch name expected text)

end SnapshotStore

namespace Grammar

def describeAll (g : Grammar) (ids : List NodeId) : String :=
  String.join (ids.map fun id => g.describe id ++ "\n")

end Grammar

end Packrat
