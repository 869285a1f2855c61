/-!
# Files

What a run needs of a file system, as a record of operations in some monad, and
a file system held in memory: a tree of files and directories, in which paths
start at the root or at the working directory.
-/

namespace SlotGraph

structure FileAccess (m : Type → Type) where
  /-- The text of a file; nothing when it cannot be opened. -/
  read : String → m (Option String)
  /-- Write a file, and say whether that was possible. -/
  write : String → String → m Bool
  /-- Make a directory and those above it, and say whether it is there now. -/
  makeDirectories : String → m Bool

/-- A place in the tree: the names on the way to it from the root, the last one first. -/
abbrev Place := List String

/-- Files and directories, and the directory in which relative paths start. -/
structure Disk where
  workingDirectory : Place
  files : List (Place × String)
  directories : List Place

namespace Disk

/-- The device that reads as an empty file and takes whatever is written to it. -/
def nullDevice : Place :=
  ["null", "dev"]

def standardDirectories : List String :=
  ["bin", "dev", "etc", "home", "lib", "opt", "proc", "root", "sbin", "sys", "tmp", "usr", "var"]

/-- The directories that the system fills by itself: nothing can be made in them. -/
def systemDirectories : List Place :=
  [["proc"], ["sys"]]

def scratchDirectory : Place :=
  ["work", "tmp"]

def empty : Disk :=
  ⟨scratchDirectory, [], scratchDirectory :: standardDirectories.map fun name => [name]⟩

/-- Whether a file or directory may be made at a place. -/
def isOpen (place : Place) : Bool :=
  !systemDirectories.contains (place.drop 1)

/-- Whether there is a directory at a place; the root always is one. -/
def isDirectory (disk : Disk) (place : Place) : Bool :=
  place.isEmpty || disk.directories.contains place

def file? (disk : Disk) (place : Place) : Option String :=
  if place = nullDevice then some "" else disk.files.lookup place

def putFile (disk : Disk) (place : Place) (text : String) : Disk :=
  if place = nullDevice then disk
  else { disk with files := (place, text) :: disk.files.filter fun other => other.1 != place }

def parts (path : String) : List String :=
  path.splitOn "/"

/-- The greatest number of bytes in a name. -/
def nameLimit : Nat := 255

/-- The greatest number of bytes in a path. -/
def pathLimit : Nat := 4095

/-- The greatest number of missing names in a path whose directories can be made. -/
def missingLimit : Nat := 1000

/-- Whether a path leads anywhere: it is neither empty nor too long. -/
def isUsable (path : String) : Bool :=
  path != "" && path.utf8ByteSize ≤ pathLimit

/-- Whether a part of a path is a name, and not a step to where it stands or upwards. -/
def isName (part : String) : Bool :=
  part != "" && part != "." && part != ".."

/-- Where a part of a path leads from a directory; above the root is the root itself. -/
def enter (place : Place) (part : String) : Place :=
  if isName part then part :: place
  else if part = ".." then place.drop 1
  else place

/-- Follow the parts of a path, each from a directory that is there. -/
def follow (disk : Disk) (place : Place) : List String → Option Place
  | [] => some place
  | part :: rest =>
      if disk.isDirectory place && part.utf8ByteSize ≤ nameLimit then
        follow disk (enter place part) rest
      else
        none

/-- Where a path starts: at the root if it begins with a slash. -/
def origin (disk : Disk) (path : String) : Place :=
  if path.toList.head? = some '/' then [] else disk.workingDirectory

def locate? (disk : Disk) (path : String) : Option Place :=
  if isUsable path then disk.follow (disk.origin path) (parts path) else none

/-- The text at a path; a directory can be opened, but has no text of its own. -/
def read? (disk : Disk) (path : String) : Option String :=
  (disk.locate? path).bind fun place =>
    if disk.isDirectory place then some "" else disk.file? place

/-- Write a file at a path, if its directory is there and it is none itself. -/
def write? (disk : Disk) (path text : String) : Option Disk :=
  (disk.locate? path).bind fun place =>
    if disk.isDirectory place || !isOpen place then none
    else some (disk.putFile place text)

/--
Make the directories on the way along the parts of a path, as far as no file or
overlong name is in the way, and say whether all of them are there.  Every name
from the first missing one on counts as missing; when they are too many, none is
made.
-/
def makeAlong (disk : Disk) (place : Place) : List String → Bool × Disk
  | [] => (true, disk)
  | part :: rest =>
      let next := enter place part
      if nameLimit < part.utf8ByteSize then (false, disk)
      else if disk.isDirectory next then makeAlong disk next rest
      else if (disk.file? next).isSome || !isOpen next then (false, disk)
      else if missingLimit < (part :: rest).countP isName then (false, disk)
      else makeAlong { disk with directories := next :: disk.directories } next rest

def makeDirectories (disk : Disk) (path : String) : Bool × Disk :=
  if isUsable path then disk.makeAlong (disk.origin path) (parts path) else (false, disk)

def addFile (disk : Disk) (path text : String) : Disk :=
  let made := (disk.makeAlong (disk.origin path) (parts path).dropLast).2
  (made.write? path text).getD made

def ofFiles (files : List (String × String)) : Disk :=
  files.foldl (fun disk file => disk.addFile file.1 file.2) empty

def access : FileAccess (StateM Disk) :=
  { read := fun path disk => (disk.read? path, disk)
    write := fun path text disk =>
      match disk.write? path text with
      | some written => (true, written)
      | none => (false, disk)
    makeDirectories := fun path disk => disk.makeDirectories path }

end Disk

/-- The directory part of a path; nothing when it has none. -/
def directoryOf? (path : String) : Option String :=
  let reversed := (path.toList.reverse.dropWhile fun c => c != '/')
  match reversed with
  | [] => none
  | _ =>
      let trimmed := reversed.dropWhile fun c => c == '/'
      some (if trimmed.isEmpty then "/" else String.ofList trimmed.reverse)

end SlotGraph
