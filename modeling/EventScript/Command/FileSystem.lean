/-! Files as the command line sees them: a tree of directories, one of which it works in. -/
namespace EventScript

inductive FileError where
  | notFound
  | notDirectory
  | isDirectory
  | nameTooLong
  | notText
  | other (message : String)
  deriving DecidableEq, Repr

def FileError.message : FileError → String
  | notFound => "No such file or directory (os error 2)"
  | notDirectory => "Not a directory (os error 20)"
  | isDirectory => "Is a directory (os error 21)"
  | nameTooLong => "File name too long (os error 36)"
  | notText => "stream did not contain valid UTF-8"
  | other message => message

structure Files (m : Type → Type) where
  readText : String → m (Except FileError String)
  writeText : String → String → m (Except FileError Unit)

inductive Entry where
  | file (content : ByteArray)
  | directory
  deriving Inhabited

/-- Written out, so that the equality of contents does not depend on what else is imported. -/
instance : DecidableEq Entry
  | .file a, .file b =>
      @decidable_of_iff _ (a = b) (by rw [Entry.file.injEq]) (ByteArray.instDecidableEq a b)
  | .directory, .directory => isTrue rfl
  | .file _, .directory | .directory, .file _ => isFalse nofun

/-- Entries by the names that lead to them from the root, and the directory that paths start in
unless they start at the root. -/
structure FileSystem where
  entries : List (List String × Entry)
  working : List String := []
  deriving DecidableEq, Inhabited

namespace FileSystem

def get? (fs : FileSystem) (path : List String) : Option Entry :=
  if path = [] then some .directory
  else (fs.entries.find? fun entry => entry.1 = path).map Prod.snd

def put (fs : FileSystem) (path : List String) (entry : Entry) : FileSystem :=
  { fs with entries := (path, entry) :: fs.entries.filter fun other => other.1 ≠ path }

/-- Where a name leads from a directory. The root is its own parent. -/
def move (path : List String) (name : String) : List String :=
  if name = "" ∨ name = "." then path
  else if name = ".." then path.dropLast
  else path ++ [name]

def entry (fs : FileSystem) (path : List String) : Except FileError Entry :=
  (fs.get? path).elim (.error .notFound) .ok

def nameLimit : Nat := 255

def pathLimit : Nat := 4095

def walk (fs : FileSystem) : List String → List String → Except FileError (List String)
  | path, [] => .ok path
  | path, name :: names => do
      match ← fs.entry path with
      | .file _ => throw .notDirectory
      | .directory =>
          if nameLimit < name.utf8ByteSize then throw .nameTooLong
          fs.walk (move path name) names

def names (path : String) : List String :=
  (path.toList.splitOn '/').map String.ofList

def start (fs : FileSystem) (path : String) : List String :=
  if path.startsWith "/" then [] else fs.working

def checkPath (path : String) : Except FileError Unit := do
  if path = "" then throw .notFound
  if pathLimit < path.utf8ByteSize then throw .nameTooLong

def read (fs : FileSystem) (path : String) : Except FileError ByteArray := do
  checkPath path
  match ← fs.entry (← fs.walk (fs.start path) (names path)) with
  | .file content => return content
  | .directory => throw .isDirectory

def readText (fs : FileSystem) (path : String) : Except FileError String := do
  match String.fromUTF8? (← fs.read path) with
  | some text => return text
  | none => throw .notText

/-- Makes or overwrites a file. A path that ends in a slash or in dots names a directory. -/
def write (fs : FileSystem) (path : String) (content : ByteArray) :
    Except FileError FileSystem := do
  checkPath path
  let names := names path
  let target := names.reverse.dropWhile (· = "")
  let last := target.headD "."
  let parent ← fs.walk (fs.start path) target.tail.reverse
  match ← fs.entry parent with
  | .file _ => throw .notDirectory
  | .directory =>
      if last = "." ∨ last = ".." ∨ names.getLast? = some "" then throw .isDirectory
      if nameLimit < last.utf8ByteSize then throw .nameTooLong
      let place := move parent last
      if fs.get? place = some .directory then throw .isDirectory
      return fs.put place (.file content)

def files : Files (StateM FileSystem) where
  readText path := do
    return (← get).readText path
  writeText path text := do
    match (← get).write path text.toUTF8 with
    | .ok fs =>
        set fs
        return .ok ()
    | .error e => return .error e

def insert (fs : FileSystem) (path : List String) (entry : Entry) : FileSystem :=
  let parents := ((List.range path.length).drop 1).map fun count => path.take count
  (parents.foldl (fun fs parent => fs.put parent .directory) fs).put path entry

def ofLists (working : List String) (directories : List String)
    (files : List (String × ByteArray)) : FileSystem :=
  let fs := insert { entries := [], working } working .directory
  let fs := directories.foldl (fun fs path => fs.insert (working ++ names path) .directory) fs
  files.foldl (fun fs (path, content) => fs.insert (working ++ names path) (.file content)) fs

def changes (before after : FileSystem) : List (List String × ByteArray) :=
  after.entries.filterMap fun (path, entry) =>
    match entry with
    | .file content => if before.get? path = some entry then none else some (path, content)
    | .directory => none

end FileSystem

end EventScript
