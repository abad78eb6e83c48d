import CompiledCode.Storage.FileStore
import CompiledCode.Text.Blank

/-!
A tree of files and directories with a current directory. The root is its own parent.
-/

namespace CompiledCode

/-- The names from the root down to a file or a directory. -/
abbrev Location := List String

inductive TreeEntry where
  | file (bytes : List UInt8) (readOnly : Bool)
  | directory (readOnly : Bool)
  deriving DecidableEq, Repr

def TreeEntry.isReadOnly : TreeEntry → Bool
  | file _ readOnly => readOnly
  | directory readOnly => readOnly

/-- Every entry but the root is listed with its location; a privileged user may write anywhere. -/
structure FileTree where
  entries : List (Location × TreeEntry)
  current : Location
  privileged : Bool
  deriving DecidableEq, Repr

namespace FileTree

/-- What is at a location. -/
def entry? (tree : FileTree) : Location → Option TreeEntry
  | [] => some (.directory false)
  | location => tree.entries.lookup location

/-- An entry takes the place of the one at the location, or is added. -/
def put (tree : FileTree) (location : Location) (entry : TreeEntry) : FileTree :=
  { tree with entries :=
      if (tree.entries.lookup location).isSome then
        tree.entries.map fun pair => if pair.1 = location then (location, entry) else pair
      else tree.entries ++ [(location, entry)] }

/-- The names of a path one after another. -/
def names (path : String) : List String :=
  (Text.pieces (· == '/') path.toList).map String.ofList

/-- Bytes in the longest name. -/
def nameLimit : Nat := 255

/-- Bytes in the longest path. -/
def pathLimit : Nat := 4095

/-- A path is looked at only when it names something and is not too long. -/
def checkPath (path : String) : Except SystemFault Unit :=
  if path.contains '\x00' then .error .zeroInName
  else if path = "" then .error .notFound
  else if pathLimit < path.utf8ByteSize then .error .nameTooLong
  else .ok ()

/-- The location of a name in a directory. -/
def below (directory : Location) (name : String) : Except SystemFault Location :=
  if nameLimit < name.utf8ByteSize then .error .nameTooLong else .ok (directory ++ [name])

/-- The directory that a path starts from. -/
def origin (tree : FileTree) (path : String) : Location :=
  if path.startsWith "/" then [] else tree.current

/-- The location that names lead to; every name has to be followed in a directory. -/
def follow (tree : FileTree) (location : Location) : List String → Except SystemFault Location
  | [] => .ok location
  | name :: rest =>
    match tree.entry? location with
    | none => .error .notFound
    | some (.file _ _) => .error .notDirectory
    | some (.directory _) =>
      if name = "" ∨ name = "." then tree.follow location rest
      else if name = ".." then tree.follow location.dropLast rest
      else do
        let location ← below location name
        tree.follow location rest

/-- What is at a path. -/
def resolve (tree : FileTree) (path : String) : Except SystemFault TreeEntry := do
  checkPath path
  let location ← tree.follow (tree.origin path) (names path)
  match tree.entry? location with
  | some entry => .ok entry
  | none => .error .notFound

def present (tree : FileTree) (path : String) : Bool := (tree.resolve path).isOk

def read (tree : FileTree) (path : String) : Except SystemFault (List UInt8) := do
  match ← tree.resolve path with
  | .file bytes _ => .ok bytes
  | .directory _ => .error .isDirectory

/-- The location where a path lets a file be made, in a directory that exists. -/
def target (tree : FileTree) (path : String) : Except SystemFault Location := do
  checkPath path
  let all := names path
  let last := all.getLast?.getD ""
  let named := (all.reverse.dropWhile (· = "")).reverse
  match named.getLast? with
  | none => .error .isDirectory
  | some name =>
    if name = "." ∨ name = ".." then
      let _ ← tree.follow (tree.origin path) (named ++ [""])
      .error .isDirectory
    else
      let directory ← tree.follow (tree.origin path) (named.dropLast ++ [""])
      if last = "" then .error .isDirectory else below directory name

/-- The user may change what is at the location. -/
def mayWrite (tree : FileTree) (entry : TreeEntry) : Bool := tree.privileged || !entry.isReadOnly

/-- The tree in which the file at a path holds the bytes. A file that may be opened takes them all. -/
def write (tree : FileTree) (path : String) (bytes : List UInt8) :
    Except SystemFault FileTree := do
  let location ← tree.target path
  match tree.entry? location with
  | some (.directory _) => .error .isDirectory
  | some (.file old readOnly) =>
    if tree.mayWrite (.file old readOnly) then .ok (tree.put location (.file bytes readOnly))
    else .error .permissionDenied
  | none =>
    match tree.entry? location.dropLast with
    | some directory =>
      if tree.mayWrite directory then .ok (tree.put location (.file bytes false))
      else .error .permissionDenied
    | none => .error .notFound

instance : FileStore (StateM FileTree) where
  present path := fun tree => (tree.present path, tree)
  read path := fun tree => (tree.read path, tree)
  write path bytes := fun tree =>
    match tree.write path bytes with
    | .ok changed => (.ok (), changed)
    | .error fault => (.error fault, tree)

end FileTree

end CompiledCode
