/-! The files that a run may read. A `FileTree` holds those below the directory that the run is
started in; a path is followed through it name by name, as a file system follows it. -/

namespace Mediation

namespace Command

/-- Why a file could not be read. -/
inductive FileFault where
  | notFound
  | notDirectory
  | isDirectory
  | nameTooLong
  | nulInName
  | notText
  deriving DecidableEq, Repr

namespace FileFault

def message : FileFault → String
  | notFound => "No such file or directory (os error 2)"
  | notDirectory => "Not a directory (os error 20)"
  | isDirectory => "Is a directory (os error 21)"
  | nameTooLong => "File name too long (os error 36)"
  | nulInName => "file name contained an unexpected NUL byte"
  | notText => "stream did not contain valid UTF-8"

end FileFault

/-- What is at the end of a path. -/
inductive Entry where
  | file (bytes : ByteArray)
  | folder

/-- What a run can see of a file system: what lies at the end of a path. -/
structure Files where
  find : String → Except FileFault Entry

namespace Files

/-- There is something at the end of a path. -/
def has (files : Files) (path : String) : Bool := (files.find path).toOption.isSome

/-- The text in the file at the end of a path. -/
def read (files : Files) (path : String) : Except FileFault String := do
  match ← files.find path with
  | .folder => throw .isDirectory
  | .file bytes =>
      match String.fromUTF8? bytes with
      | some text => return text
      | none => throw .notText

end Files

/-- Files and folders by the names that lead to them. A folder in which something lies need not be
listed. -/
structure FileTree where
  entries : List (List String × Entry)

/-- How far a path has been followed. -/
inductive Place where
  | within (names : List String)
  /-- In a folder of which nothing is known. -/
  | outside
  deriving DecidableEq, Repr

namespace FileTree

/-- The names in a path. Empty names and single dots lead nowhere. -/
def names (path : String) : List String :=
  (path.splitOn "/").filter fun name => name ≠ "" ∧ name ≠ "."

def ofPaths (listed : List (String × Entry)) : FileTree :=
  ⟨listed.map fun (path, entry) => (names path, entry)⟩

def at? (tree : FileTree) (place : List String) : Option Entry :=
  match (tree.entries.find? (·.1 = place)).map (·.2) with
  | some entry => some entry
  | none =>
      if place.isEmpty || tree.entries.any fun (listed, _) => place.isPrefixOf listed then
        some .folder
      else none

/-- The greatest number of bytes of a path. -/
def maxPathSize : Nat := 4095

/-- The greatest number of bytes of a name in a path. -/
def maxNameSize : Nat := 255

def follow (tree : FileTree) (place : Place) (name : String) : Except FileFault Place :=
  match place with
  | .outside => if name = ".." then .ok .outside else .error .notFound
  | .within here =>
      match tree.at? here with
      | none => .error .notFound
      | some (.file _) => .error .notDirectory
      | some .folder =>
          if name = ".." then .ok (if here.isEmpty then .outside else .within here.dropLast)
          else if maxNameSize < name.utf8ByteSize then .error .nameTooLong
          else if (tree.at? (here ++ [name])).isNone then .error .notFound
          else .ok (.within (here ++ [name]))

/-- What lies at the end of a path. A path that ends in a slash or a dot has to end at a folder. -/
def find (tree : FileTree) (path : String) : Except FileFault Entry :=
  if path.isEmpty then .error .notFound
  else if path.contains '\x00' then .error .nulInName
  else if maxPathSize < path.utf8ByteSize then .error .nameTooLong
  else do
    let start := if path.startsWith "/" then Place.outside else .within []
    match ← (names path).foldlM tree.follow start with
    | .outside => return .folder
    | .within here =>
        let folderAsked := path.endsWith "/" || path.endsWith "/."
        match tree.at? here with
        | some (.file bytes) => if folderAsked then throw .notDirectory else return .file bytes
        | some .folder => return .folder
        | none => throw .notFound

def files (tree : FileTree) : Files := ⟨tree.find⟩

end FileTree

end Command

end Mediation
