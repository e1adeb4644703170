set_option autoImplicit false

/-!
# Files: a tree of files

Directories and files below a working directory.  A place is the list of names that leads to it;
places above the working directory are reached by `..` and hold nothing but directories.  Only the
faults that reading, writing and making directories can meet here are told apart.  Devices, and faults
that come up only after a file was made, such as a full disk, are left out: a file that can be made
takes its whole text.
-/

namespace FlowTrace

/-!
## Paths

A path is a text of names with slashes between them.  Empty parts and parts that are a single dot
say nothing about the place they lead to, apart from a dot at the front.
-/

namespace Path

/-- The parts between the slashes. -/
def parts (path : String) : List String :=
  (path.toList.splitOn '/').map String.ofList

/-- The part leads nowhere. -/
def isIdle (part : String) : Bool := part = "" || part = "."

/-- Parts, last one first, without idle ones at their end; the first part of a path stays. -/
def dropIdle : List String → List String
  | [] => []
  | [first] => [first]
  | part :: earlier => if isIdle part then dropIdle earlier else part :: earlier

/-- The parts as one path. -/
def ofParts (parts : List String) : String := String.intercalate "/" parts

/-- The path without its last name, as far as it has one: the empty path for a single name, none
for the root and for the empty path. -/
def parent? (path : String) : Option String :=
  match dropIdle (parts path).reverse with
  | [] => none
  | [first] => if first = "" then none else some ""
  | _ :: earlier =>
    match dropIdle earlier with
    | [""] => some "/"
    | rest => some (ofParts rest.reverse)

/-- The path ends in a slash. -/
def endsInSlash (path : String) : Bool := path.toList.getLast? = some '/'

/-- The path without the slashes at its end. -/
def withoutSlashes (path : String) : String :=
  String.ofList (path.toList.reverse.dropWhile (· == '/')).reverse

end Path

/-! ## Places -/

/-- Why an operation on files fails. -/
inductive FileFault where
  | notFound
  | alreadyExists
  | notADirectory
  | isADirectory
  | nameTooLong
  /-- a path with a zero character -/
  | zeroInPath
  /-- contents that are no UTF-8 text -/
  | notText
  deriving DecidableEq, Repr, Inhabited

/-- The text of a fault. -/
def FileFault.text : FileFault → String
  | .notFound => "No such file or directory (os error 2)"
  | .alreadyExists => "File exists (os error 17)"
  | .notADirectory => "Not a directory (os error 20)"
  | .isADirectory => "Is a directory (os error 21)"
  | .nameTooLong => "File name too long (os error 36)"
  | .zeroInPath => "file name contained an unexpected NUL byte"
  | .notText => "stream did not contain valid UTF-8"

/-- What a place holds. -/
inductive FileEntry where
  | directory
  /-- a file with its text, if its bytes are one -/
  | file (text : Option String)
  deriving DecidableEq, Repr, Inhabited

/-- A place: the names that lead to it from the working directory. -/
abbrev Place := List String

namespace Place

/-- The place is the working directory, the root or a directory above. -/
def isAbove (place : Place) : Bool := place.all fun name => name = ".." || name = "/"

/-- The place one part further; above the root is the root. -/
def next (place : Place) (part : String) : Place :=
  if Path.isIdle part then place
  else if part = ".." then
    if place = ["/"] then place else if place.isAbove then place ++ [".."] else place.dropLast
  else place ++ [part]

/-- Where a path begins, and its parts from there on. -/
def start (path : String) : Place × List String :=
  match Path.parts path with
  | "" :: rest => (["/"], rest)
  | parts => ([], parts)

/-- The places on the way from a place along some parts. -/
def along : Place → List String → List Place
  | place, [] => [place]
  | place, part :: rest => place :: along (place.next part) rest

end Place

/-- What lies below a working directory. -/
structure FileTree where
  entries : List (Place × FileEntry)
  deriving Repr, Inhabited

namespace FileTree

/-- The bytes that one name of a path may have. -/
def nameLimit : Nat := 255

/-- The bytes that a whole path may have. -/
def pathLimit : Nat := 4095

/-- What a place holds. -/
def entry? (tree : FileTree) (place : Place) : Option FileEntry :=
  if place.isAbove then some .directory else tree.entries.lookup place

/-- The tree with a place holding something. -/
def set (tree : FileTree) (place : Place) (entry : FileEntry) : FileTree :=
  if (tree.entries.lookup place).isSome then
    ⟨tree.entries.map fun (p, e) => if p = place then (p, entry) else (p, e)⟩
  else ⟨tree.entries ++ [(place, entry)]⟩

/-! ## Following paths -/

/-- The place one part further; the part is followed inside a directory only. -/
def follow (tree : FileTree) (place : Place) (part : String) : Except FileFault Place :=
  match tree.entry? place with
  | none => .error .notFound
  | some (.file _) => .error .notADirectory
  | some .directory =>
    if nameLimit < part.utf8ByteSize then .error .nameTooLong else .ok (place.next part)

/-- The place that a path leads to, whether or not it holds anything.  Everything on the way has to
be a directory. -/
def locate (tree : FileTree) (path : String) : Except FileFault Place :=
  if path.contains '\x00' then .error .zeroInPath
  else if path = "" then .error .notFound
  else if pathLimit < path.utf8ByteSize then .error .nameTooLong
  else
    let (place, parts) := Place.start path
    parts.foldlM tree.follow place

/-- The place that a path leads to and what it holds.  A path that ends in a slash leads to a
directory only. -/
def find (tree : FileTree) (path : String) : Except FileFault (Place × FileEntry) := do
  let place ← tree.locate path
  match tree.entry? place with
  | some entry => return (place, entry)
  | none => throw .notFound

/-- A path leads to a directory. -/
def isDirectory (tree : FileTree) (path : String) : Bool :=
  match tree.find path with
  | .ok (_, .directory) => true
  | _ => false

/-- A path leads to something. -/
def exists? (tree : FileTree) (path : String) : Bool := (tree.find path).toBool

/-! ## Operations -/

/-- The text of the file at a path. -/
def read (tree : FileTree) (path : String) : Except FileFault String := do
  match ← tree.find path with
  | (_, .directory) => throw .isADirectory
  | (_, .file none) => throw .notText
  | (_, .file (some text)) => return text

/-- The place where a file can be written.  A path that ends in a slash asks for a directory, also
where nothing is yet. -/
def writable (tree : FileTree) (path : String) : Except FileFault Place :=
  match tree.locate path with
  | .ok place =>
    if tree.entry? place = some .directory then .error .isADirectory else .ok place
  | .error .notFound =>
    if Path.endsInSlash path && (tree.locate (Path.withoutSlashes path)).toBool then
      .error .isADirectory
    else .error .notFound
  | .error fault => .error fault

/-- The tree with a file written.  Making the file may fail; writing into it does not. -/
def write (tree : FileTree) (path text : String) : Except FileFault FileTree := do
  let place ← tree.writable path
  return tree.set place (.file (some text))

/-- The tree with a new directory. -/
def makeDirectory (tree : FileTree) (path : String) : Except FileFault FileTree := do
  let place ← tree.locate path
  match tree.entry? place with
  | some _ => throw .alreadyExists
  | none => return tree.set place .directory

/-- The tree with a directory at the path, made after the one above it where that is missing.  A
directory that is there already is no fault.  The first argument bounds the number of parts. -/
def makeDirectories : Nat → FileTree → String → Except FileFault FileTree
  | 0, tree, _ => .ok tree
  | room + 1, tree, path =>
    if path = "" then .ok tree
    else
      match tree.makeDirectory path with
      | .ok made => .ok made
      | .error .notFound =>
        match Path.parent? path with
        | none => .error .notFound
        | some parent => do
          let tree ← makeDirectories room tree parent
          match tree.makeDirectory path with
          | .ok made => return made
          | .error fault => if tree.isDirectory path then return tree else throw fault
      | .error fault => if tree.isDirectory path then .ok tree else .error fault

/-- The tree with a directory and every missing one above it. -/
def makePath (tree : FileTree) (path : String) : Except FileFault FileTree :=
  makeDirectories (path.length + 1) tree path

end FileTree

end FlowTrace
