/-
# EightBit.Files -- files by path, and why one cannot be read

A **reader** takes a path to the bytes of a file or to the reason why there are none; the rest of
the library reads files through one and so does not depend on where they are. A **file tree** is a
reader whose files are values: a path is walked from the root a name at a time, and every place it
passes has to be a directory. Of the system around the tree only a few places are known.
-/

namespace EightBit

/-- Why a file gives no content. -/
inductive ReadError
  | notFound
  | isDirectory
  | notDirectory
  /-- The path, or a name in it, has more bytes than one may have. -/
  | nameTooLong
  /-- The path holds the character that ends a path for the system. -/
  | nulInPath
  /-- The content was to be text and is not UTF-8. -/
  | notText
  /-- Any other reason, in the words of the system. -/
  | other (reason : String)
deriving DecidableEq, Repr

/-- The wording of a failure to read. -/
def ReadError.message : ReadError → String
  | .notFound => "No such file or directory (os error 2)"
  | .isDirectory => "Is a directory (os error 21)"
  | .notDirectory => "Not a directory (os error 20)"
  | .nameTooLong => "File name too long (os error 36)"
  | .nulInPath => "file name contained an unexpected NUL byte"
  | .notText => "stream did not contain valid UTF-8"
  | .other reason => reason

/-- Gives the bytes of the file at a path. -/
abbrev Reader := String → Except ReadError ByteArray

/-- The text of the file at a path. -/
def Reader.text (read : Reader) (path : String) : Except ReadError String :=
  match read path with
  | .error e => .error e
  | .ok bytes =>
    match String.fromUTF8? bytes with
    | some text => .ok text
    | none => .error .notText

/-! ## Paths -/

/-- The pieces of a path between its slashes. -/
def pathPieces (path : String) : List String :=
  path.splitOn "/"

/-- A path taken from a directory: one that begins with a slash stays as it is, and the empty one
names the directory. -/
def pathFrom (directory path : String) : String :=
  if path.startsWith "/" then path else directory ++ "/" ++ path

/-- The names that lead from the root to the place a path names: `.` and an empty piece stay where
they are, and `..` goes back by one name. -/
def placeNames (path : String) : List String :=
  (pathPieces path).foldl
    (fun names piece =>
      if piece = "" ∨ piece = "." then names
      else if piece = ".." then names.dropLast
      else names ++ [piece])
    []

/-- The file name a path ends in, if it ends in one: pieces that name no place do not count. -/
def fileName? (path : String) : Option String :=
  match ((pathPieces path).filter fun piece => piece != "" && piece != ".").getLast? with
  | some ".." => none
  | name => name

/-- The extension of a file name: what follows its last dot, unless that dot is the first character
of the name. -/
def extension? (name : String) : Option String :=
  let reversed := name.toList.reverse
  match reversed.dropWhile (· != '.') with
  | [] | [_] => none
  | _ => some (String.ofList (reversed.takeWhile (· != '.')).reverse)

/-- The number of bytes that a name in a path has at most. -/
def longestName : Nat := 255

/-- The number of bytes that a path has at most, whatever its pieces are. -/
def longestPath : Nat := 4095

/-! ## File trees -/

/-- Files and directories by the names that lead to them from the root. -/
structure FileTree where
  /-- Each place that exists, with its content if it is a file. -/
  places : List (List String × Option ByteArray)

namespace FileTree

/-- The tree with only a root. -/
def empty : FileTree := ⟨[]⟩

/-- The tree with a directory at a path. -/
def addDirectory (t : FileTree) (path : String) : FileTree :=
  ⟨(placeNames path, none) :: t.places⟩

/-- The tree with a file at a path. -/
def addFile (t : FileTree) (path : String) (content : ByteArray) : FileTree :=
  ⟨(placeNames path, some content) :: t.places⟩

/-- What is at a place: nothing, a directory, or a file with its content. Every place on the way to
one that exists is a directory. -/
def find? (t : FileTree) (place : List String) : Option (Option ByteArray) :=
  match t.places.find? fun (names, _) => names == place with
  | some (_, content) => some content
  | none =>
    if place.isEmpty || t.places.any fun (names, _) => place.isPrefixOf names then some none
    else none

/-- Walks on from a place, given by the names that lead to it. A place above the root is a directory
in which nothing is known; a tree that is the whole system has none, and its root leads back to
itself. -/
def walk (t : FileTree) (whole : Bool) (place : Option (List String)) :
    List String → Except ReadError ByteArray
  | [] =>
    match place.bind t.find? with
    | some (some content) => .ok content
    | some none => .error .isDirectory
    | none => if place.isNone then .error .isDirectory else .error .notFound
  | piece :: rest =>
    match place with
    | none =>
      if piece = "" ∨ piece = "." ∨ piece = ".." then t.walk whole none rest
      else if longestName < piece.utf8ByteSize then .error .nameTooLong
      else .error .notFound
    | some names =>
      match t.find? names with
      | none => .error .notFound
      | some (some _) => .error .notDirectory
      | some none =>
        if piece = "" ∨ piece = "." then t.walk whole (some names) rest
        else if piece = ".." then
          t.walk whole (if names.isEmpty && !whole then none else some names.dropLast) rest
        else if longestName < piece.utf8ByteSize then .error .nameTooLong
        else t.walk whole (some (names ++ [piece])) rest

/-- What is known of the system that a tree is part of: the usual directories, and the null device,
which reads as a file without content. -/
def system : FileTree :=
  ["bin", "dev", "etc", "home", "lib", "opt", "proc", "run", "sbin", "sys", "tmp", "usr",
    "var"].foldl addDirectory (empty.addFile "dev/null" .empty)

/-- The tree as a reader of paths. A path starts at the root of the tree, or at that of the system if
it begins with a slash; the empty path leads nowhere. -/
def read (t : FileTree) : Reader := fun path =>
  if path.isEmpty then .error .notFound
  else if path.toList.contains '\x00' then .error .nulInPath
  else if longestPath < path.utf8ByteSize then .error .nameTooLong
  else if path.startsWith "/" then system.walk true (some []) (pathPieces path)
  else t.walk false (some []) (pathPieces path)

end FileTree

end EightBit
