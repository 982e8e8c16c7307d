import StyleSyntax.Text.Position

/-!
# Files

Why a file cannot be read, and a tree of files as a value. A path is taken apart at its slashes and
followed name by name from the root or from the directory in which the program runs: a dot changes
nothing, two dots go to the directory above, and only a directory can be followed by a further name.
A name or a path that is too long is refused.
-/

namespace StyleSyntax.Cli

/-- Why a file cannot be read as text. -/
inductive ReadFault where
  | notFound
  | isDirectory
  | notDirectory
  | nameTooLong
  | notText
  /-- Another reason in the words of the system. -/
  | other (reason : Text)
deriving DecidableEq

/-- The wording of a fault. -/
def ReadFault.message : ReadFault → Text
  | notFound => "No such file or directory (os error 2)".toList
  | isDirectory => "Is a directory (os error 21)".toList
  | notDirectory => "Not a directory (os error 20)".toList
  | nameTooLong => "File name too long (os error 36)".toList
  | notText => "stream did not contain valid UTF-8".toList
  | other reason => reason

/-- The text of the bytes of a file, if they are valid UTF-8. -/
def decodeText (bytes : ByteArray) : Except ReadFault Text :=
  match String.fromUTF8? bytes with
  | some text => .ok text.toList
  | none => .error .notText

/-- A way to read files. -/
abbrev FileReader := Text → Except ReadFault Text

/-- The largest number of bytes in the name of a file. -/
def longestName : Nat := 255

/-- The largest number of bytes in a path. -/
def longestPath : Nat := 4095

/-- The names that a path is made of: what stands between its slashes. -/
def pathNames : Text → List Text
  | [] => [[]]
  | c :: rest =>
    if c = '/' then [] :: pathNames rest
    else
      match pathNames rest with
      | [] => [[c]]
      | name :: names => (c :: name) :: names

/-- A place in a tree of files: the names that lead to it from the root. -/
abbrev Place := List Text

namespace Place

/-- The place that a name leads to. No name and a dot stay; two dots go up, and at the root stay. -/
def follow (place : Place) (name : Text) : Place :=
  if name = [] ∨ name = ['.'] then place
  else if name = ['.', '.'] then place.dropLast
  else place ++ [name]

/-- Where a path starts: at the root after a slash, and at home otherwise. -/
def origin (home : Place) (path : Text) : Place :=
  if path.head? = some '/' then [] else home

/-- The place at the end of a path if all names on the way are directories. -/
def ofPath (home : Place) (path : Text) : Place :=
  (pathNames path).foldl follow (origin home path)

end Place

/-- A tree of files, with the directory in which the program runs. -/
structure FileSystem where
  home : Place
  directories : List Place
  files : List (Place × ByteArray)

namespace FileSystem

/-- The directories at the root of every system. -/
def commonDirectories : List Place :=
  ["bin", "boot", "dev", "etc", "home", "lib", "media", "mnt", "opt", "proc", "root", "run",
    "sbin", "srv", "sys", "tmp", "usr", "var"].map fun name => [name.toList]

/-- The files of every system that hold nothing. -/
def emptyFiles : List Place :=
  ["null", "stdin"].map fun name => ["dev".toList, name.toList]

/-- A directory for temporary work. Its last name is empty, so that it is the home of the program
and no path leads back into it from above. -/
def workDirectory : Place := ["tmp".toList, []]

/-- The system in which the program runs in a directory with nothing but these files. -/
def ofFiles (files : List (Text × ByteArray)) : FileSystem where
  home := workDirectory
  directories := workDirectory :: commonDirectories
  files :=
    files.map (fun (path, bytes) => (Place.ofPath workDirectory path, bytes)) ++
      emptyFiles.map fun place => (place, .empty)

/-- The bytes of the file at a place. -/
def file? (system : FileSystem) (place : Place) : Option ByteArray :=
  system.files.lookup place

/-- Whether a place is a directory: the root, a named one, or above a file. -/
def isDirectory (system : FileSystem) (place : Place) : Bool :=
  place.isEmpty || system.directories.contains place || system.files.any fun (path, _) =>
    place.isPrefixOf path && place.length < path.length

/-- The place that names lead to. Only a directory can be followed by a name, and only there is the
length of a name looked at. -/
def walk (system : FileSystem) (place : Place) : List Text → Except ReadFault Place
  | [] => .ok place
  | name :: rest =>
    if system.isDirectory place then
      if longestName < Text.byteLength name then .error .nameTooLong
      else system.walk (place.follow name) rest
    else if (system.file? place).isSome then .error .notDirectory
    else .error .notFound

/-- Reads the file at a path. -/
def read (system : FileSystem) : FileReader := fun path =>
  if longestPath < Text.byteLength path then .error .nameTooLong
  else
    match system.walk (Place.origin system.home path) (pathNames path) with
    | .error fault => .error fault
    | .ok place =>
      match system.file? place with
      | some bytes => decodeText bytes
      | none => .error (if system.isDirectory place then .isDirectory else .notFound)

end FileSystem

end StyleSyntax.Cli
