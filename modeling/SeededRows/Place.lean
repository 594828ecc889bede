/-
  SeededRows.Place

  Places on a disk, and the paths that lead to them. A place is known by the names that lead to
  it, without detours; a path may make them.
-/
namespace SeededRows

/-- Why a path cannot be used. -/
inductive PathProblem
  | zeroCharacter
  | missingFolder
  /-- A file is where a folder is needed. -/
  | notFolder
  /-- A file is where a folder is to be made. -/
  | taken
  /-- A folder is where a file is needed. -/
  | notFile
  | longName
deriving DecidableEq, Repr

/-- The wording of a problem with a path. -/
def PathProblem.message : PathProblem → String
  | zeroCharacter => "file name contained an unexpected NUL byte"
  | missingFolder => "No such file or directory (os error 2)"
  | taken => "File exists (os error 17)"
  | notFolder => "Not a directory (os error 20)"
  | notFile => "Is a directory (os error 21)"
  | longName => "File name too long (os error 36)"

/-- A place as the names that lead to it. Leading `..` go above the place where paths start, and a
leading `/` stands for the top of an absolute path. -/
abbrev Place := List String

namespace Place

/-- Whether a place is there on every disk: the place where paths start, those above it, and the
top. -/
def given (place : Place) : Bool := place.all (· = "..") || place == ["/"]

/-- The place above a place. -/
def above (place : Place) : Place :=
  if place.all (· = "..") then place ++ [".."]
  else if place = ["/"] then place
  else place.dropLast

/-- The place that a name leads to. -/
def enter (place : Place) (name : String) : Place :=
  if name = "." then place
  else if name = ".." then above place
  else place ++ [name]

/-- The place that names lead to. -/
def walk (place : Place) (names : List String) : Place := names.foldl enter place

/-- A path that leads to a place. -/
def path : Place → String
  | [] => "."
  | "/" :: names => "/" ++ String.intercalate "/" names
  | names => String.intercalate "/" names

/-- The places that one passes on names, from the first to the last. -/
def passed (place : Place) : List String → List Place
  | [] => [place]
  | name :: rest => place :: passed (enter place name) rest

end Place

namespace Path

/-- The longest name of a folder or file, in bytes. -/
def longestName : Nat := 255

/-- The longest path, in bytes. -/
def longest : Nat := 4095

/-- The names that a path is made of. -/
def names (path : String) : List String := (path.splitOn "/").filter (· ≠ "")

/-- Where a path starts. -/
def start (path : String) : Place := if path.startsWith "/" then ["/"] else []

/-- What is wrong with a path as a text. -/
def problem? (path : String) : Option PathProblem :=
  if path.contains '\x00' then some .zeroCharacter
  else if longest < path.utf8ByteSize then some .longName
  else none

/-- A path, and one that continues it, as one path. An absolute path stands for itself. -/
def join (path more : String) : String :=
  if more.startsWith "/" then more
  else if path.isEmpty ∨ path.endsWith "/" then path ++ more
  else path ++ "/" ++ more

/-- The places that a path leads through, the last one included. -/
def passed (path : String) : List Place := Place.passed (start path) (names path)

end Path

end SeededRows
