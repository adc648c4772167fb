import ReducedMips.Files.Access
import ReducedMips.Text.Pieces
/-!
# File trees

The files and directories of a system, without links. A path is followed name by name, from the root
if it starts there and from the working directory otherwise, and each name but the last must be a
directory. The root is its own parent.
-/
namespace ReducedMips

/-- A place in a tree: the names on the way to it from the root, the outermost first. -/
abbrev Place := List String

structure FileTree where
  /-- The place where paths start that do not start at the root. -/
  working : Place
  directories : List Place
  files : List (Place × ByteArray)

/-- Why a path cannot be used. -/
inductive AccessError where
  /-- No path holds a null. -/
  | notPath
  | notFound
  | notDirectory
  | isDirectory
  /-- The content of the file is not UTF-8. -/
  | notText
  deriving DecidableEq, Repr

namespace FileTree

def isDirectory (t : FileTree) (place : Place) : Bool :=
  place.isEmpty || t.directories.contains place

def get? (t : FileTree) (place : Place) : Option ByteArray := t.files.lookup place

/-- Give a file its content, whether or not it exists. -/
def put (t : FileTree) (place : Place) (content : ByteArray) : FileTree :=
  { t with files := (place, content) :: t.files.filter (·.1 != place) }

/-- The names in a path. One that is empty stands at each end of a separator without a name. -/
def names (path : String) : List String :=
  (Text.pieces (· == '/') path.toList).map String.ofList

/-- Follow names from a place. -/
def walk (t : FileTree) (here : Place) : List String → Except AccessError Place
  | [] => .ok here
  | name :: rest =>
    if t.isDirectory here then
      if name = "" ∨ name = "." then walk t here rest
      else if name = ".." then walk t here.dropLast rest
      else walk t (here ++ [name]) rest
    else if (t.get? here).isSome then .error .notDirectory
    else .error .notFound

/-- Where a path starts. -/
def origin (t : FileTree) (path : String) : Place :=
  if path.toList.head? = some '/' then [] else t.working

/-- The place that a path names. -/
def resolve (t : FileTree) (path : String) : Except AccessError Place :=
  if '\x00' ∈ path.toList then .error .notPath
  else if path = "" then .error .notFound
  else t.walk (t.origin path) (names path)

def readText (t : FileTree) (path : String) : Except AccessError String := do
  let place ← t.resolve path
  if t.isDirectory place then throw .isDirectory
  match t.get? place with
  | none => throw .notFound
  | some content =>
    match String.fromUTF8? content with
    | some text => return text
    | none => throw .notText

def writeText (t : FileTree) (path text : String) : Except AccessError FileTree := do
  let place ← t.resolve path
  if t.isDirectory place then throw .isDirectory
  return t.put place text.toUTF8

/-- Access to the files of a tree, which writing changes. The system has its words for each way to
fail. -/
def access (words : AccessError → String) : FileAccess (StateM FileTree) where
  readText path := return ((← get).readText path).mapError words
  writeText path text := do
    match (← get).writeText path text with
    | .ok t => do
      set t
      return .ok ()
    | .error e => return .error (words e)

theorem get?_put (t : FileTree) (place other : Place) (content : ByteArray) :
    (t.put place content).get? other = if other = place then some content else t.get? other := by
  by_cases h : other = place
  · simp [put, get?, h]
  · have hf : ∀ files : List (Place × ByteArray),
        (files.filter (·.1 != place)).lookup other = files.lookup other := by
      intro files
      induction files with
      | nil => rfl
      | cons file files ih => grind
    simp [put, get?, hf, List.lookup_cons, beq_eq_false_iff_ne.2 h, h]

end FileTree

end ReducedMips
