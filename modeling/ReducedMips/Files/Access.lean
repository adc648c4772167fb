/-!
# Access to files

What a command does with files: it reads a file as a text, or writes a text as the whole content
of a file. Both may fail, and then change nothing. The reason of a failure is in the words of the
system.
-/
namespace ReducedMips

structure FileAccess (m : Type → Type) where
  readText (path : String) : m (Except String String)
  writeText (path text : String) : m (Except String Unit)

namespace FileAccess

/-- The path of a name in a directory. -/
def join (dir name : String) : String :=
  match dir.toList.getLast? with
  | none | some '/' => dir ++ name
  | some _ => dir ++ "/" ++ name

/-- A failure to use a path, with the path in front. -/
def describe (path reason : String) : String := path ++ ": " ++ reason

end FileAccess

end ReducedMips
