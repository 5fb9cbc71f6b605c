/-!
# File paths

Paths are texts with slashes between their parts.  `Path.stem` is the name that a file gives to the program in it,
and `Path.parent` the directory in which the files next to it are found.
-/

namespace BraceScript.Path

/-- The stretches of `cs` between the characters `c`. -/
def splitAt (c : Char) : List Char → List (List Char)
  | [] => [[]]
  | d :: ds =>
    match splitAt c ds with
    | [] => [[d]]
    | part :: parts => if d = c then [] :: part :: parts else (d :: part) :: parts

/-- The parts of a path. -/
def parts (path : String) : List String := (splitAt '/' path.toList).map String.ofList

/-- Whether a part names nothing: two slashes in a row, or the directory that one is in already. -/
def isIdle (part : String) : Bool := part = "" || part = "."

/-- A file name without its last extension.  A name that only starts with a point has none. -/
def withoutExtension (name : String) : String :=
  match name.toList.reverse.dropWhile (· ≠ '.') with
  | '.' :: c :: cs => String.ofList (c :: cs).reverse
  | _ => name

/-- The name of the file at `path` without its extension. -/
def stem (path : String) : String :=
  match ((parts path).filter (!isIdle ·)).getLast? with
  | none => ""
  | some ".." => ""
  | some name => withoutExtension name

/-- Drops the parts at the end that name nothing.  The first part is kept. -/
def trimmed : List String → List String
  | [] => []
  | first :: rest => first :: (rest.reverse.dropWhile isIdle).reverse

/-- The directory that a file is in; empty for a bare file name. -/
def parent (path : String) : String :=
  match trimmed (trimmed (parts path)).dropLast with
  | [] => ""
  | [""] => "/"
  | ps => "/".intercalate ps

/-- The file called `name` in a directory.  The empty text stands for the present directory. -/
def inside (directory name : String) : String :=
  if directory = "" then "./" ++ name
  else if directory.toList.getLast? = some '/' then directory ++ name
  else directory ++ "/" ++ name

end BraceScript.Path
