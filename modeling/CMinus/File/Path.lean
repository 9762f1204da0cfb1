/-!
# Path: names of files

A path is a row of components with slashes between them. An empty component and a single dot stand
for the directory they are in; two dots stand for the one above.
-/

namespace CMinus.File

/-- The components of a path as they are written, empty ones included. -/
def components (path : String) : List String :=
  (path.toList.splitOn '/').map String.ofList

/-- The component names no entry of its own: it is empty or a single dot. -/
def isHere (component : String) : Bool :=
  component == "" || component == "."

/-- The name of the file a path leads to: the last component that names something, unless it leads
    up. -/
def fileName? (path : String) : Option String :=
  match ((components path).filter (!isHere ·)).getLast? with
  | some ".." => none
  | name? => name?

/-- What follows the last dot of a name. A dot that starts the name and is its only one does not
    count. -/
def nameExtension? (name : String) : Option String :=
  let backwards := name.toList.reverse
  match backwards.dropWhile (· ≠ '.') with
  | _ :: _ :: _ => some (String.ofList (backwards.takeWhile (· ≠ '.')).reverse)
  | _ => none

/-- The extension of the file a path leads to. -/
def extension? (path : String) : Option String :=
  (fileName? path).bind nameExtension?

end CMinus.File
