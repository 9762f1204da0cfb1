import CMinus.File.Path

/-!
# Directory: where files are found

A directory of files and of empty directories, and what comes of opening a path from inside it.
What lies above the directory is not known, so nothing is found there.
-/

namespace CMinus.File

/-! ## 1. Faults -/

/-- Why a file cannot be read. -/
inductive Fault
  | missing
  | notDirectory
  | isDirectory
  | nameTooLong
  /-- A path with a zero character in it. -/
  | zeroInName
  /-- The bytes are no text. -/
  | notText
  /-- Anything else, in the words of the system. -/
  | other (message : String)
deriving DecidableEq, Repr, Inhabited

/-- The fault in words. -/
def Fault.message : Fault → String
  | missing => "No such file or directory (os error 2)"
  | notDirectory => "Not a directory (os error 20)"
  | isDirectory => "Is a directory (os error 21)"
  | nameTooLong => "File name too long (os error 36)"
  | zeroInName => "file name contained an unexpected NUL byte"
  | notText => "stream did not contain valid UTF-8"
  | other message => message

/-! ## 2. Opening a path -/

/-- Something with a name in a directory. -/
inductive Entry
  | file (bytes : ByteArray)
  | directory
deriving Inhabited

/-- A directory, as its entries by name. -/
abbrev Directory := List (String × Entry)

/-- How far a path has led. -/
inductive Place
  /-- The directory itself. -/
  | here
  /-- Above the directory. -/
  | above
  /-- An entry of the directory. -/
  | at (entry : Entry)
deriving Inhabited

namespace Directory

/-- From a place, one component further. -/
def step (d : Directory) (place : Place) (component : String) : Except Fault Place :=
  match place with
  | .at (.file _) => .error .notDirectory
  | place =>
    if isHere component then .ok place
    else if component = ".." then
      match place with
      | .at _ => .ok .here
      | _ => .ok .above
    else if 255 < component.utf8ByteSize then .error .nameTooLong
    else
      match place with
      | .here =>
        match d.lookup component with
        | some entry => .ok (.at entry)
        | none => .error .missing
      | _ => .error .missing

/-- From a place, along components. -/
def walk (d : Directory) (place : Place) : List String → Except Fault Place
  | [] => .ok place
  | c :: rest => do d.walk (← d.step place c) rest

/-- The bytes of the file a path leads to. A path that starts with a slash starts above. -/
def open? (d : Directory) (path : String) : Except Fault ByteArray :=
  if path.toList.contains '\x00' then .error .zeroInName
  else if path = "" then .error .missing
  else if 4096 ≤ path.utf8ByteSize then .error .nameTooLong
  else do
    let start := if path.startsWith "/" then .above else .here
    match ← d.walk start (components path) with
    | .at (.file bytes) => .ok bytes
    | _ => .error .isDirectory

end Directory

end CMinus.File
