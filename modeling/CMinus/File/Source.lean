import CMinus.File.Directory
import CMinus.Parse.Program

/-!
# Source files

A source is read from a file with the right extension; the extension is checked before the file is
opened. What can go wrong with a file, from its name to its last token, is an `Error`.
-/

namespace CMinus

/-- Why a file gives no program. -/
inductive Error
  /-- The name of the file has another extension. -/
  | extension (path : String)
  /-- The file cannot be read. -/
  | file (fault : File.Fault)
  /-- The source is not accepted. -/
  | rejected (diagnostics : List Diagnostic)
deriving DecidableEq, Inhabited

namespace Error

/-- The error in words. -/
def message : Error → String
  | extension path =>
    "File read error: " ++ path ++ ": file must have a ." ++ sourceExtension ++ " extension"
  | file fault => "I/O error: " ++ fault.message
  | rejected ds => "source rejected with " ++ toString ds.length ++ " error(s)"

/-- The diagnostics of a source that is not accepted. -/
def diagnostics : Error → List Diagnostic
  | rejected ds => ds
  | _ => []

end Error

/-- How files are opened: the bytes behind a path. -/
abbrev Opener := String → Except File.Fault ByteArray

/-- The text of a source file. -/
def readSource (opener : Opener) (path : String) : Except Error String :=
  if File.extension? path = some sourceExtension then
    match opener path with
    | .error fault => .error (.file fault)
    | .ok bytes =>
      match String.fromUTF8? bytes with
      | some text => .ok text
      | none => .error (.file .notText)
  else
    .error (.extension path)

/-- The program of a source file. -/
def parseFile (opener : Opener) (path : String) (options : Options) : Except Error Program :=
  match readSource opener path with
  | .error e => .error e
  | .ok source =>
    match parse source options with
    | .ok p => .ok p
    | .error ds => .error (.rejected ds)

end CMinus
