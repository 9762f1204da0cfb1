import CMinus.Command.Run

/-!
# The command line

Reads the file, runs the clock and prints; what is printed is decided by `Command.run`.
-/

namespace CMinus.Command

/-- How the command is used. -/
def usage : String :=
  "Usage: cminus [OPTIONS] <PATH>\n\n"
    ++ "  -k, --tokens           Print the tokens\n"
    ++ "      --show-ast         Print the tree of the program\n"
    ++ "  -p, --print-source     Print the program as canonical source\n"
    ++ "      --strict-comments  Report comments that are never closed\n"
    ++ "      --max-nesting <N>  Reject input nested deeper than N levels\n"
    ++ "  -v, --verbose          Say what is being done\n"
    ++ "  -t, --timing           Print the time of each phase\n"

/-- Nanoseconds as seconds with three decimals, right-aligned to the given width. -/
def secondsText (nanoseconds width : Nat) : String :=
  let milliseconds := (nanoseconds + 500000) / 1000000
  let decimals := toString (1000 + milliseconds % 1000)
  let text := toString (milliseconds / 1000) ++ "." ++ String.ofList (decimals.toList.drop 1)
  padLeft width text ++ "s"

/-- The fault an error of the system stands for. Some parts of the system negate their codes. -/
def faultOf (code : UInt32) (message : String) : File.Fault :=
  match (if code.toNat < 2 ^ 31 then code else 0 - code).toNat with
  | 2 => .missing
  | 20 => .notDirectory
  | 21 => .isDirectory
  | 36 => .nameTooLong
  | n => .other (message ++ " (os error " ++ toString n ++ ")")

/-- The bytes behind a path, or why there are none. -/
def openFile (path : String) : IO (Except File.Fault ByteArray) := do
  if path.toList.contains '\x00' then return .error .zeroInName
  try
    let bytes ← IO.FS.readBinFile path
    return .ok bytes
  catch e =>
    match e with
    | .noFileOrDirectory _ code details => return .error (faultOf code details)
    | .inappropriateType _ code details => return .error (faultOf code details)
    | .invalidArgument _ code details => return .error (faultOf code details)
    | .permissionDenied _ code details => return .error (faultOf code details)
    | .resourceExhausted _ code details => return .error (faultOf code details)
    | e => return .error (.other (toString e))

/-- How long a computation takes, in nanoseconds. -/
def timed {α : Type} (work : Unit → α) : IO Nat := do
  let start ← IO.monoNanosNow
  discard (IO.lazyPure work)
  return (← IO.monoNanosNow) - start

end CMinus.Command

open CMinus CMinus.Command in
/-- Runs the command on its arguments. -/
def main (args : List String) : IO UInt32 := do
  match Settings.ofArguments? args with
  | none =>
    IO.eprint usage
    return 2
  | some settings =>
    let start ← IO.monoNanosNow
    let bytes ← openFile settings.path
    let opener : Opener := fun _ => bytes
    let source := (readSource opener settings.path).toOption.getD ""
    let scanning ← timed fun _ => scan source settings.options
    let parsing ← timed fun _ => parse source settings.options
    let outcome := run settings opener
    let total := (← IO.monoNanosNow) - start
    let seconds : Phase → Nat → String
      | .scanning, width => secondsText scanning width
      | .parsing, width => secondsText parsing width
      | .total, width => secondsText total width
    IO.print (render seconds outcome.output)
    IO.eprint outcome.errors
    return outcome.exitCode.toUInt32
