import CMinus.Options

/-!
# Arguments: what the command line asks for

Flags may be written out, or, where they have a letter, one or several of them behind one dash. The
nesting limit takes a number, as the next argument or behind an equals sign. One path is asked for.
Everything behind two dashes is a path. An argument that is none of these, a flag or limit given
twice, a missing or second path: the command line is not understood.
-/

namespace CMinus.Command

/-! ## 1. Flags -/

/-- What can be switched on. -/
inductive Flag
  | tokens | outline | source | strictComments | verbose | timing
deriving DecidableEq, Repr, Inhabited

namespace Flag

/-- Every flag once. -/
def all : List Flag :=
  [tokens, outline, source, strictComments, verbose, timing]

/-- The flag written out. -/
def long : Flag → String
  | tokens => "--tokens"
  | outline => "--show-ast"
  | source => "--print-source"
  | strictComments => "--strict-comments"
  | verbose => "--verbose"
  | timing => "--timing"

/-- The letter of the flag. -/
def short? : Flag → Option Char
  | tokens => some 'k'
  | outline => none
  | source => some 'p'
  | strictComments => none
  | verbose => some 'v'
  | timing => some 't'

end Flag

/-! ## 2. Single arguments -/

/-- What one argument says. -/
inductive Item
  | flag (f : Flag)
  | limit (n : Nat)
  | path (p : String)
deriving DecidableEq, Repr, Inhabited

/-- The option that takes the nesting limit. -/
def limitOption : String := "--max-nesting"

/-- A number below `2 ^ 64`, possibly with a plus sign in front. -/
def number? (text : String) : Option Nat :=
  let digits := match text.toList with
    | '+' :: digits => digits
    | digits => digits
  if digits ≠ [] ∧ digits.all Char.isDigit then
    let n := digits.foldl (fun n c => 10 * n + (c.toNat - '0'.toNat)) 0
    if n < UInt64.size then some n else none
  else none

/-- The flags of letters behind one dash. -/
def letters? (cs : List Char) : Option (List Item) :=
  cs.mapM fun c => (Flag.all.find? (·.short? = some c)).map .flag

/-- What an argument that needs no other one says. -/
def single? (arg : String) : Option (List Item) :=
  match Flag.all.find? (·.long = arg) with
  | some f => some [.flag f]
  | none =>
    match arg.dropPrefix? (limitOption ++ "=") with
    | some value => (number? value.toString).map fun n => [.limit n]
    | none =>
      match arg.toList with
      | '-' :: '-' :: _ => none
      | '-' :: c :: cs => letters? (c :: cs)
      | _ => some [.path arg]

/-- What all arguments say, in order. -/
def items? : List String → Option (List Item)
  | [] => some []
  | "--" :: rest => some (rest.map .path)
  | arg :: rest =>
    if arg = limitOption then
      match rest with
      | [] => none
      | value :: rest => do
        let n ← number? value
        let more ← items? rest
        return .limit n :: more
    else do
      let some first := single? arg | none
      let more ← items? rest
      return first ++ more

/-! ## 3. Settings -/

/-- What the command is to do. -/
structure Settings where
  path : String
  flags : List Flag
  maxNesting : Nat
deriving DecidableEq, Repr, Inhabited

/-- The flag is switched on. -/
def Settings.has (s : Settings) (f : Flag) : Bool :=
  s.flags.contains f

/-- The options for scanning and parsing. -/
def Settings.options (s : Settings) : Options :=
  { strictComments := s.has .strictComments, maxNesting := s.maxNesting }

/-- The flags among items. -/
def flagsOf (items : List Item) : List Flag :=
  items.filterMap fun
    | .flag f => some f
    | _ => none

/-- The limits among items. -/
def limitsOf (items : List Item) : List Nat :=
  items.filterMap fun
    | .limit n => some n
    | _ => none

/-- The paths among items. -/
def pathsOf (items : List Item) : List String :=
  items.filterMap fun
    | .path p => some p
    | _ => none

/-- Settings of items: one path that is not empty, no flag twice, at most one limit. -/
def settingsOf? (items : List Item) : Option Settings :=
  match pathsOf items, limitsOf items with
  | [path], limits =>
    if path ≠ "" ∧ (flagsOf items).Nodup ∧ limits.length ≤ 1 then
      some ⟨path, flagsOf items, limits.headD defaultMaxNesting⟩
    else none
  | _, _ => none

/-- The settings a command line asks for, when it is understood. -/
def Settings.ofArguments? (args : List String) : Option Settings :=
  (items? args).bind settingsOf?

end CMinus.Command
