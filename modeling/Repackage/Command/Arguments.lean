import Repackage.Text.Cut

/-!
# Command line arguments

`--renames FILE [--versions FILE] [--direct FILE] [--invert] [--output DIRECTORY] INPUT`

The value of an option follows it, as the next argument or after an equals sign, and
cannot look like an option itself. Each option and the input are given at most once.
After `--` there are no options. Asking for help or the version ends the reading, so
what comes later is not looked at.
-/

namespace Repackage

structure Arguments where
  renames : String
  versions : Option String
  direct : Option String
  invert : Bool
  output : String
  input : String
deriving DecidableEq, Repr

/-- What is asked for. -/
inductive Request where
  | help
  | version
  | run (arguments : Arguments)
deriving DecidableEq, Repr

namespace Arguments

/-- The options that have a value. -/
inductive ValueOption where
  | renames | versions | direct | output
deriving DecidableEq, Repr

/-- What has been given so far. -/
structure Given where
  values : List (ValueOption × String) := []
  invert : Bool := false
  input : Option String := none

namespace Given

/-- Adds the value of an option; none is empty or given twice. -/
def setValue? (g : Given) (option : ValueOption) (value : String) : Option Given :=
  if value.isEmpty || (g.values.lookup option).isSome then none
  else some { g with values := (option, value) :: g.values }

def setInvert? (g : Given) : Option Given :=
  if g.invert then none else some { g with invert := true }

def setInput? (g : Given) (input : String) : Option Given :=
  if input.isEmpty || g.input.isSome then none else some { g with input := some input }

/-- Renames and an input must be given. -/
def finish? (g : Given) : Option Request := do
  return .run {
    renames := ← g.values.lookup .renames
    versions := g.values.lookup .versions
    direct := g.values.lookup .direct
    invert := g.invert
    output := (g.values.lookup .output).getD "out"
    input := ← g.input }

end Given

/-- An argument as it is written. -/
inductive Word where
  | endOfOptions
  | long (name : String) (value : Option String)
  | short (letter : Char)
  | plain (text : String)

def Word.ofString (text : String) : Word :=
  match text.toList with
  | ['-', '-'] => .endOfOptions
  | '-' :: '-' :: rest =>
    match Text.splitFirst? '=' rest with
    | none => .long (String.ofList rest) none
    | some (name, value) => .long (String.ofList name) (some (String.ofList value))
  | '-' :: letter :: _ => .short letter
  | _ => .plain text

def optionNamed? : String → Option ValueOption
  | "renames" => some .renames
  | "versions" => some .versions
  | "direct" => some .direct
  | "output" => some .output
  | _ => none

/-- Arguments after the end of options. -/
def readPlain? (g : Given) : List String → Option Request
  | [] => g.finish?
  | text :: rest => do readPlain? (← g.setInput? text) rest

def readFrom? (g : Given) : List String → Option Request
  | [] => g.finish?
  | text :: rest =>
    match Word.ofString text with
    | .endOfOptions => readPlain? g rest
    | .plain text => do readFrom? (← g.setInput? text) rest
    | .short 'h' | .long "help" none => some .help
    | .short 'V' | .long "version" none => some .version
    | .short _ => none
    | .long "invert" none => do readFrom? (← g.setInvert?) rest
    | .long name (some value) => do
      readFrom? (← g.setValue? (← optionNamed? name) value) rest
    | .long name none =>
      match optionNamed? name, rest with
      | some option, text :: rest =>
        match Word.ofString text with
        | .plain value => do readFrom? (← g.setValue? option value) rest
        | _ => none
      | _, _ => none

/-- What the arguments ask for, unless they are wrong. -/
def read? (arguments : List String) : Option Request := readFrom? {} arguments

end Arguments

end Repackage
