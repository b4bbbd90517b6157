namespace Lockbox

/-!
# Options

The words of a command line.  A word that starts with a dash is an option, by its long name after
two dashes or by its letter after one; letters can be put together.  The value of an option is the
rest of its word, with or without an equals sign, or the next word unless that starts with a dash
itself.  No option may be given twice.  What is wrong first, or asks for something else first,
decides.

* `Options.read` — the options up to the first word that is none.
-/

/-- An option. -/
structure OptionSpec where
  /-- Its long name. -/
  name : String
  /-- Its letter. -/
  letter : Option Char := none
  /-- Does it take a value? -/
  takesValue : Bool := true
  /-- The values that it can have. -/
  accepts : String → Bool := fun _ => true

/-- Why a command line is not carried out. -/
inductive Interruption
  /-- It is wrong. -/
  | usage
  /-- It asks for help. -/
  | help
  /-- It asks for the version. -/
  | version
  deriving DecidableEq, Repr

/-- The options that have been given, with their values. -/
abbrev Options := List (String × String)

namespace Options

/-- The option that asks for help. -/
def help : OptionSpec := { name := "help", letter := some 'h', takesValue := false }

/-- The option that asks for the version. -/
def version : OptionSpec := { name := "version", letter := some 'V', takesValue := false }

/-- Adds an option.  Some options end the reading at once. -/
def add (given : Options) (spec : OptionSpec) (value : String) : Except Interruption Options :=
  if spec.name = help.name then .error .help
  else if spec.name = version.name then .error .version
  else if given.any (·.1 = spec.name) then .error .usage
  else if spec.accepts value then .ok ((spec.name, value) :: given)
  else .error .usage

/-- What a word says: the options so far, and the option that still needs a value. -/
abbrev Reading := Options × Option OptionSpec

/-- Reads an option by its long name, given without the dashes. -/
def readLong (specs : List OptionSpec) (given : Options) (word : List Char) :
    Except Interruption Reading := do
  let name := String.ofList (word.takeWhile (· ≠ '='))
  let some spec := specs.find? (·.name = name) | throw .usage
  match word.dropWhile (· ≠ '='), spec.takesValue with
  | [], true => return (given, some spec)
  | [], false => return (← add given spec "", none)
  | _ :: value, true => return (← add given spec (String.ofList value), none)
  | _ :: _, false => throw .usage

/-- Reads options by their letters, given without the dash. -/
def readLetters (specs : List OptionSpec) (given : Options) :
    List Char → Except Interruption Reading
  | [] => return (given, none)
  | letter :: rest => do
    let some spec := specs.find? (·.letter = some letter) | throw .usage
    if spec.takesValue then
      match rest with
      | [] => return (given, some spec)
      | '=' :: value => return (← add given spec (String.ofList value), none)
      | value => return (← add given spec (String.ofList value), none)
    else readLetters specs (← add given spec "") rest

/-- Reads the options up to the first word that is none.  Gives the options and the words from there
    on; nothing may come after two dashes. -/
def readOnto (specs : List OptionSpec) (given : Options) :
    List String → Except Interruption (Options × List String)
  | [] => return (given, [])
  | word :: rest =>
    let reading : Option (Except Interruption Reading) :=
      match word.toList with
      | ['-', '-'] => some (if rest = [] then .ok (given, none) else .error .usage)
      | '-' :: '-' :: word => some (readLong specs given word)
      | '-' :: c :: word => some (readLetters specs given (c :: word))
      | _ => none
    match reading with
    | none => return (given, word :: rest)
    | some (.error interruption) => throw interruption
    | some (.ok (given, none)) => readOnto specs given rest
    | some (.ok (given, some spec)) =>
      match rest with
      | [] => throw .usage
      | value :: rest =>
        if value.toList.head? = some '-' ∧ value ≠ "-" then throw .usage
        else
          match add given spec value with
          | .ok given => readOnto specs given rest
          | .error interruption => throw interruption

/-- The options up to the first word that is none, and the words from there on. -/
def read (specs : List OptionSpec) (words : List String) :
    Except Interruption (Options × List String) :=
  readOnto specs [] words

/-- The value of an option. -/
def value? (given : Options) (name : String) : Option String := given.lookup name

/-- Has an option been given? -/
def has (given : Options) (name : String) : Bool := given.any (·.1 = name)

/-- The value of an option that must be given. -/
def required (given : Options) (name : String) : Except Interruption String :=
  match given.value? name with
  | some value => .ok value
  | none => .error .usage

end Options

end Lockbox
