import ReducedMips.Word
/-!
# Arguments

A command line names a command, its positional arguments and its options. An option may be given
once. It is written by its long name, with its value in the next argument or after `=`, or by its
letter, with its value in the next argument or joined to it; letters of flags may be joined to the
letter that follows. The next argument is a value only if it does not look like an option. After
`--` all arguments are positional. Help is not asked for.
-/
namespace ReducedMips.CommandLine

inductive OptionName where
  | config
  | maxSteps
  | memoryWords
  | outDir
  | trace
  | json
  deriving DecidableEq, Repr

namespace OptionName

def all : List OptionName := [.config, .maxSteps, .memoryWords, .outDir, .trace, .json]

def long : OptionName → String
  | .config => "config"
  | .maxSteps => "max-steps"
  | .memoryWords => "memory-words"
  | .outDir => "out-dir"
  | .trace => "trace"
  | .json => "json"

def letter? : OptionName → Option Char
  | .config => some 'c'
  | .maxSteps => some 'm'
  | .outDir => some 'o'
  | .trace => some 't'
  | .memoryWords | .json => none

/-- A flag is given or not; any other option has a value. -/
def isFlag : OptionName → Bool
  | .trace | .json => true
  | _ => false

end OptionName

/-- An option with its value, which is empty for a flag. -/
structure GivenOption where
  name : OptionName
  value : String
  deriving DecidableEq, Repr

/-- What one argument comes to. -/
inductive Argument where
  | positional
  | options (given : List GivenOption)
  /-- The value of the last option is the next argument. -/
  | awaiting (given : List GivenOption) (name : OptionName)
  deriving DecidableEq, Repr

/-- An option written by its long name, without the two dashes. -/
def longOption? (known : List OptionName) (text : List Char) : Option Argument := do
  let key := String.ofList (text.takeWhile (· != '='))
  let name ← known.find? (·.long = key)
  match text.dropWhile (· != '='), name.isFlag with
  | [], true => return .options [{ name, value := "" }]
  | [], false => return .awaiting [] name
  | _ :: _, true => none
  | _ :: value, false => return .options [{ name, value := String.ofList value }]

/-- Options written by their letters, without the dash. -/
def letterOptions? (known : List OptionName) : List Char → Option Argument
  | [] => some (.options [])
  | c :: rest => do
    let name ← known.find? (·.letter? = some c)
    if name.isFlag then
      let flag : GivenOption := { name, value := "" }
      match ← letterOptions? known rest with
      | .options given => return .options (flag :: given)
      | .awaiting given last => return .awaiting (flag :: given) last
      | .positional => none
    else
      match rest with
      | [] => return .awaiting [] name
      | '=' :: value => return .options [{ name, value := String.ofList value }]
      | value => return .options [{ name, value := String.ofList value }]

/-- A single dash is no option. -/
def looksLikeOption (argument : String) : Bool :=
  match argument.toList with
  | '-' :: _ :: _ => true
  | _ => false

def argument? (known : List OptionName) (argument : String) : Option Argument :=
  match argument.toList with
  | '-' :: '-' :: text => longOption? known text
  | '-' :: c :: text => letterOptions? known (c :: text)
  | _ => some .positional

/-- The arguments of a command, told apart. -/
structure Parsed where
  positional : List String
  options : List GivenOption

/-- Tell the arguments of a command apart by the options that it knows. -/
def parse? (known : List OptionName) : List String → Option Parsed
  | [] => some { positional := [], options := [] }
  | "--" :: rest => some { positional := rest, options := [] }
  | argument :: rest => do
    match ← argument? known argument with
    | .positional =>
      let parsed ← parse? known rest
      return { parsed with positional := argument :: parsed.positional }
    | .options given =>
      let parsed ← parse? known rest
      return { parsed with options := given ++ parsed.options }
    | .awaiting given name =>
      match rest with
      | [] => none
      | value :: rest =>
        if looksLikeOption value then none
        else
          let parsed ← parse? known rest
          return { parsed with options := given ++ { name, value } :: parsed.options }

namespace Parsed

/-- The value of an option, if it is given; it must not be given twice. -/
def value? (p : Parsed) (name : OptionName) : Option (Option String) :=
  match p.options.filter (·.name = name) with
  | [] => some none
  | [given] => some (some given.value)
  | _ => none

/-- The value of an option, read by a reader that may refuse it. -/
def read? (p : Parsed) (name : OptionName) (reader : String → Option α) :
    Option (Option α) := do
  match ← p.value? name with
  | none => return none
  | some text => return some (← reader text)

end Parsed

/-- A path must not be empty. -/
def path? (text : String) : Option String := if text.isEmpty then none else some text

/-- A number that a count can hold, in decimal digits, which may follow a plus sign. -/
def number? (text : String) : Option Count :=
  let digits := match text.toList with
    | '+' :: digits => digits
    | digits => digits
  let value := Nat.ofDigitChars 10 digits 0
  if digits ≠ [] ∧ digits.all Char.isDigit ∧ value ≤ Count.top then some (.ofNat 64 value) else none

structure RunRequest where
  program : String
  memory : String
  config : Option String
  maxSteps : Option Count
  memoryWords : Option Count
  outDir : Option String
  trace : Bool
  json : Bool
  deriving DecidableEq

inductive Request where
  | version
  | run (request : RunRequest)
  | disassemble (program : String)
  deriving DecidableEq

namespace Request

def parseRun? (arguments : List String) : Option RunRequest := do
  let parsed ← CommandLine.parse? OptionName.all arguments
  match parsed.positional with
  | [program, memory] =>
    return {
      program := ← path? program
      memory := ← path? memory
      config := ← parsed.read? .config path?
      maxSteps := ← parsed.read? .maxSteps number?
      memoryWords := ← parsed.read? .memoryWords number?
      outDir := ← parsed.read? .outDir path?
      trace := (← parsed.value? .trace).isSome
      json := (← parsed.value? .json).isSome }
  | _ => none

def parseDisassemble? (arguments : List String) : Option String := do
  match (← CommandLine.parse? [] arguments).positional with
  | [program] => path? program
  | _ => none

/-- The request that a command line makes, if it is well formed. The version is asked for before
any command, and then nothing else matters. -/
def parse? : List String → Option Request
  | "run" :: arguments => (parseRun? arguments).map .run
  | "disasm" :: arguments => (parseDisassemble? arguments).map .disassemble
  | "--version" :: _ => some .version
  | first :: _ =>
    match first.toList with
    | '-' :: 'V' :: _ => some .version
    | _ => none
  | [] => none

end Request

end ReducedMips.CommandLine
