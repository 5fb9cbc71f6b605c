/-!
# Command-line arguments

A command line names a command and a file, with options before, between or after them.  `Request.ofArgs` reads it
from left to right; the first thing that settles the outcome wins, be it a mistake or a request for help.  The
command `help` names the command that it is about, and nothing else.
-/

namespace BraceScript

/-- How diagnostics are shown. -/
inductive Format where
  | human | fancy | json
deriving DecidableEq, Repr

def Format.ofName? : String → Option Format
  | "human" => some human
  | "fancy" => some fancy
  | "json" => some json
  | _ => none

/-- What can be done with a file. -/
inductive Command where
  | run | check | parse | tokens
deriving DecidableEq, Repr

namespace Command

def all : List Command := [run, check, parse, tokens]

def name : Command → String
  | run => "run"
  | check => "check"
  | parse => "parse"
  | tokens => "tokens"

def ofName? (name : String) : Option Command := all.find? (·.name = name)

/-- Whether the command shows diagnostics in a chosen format. -/
def hasFormat : Command → Bool
  | run | check => true
  | parse | tokens => false

/-- Whether the command uses a configuration. -/
def hasConfig : Command → Bool
  | run => true
  | _ => false

end Command

/-- What has been said about a command. -/
structure Options where
  file : Option String
  format : Option Format
  config : Option String
  verbose : Bool
deriving DecidableEq, Repr

/-- What help is about. -/
inductive Topic where
  | program
  | command (c : Command)
  | help
deriving DecidableEq, Repr

/-- What a command line asks for. -/
inductive Request where
  | perform (command : Command) (file : String) (format : Format) (config : Option String)
  | version
  | help (topic : Topic)
  | misuse
deriving DecidableEq, Repr

namespace Arguments

/-- An option that takes a value. -/
inductive Setting where
  | format | config
deriving DecidableEq, Repr

/-- How far the arguments of a command have been read: the option whose value comes next, if any, and whether only
files can follow. -/
structure State where
  options : Options
  pending : Option Setting
  filesOnly : Bool

def State.initial : State := ⟨⟨none, none, none, false⟩, none, false⟩

/-- The options with the file, which can be named once. -/
def addFile (o : Options) (file : String) : Except Request Options :=
  match o.file with
  | none => .ok { o with file := some file }
  | some _ => .error .misuse

/-- The options with a value, which can be given once. -/
def addValue (o : Options) (setting : Setting) (value : String) : Except Request Options :=
  match setting, o.format, Format.ofName? value, o.config with
  | .format, none, some f, _ => .ok { o with format := some f }
  | .config, _, _, none => .ok { o with config := some value }
  | _, _, _, _ => .error .misuse

/-- The options with verbosity, which can be asked for once. -/
def addVerbose (o : Options) : Except Request Options :=
  if o.verbose then .error .misuse else .ok { o with verbose := true }

/-- The option with a value that a command knows under a name. -/
def settingNamed (c : Command) (long : String) : Option Setting :=
  if long = "format" ∧ c.hasFormat then some .format
  else if long = "config" ∧ c.hasConfig then some .config
  else none

/-- The option with a value that a command knows under a letter. -/
def settingLettered (c : Command) (letter : Char) : Option Setting :=
  if letter = 'f' then settingNamed c "format" else if letter = 'c' then settingNamed c "config" else none

/-- An option written out, after its two dashes: a name and perhaps an equals sign and a value. -/
def long (c : Command) (s : State) (text : List Char) : Except Request State :=
  let name := String.ofList (text.takeWhile (· ≠ '='))
  match settingNamed c name, text.dropWhile (· ≠ '=') with
  | some setting, '=' :: value => do
    return { s with options := ← addValue s.options setting (String.ofList value) }
  | some setting, _ => .ok { s with pending := some setting }
  | none, [] =>
    if name = "help" then .error (.help (.command c))
    else if name = "verbose" then do return { s with options := ← addVerbose s.options }
    else .error .misuse
  | none, _ => .error .misuse

/-- Options of one letter each, after their dash.  The rest of the text after an option with a value is the value. -/
def short (c : Command) (s : State) : List Char → Except Request State
  | [] => .ok s
  | letter :: rest =>
    match settingLettered c letter, rest with
    | some setting, [] => .ok { s with pending := some setting }
    | some setting, '=' :: value => do
      return { s with options := ← addValue s.options setting (String.ofList value) }
    | some setting, value => do
      return { s with options := ← addValue s.options setting (String.ofList value) }
    | none, _ =>
      if letter = 'h' then .error (.help (.command c))
      else if letter = 'v' then do
        let options ← addVerbose s.options
        short c { s with options } rest
      else .error .misuse

/-- Whether an argument is an option by its look. -/
def isOption (arg : List Char) : Bool :=
  match arg with
  | '-' :: _ :: _ => true
  | _ => false

/-- One argument of a command. -/
def step (c : Command) (s : State) (arg : String) : Except Request State :=
  let cs := arg.toList
  match s.pending with
  | some setting =>
    if isOption cs then .error .misuse
    else do return { s with options := ← addValue s.options setting arg, pending := none }
  | none =>
    if s.filesOnly || !isOption cs then do return { s with options := ← addFile s.options arg }
    else
      match cs with
      | ['-', '-'] => .ok { s with filesOnly := true }
      | '-' :: '-' :: text => long c s text
      | text => short c s (text.drop 1)

/-- The request that the arguments of a command amount to. -/
def complete (c : Command) (s : State) : Request :=
  match s.pending, s.options.file with
  | none, some file => .perform c file (s.options.format.getD .human) s.options.config
  | _, _ => .misuse

/-- The request made by a command and its arguments. -/
def ofCommand (c : Command) (args : List String) : Request :=
  match args.foldlM (step c) State.initial with
  | .ok s => complete c s
  | .error r => r

/-- Flags of one letter each in front of the command, the first of which are `verbose` if already given. -/
def flags (verbose : Bool) : List Char → Except Request Bool
  | [] => .ok verbose
  | 'v' :: rest => if verbose then .error .misuse else flags true rest
  | 'V' :: _ => .error .version
  | 'h' :: _ => .error (.help .program)
  | _ => .error .misuse

/-- The request made by `help` and its arguments. -/
def ofHelp : List String → Request
  | [] => .help .program
  | ["help"] => .help .help
  | [name] => ((Command.ofName? name).map fun c => .help (.command c)).getD .misuse
  | _ => .misuse

end Arguments

/-- The request made by the arguments, where verbosity may already have been asked for. -/
def Request.ofArgsAfter (verbose : Bool) : List String → Request
  | [] => .misuse
  | arg :: args =>
    match arg with
    | "--version" => .version
    | "--help" => .help .program
    | "help" => Arguments.ofHelp args
    | "--verbose" => if verbose then .misuse else ofArgsAfter true args
    | _ =>
      match Command.ofName? arg, arg.toList with
      | some c, _ => Arguments.ofCommand c args
      | none, '-' :: letter :: letters =>
        match Arguments.flags verbose (letter :: letters) with
        | .ok verbose => ofArgsAfter verbose args
        | .error r => r
      | none, _ => .misuse

/-- The request made by the arguments of the program. -/
def Request.ofArgs (args : List String) : Request := ofArgsAfter false args

end BraceScript
