import BraceScript.Config.Toml

/-!
# Configuration

A configuration limits the depth of calls and disables built-in functions.  It is read from a text with the tables
`interpreter` and `builtins` (`Config.ofToml`); nothing else may stand in it, and each of the tables and settings
only once.
-/

namespace BraceScript

/-- The settings for running programs. -/
structure Config where
  maxCallDepth : Nat
  disabled : List String
deriving DecidableEq, Repr

/-- Why a configuration cannot be used. -/
inductive ConfigError where
  | read (path reason : String)
  | parse (path : String)
  | depthOutOfRange (path : String) (found : Nat)
deriving DecidableEq, Repr

namespace Config

/-- The name of the configuration file next to a script. -/
def fileName : String := "walrus.toml"

def defaultDepth : Nat := 64

/-- The largest depth that can be set. -/
def depthLimit : Nat := 1024

def default : Config := ⟨defaultDepth, []⟩

/-- The depth that a requested one amounts to. -/
def clampDepth (n : Nat) : Nat := min (max n 1) depthLimit

end Config

def ConfigError.message : ConfigError → String
  | read path reason => "failed to read " ++ path ++ ": " ++ reason
  | parse path => "failed to parse " ++ path ++ ": not a configuration"
  | depthOutOfRange path found =>
    "invalid " ++ path ++ ": `interpreter.max_call_depth` must be between 1 and " ++ toString Config.depthLimit
      ++ ", found " ++ toString found

namespace Config

/-- One table of a configuration, with the one setting that it can have.  The table is `closed` when it was written
with a header or as a value, so that dotted keys cannot add to it; it is `present` when it was written at all. -/
structure Table (α : Type) where
  present : Bool
  closed : Bool
  setting : Option α

namespace Table

variable {α : Type}

/-- A table that has not been written. -/
def absent : Table α := ⟨false, false, none⟩

/-- The table with its setting given, which must not have been given before. -/
def give (t : Table α) (a : α) : Option (Table α) :=
  match t.setting with
  | some _ => none
  | none => some { t with present := true, setting := some a }

/-- The entries of a table whose setting is called `name` and read by `read`. -/
def giveAll (name : String) (read : Toml.Value → Option α) (t : Table α) :
    List (Toml.Key × Toml.Value) → Option (Table α)
  | [] => some t
  | (key, v) :: entries =>
    if key = [name] then (read v).bind fun a => (t.give a).bind fun t => giveAll name read t entries else none

/-- A whole table as a value: an inline table, or an array with the setting as its first item. -/
def ofValue (name : String) (read : Toml.Value → Option α) : Toml.Value → Option (Table α)
  | .table entries => giveAll name read ⟨true, true, none⟩ entries
  | .array [] => some ⟨true, true, none⟩
  | .array (v :: _) => (read v).map fun a => ⟨true, true, some a⟩
  | _ => none

/-- An entry for the table, given outside of it: `key` is what follows the name of the table. -/
def giveAt (name : String) (read : Toml.Value → Option α) (t : Table α) (key : Toml.Key) (v : Toml.Value) :
    Option (Table α) :=
  match key with
  | [] => if t.present then none else ofValue name read v
  | _ => if t.closed then none else giveAll name read t [(key, v)]

/-- The table opened by a header. -/
def opened (t : Table α) : Option (Table α) := if t.present then none else some ⟨true, true, none⟩

end Table

/-- The two tables as far as they have been read. -/
structure Draft where
  interpreter : Table Nat
  builtins : Table (List String)

/-- A depth as it is written: any natural number of 64 bits. -/
def readDepth : Toml.Value → Option Nat
  | .integer n => if 0 ≤ n ∧ n < 18446744073709551616 then some n.toNat else none
  | _ => none

def readName : Toml.Value → Option String
  | .string s => some s
  | _ => none

/-- A list of names. -/
def readNames : Toml.Value → Option (List String)
  | .array items => items.mapM readName
  | _ => none

namespace Draft

def empty : Draft := ⟨.absent, .absent⟩

/-- An entry at the top level. -/
def addEntry (d : Draft) (key : Toml.Key) (v : Toml.Value) : Option Draft :=
  match key with
  | "interpreter" :: rest =>
    (d.interpreter.giveAt "max_call_depth" readDepth rest v).map fun t => { d with interpreter := t }
  | "builtins" :: rest => (d.builtins.giveAt "disabled" readNames rest v).map fun t => { d with builtins := t }
  | _ => none

/-- An entry under `header`. -/
def addUnder (d : Draft) (header : Toml.Key) (key : Toml.Key) (v : Toml.Value) : Option Draft :=
  match header with
  | ["interpreter"] =>
    (d.interpreter.giveAll "max_call_depth" readDepth [(key, v)]).map fun t => { d with interpreter := t }
  | ["builtins"] => (d.builtins.giveAll "disabled" readNames [(key, v)]).map fun t => { d with builtins := t }
  | _ => none

/-- A table opened by a header. -/
def addHeader (d : Draft) (header : Toml.Key) : Option Draft :=
  match header with
  | ["interpreter"] => d.interpreter.opened.map fun t => { d with interpreter := t }
  | ["builtins"] => d.builtins.opened.map fun t => { d with builtins := t }
  | _ => none

/-- The draft after all lines, the first of which stand under `header`. -/
def addLines (d : Draft) (header : Toml.Key) : List Toml.Line → Option Draft
  | [] => some d
  | .header key :: rest => (d.addHeader key).bind fun d => d.addLines key rest
  | .entry key v :: rest =>
    (if header = [] then d.addEntry key v else d.addUnder header key v).bind fun d => d.addLines header rest

end Draft

/-- The configuration in `text`, which comes from the file `path`. -/
def ofToml (text path : String) : Except ConfigError Config :=
  match (Toml.parse? text).bind (Draft.empty.addLines []) with
  | none => .error (.parse path)
  | some d =>
    let depth := d.interpreter.setting.getD defaultDepth
    if 1 ≤ depth ∧ depth ≤ depthLimit then .ok ⟨depth, d.builtins.setting.getD []⟩
    else .error (.depthOutOfRange path depth)

end Config

end BraceScript
