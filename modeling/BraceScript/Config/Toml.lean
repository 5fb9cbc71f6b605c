import BraceScript.Config.Toml.Moment
import BraceScript.Config.Toml.Number

/-!
# The text of configuration files

Configuration files are written in TOML: comments, table headers, and keys with values.  `Toml.parse?` splits a text
into its lines.  Of the values that no setting has, such as truth values, fractions, dates and times, only the form
is checked; tables in an array are left out, since no configuration has them.
-/

namespace BraceScript.Toml

/-- A key with its dots resolved. -/
abbrev Key := List String

inductive Value where
  | integer (n : Int)
  | string (s : String)
  | array (items : List Value)
  | table (entries : List (Key × Value))
  /-- A truth value, a fraction, a date, a time, or a word that has only the form of an integer. -/
  | other

/-- A line that says something. -/
inductive Line where
  | header (key : Key)
  | entry (key : Key) (value : Value)

/-- How many arrays and inline tables can be inside each other, and how many parts a key can have. -/
def nestingLimit : Nat := 80

/-! ### Keys -/

def isKeyChar (c : Char) : Bool := c.isAlphanum || c = '_' || c = '-'

/-- One part of a key: a word or a string on one line. -/
def keyPart : List Char → Read String
  | '"' :: cs => oneLine '"' true (cs.length + 1) [] cs
  | '\'' :: cs => oneLine '\'' false (cs.length + 1) [] cs
  | cs =>
    match cs.takeWhile isKeyChar with
    | [] => none
    | word => some (String.ofList word, cs.dropWhile isKeyChar)

/-- A key: at most `limit` parts with dots between them. -/
def key : Nat → List Char → Read Key
  | 0, _ => none
  | limit + 1, cs =>
    match keyPart (skipBlanks cs) with
    | none => none
    | some (part, rest) =>
      match skipBlanks rest with
      | '.' :: more =>
        match key limit more with
        | some (parts, rest) => some (part :: parts, rest)
        | none => none
      | rest => some ([part], rest)

/-- Whether two keys cannot stand in the same table: one of them leads to or through the value of the other. -/
def clash (k l : Key) : Bool := k.isPrefixOf l || l.isPrefixOf k

/-- Whether no two keys of a table clash. -/
def isConsistent : List (Key × Value) → Bool
  | [] => true
  | (k, _) :: entries => entries.all (fun e => !clash k e.1) && isConsistent entries

/-! ### Words -/

/-- Whether a character belongs to a word: it does unless it is a blank, a bracket or a mark of its own. -/
def isWordChar (c : Char) : Bool := c ∉ ['=', ',', '[', ']', '\x7b', '\x7d', ' ', '\t', '#', '\r', '\n']

/-- Whether a word can start here: a quote would start a string. -/
def startsWord : List Char → Bool
  | c :: _ => isWordChar c && c ≠ '"' && c ≠ '\''
  | [] => false

/-- A word and the characters after it.  Blanks belong to a word if it goes on after them, since a blank can stand
between a date and a time. -/
def word : List Char → List Char × List Char
  | [] => ([], [])
  | c :: cs =>
    if isWordChar c || (isBlank c && startsWord (skipBlanks cs)) then
      let (w, rest) := word cs
      (c :: w, rest)
    else ([], c :: cs)

def isTruthValue (w : List Char) : Bool := w = ['t', 'r', 'u', 'e'] || w = ['f', 'a', 'l', 's', 'e']

/-- The value that a word stands for. -/
def ofWord? (w : List Char) : Option Value :=
  if isInteger w then some (((integerValue? w).map Value.integer).getD .other)
  else if isTruthValue w || isFraction w || isMoment w then some .other
  else none

/-- A value that has no parts. -/
def scalar (cs : List Char) : Read Value :=
  match string cs with
  | some (s, rest) => some (.string s, rest)
  | none =>
    let (w, rest) := word cs
    (ofWord? w).map fun v => (v, rest)

/-! ### Values and lines -/

/-- The characters after blanks, and inside of an inline table also after comments and line endings. -/
def skipBetween (inline : Bool) (cs : List Char) : List Char :=
  if inline then skipLines (cs.length + 1) cs else skipBlanks cs

mutual

/-- A value with at most `room` arrays and inline tables inside each other. -/
def value : Nat → Nat → List Char → Read Value
  | 0, _, _ => none
  | fuel + 1, room, cs =>
    match cs, room with
    | '[' :: _, 0 => none
    | '[' :: rest, room + 1 => (items fuel room (skipLines fuel rest)).map fun (vs, rest) => (.array vs, rest)
    | '\x7b' :: _, 0 => none
    | '\x7b' :: rest, room + 1 =>
      match entries fuel room (skipLines fuel rest) with
      | some (es, rest) => if isConsistent es then some (.table es, rest) else none
      | none => none
    | cs, _ => scalar cs

/-- The items of an array after its opening bracket. -/
def items : Nat → Nat → List Char → Read (List Value)
  | 0, _, _ => none
  | fuel + 1, room, cs =>
    match cs with
    | ']' :: rest => some ([], rest)
    | _ =>
      match value fuel room cs with
      | none => none
      | some (v, rest) =>
        match skipLines fuel rest with
        | ',' :: more => (items fuel room (skipLines fuel more)).map fun (vs, rest) => (v :: vs, rest)
        | ']' :: more => some ([v], more)
        | _ => none

/-- A key, an equals sign and a value. -/
def entry (inline : Bool) : Nat → Nat → List Char → Read (Key × Value)
  | 0, _, _ => none
  | fuel + 1, room, cs =>
    match key nestingLimit cs with
    | none => none
    | some (k, rest) =>
      match skipBetween inline rest with
      | '=' :: rest => (value fuel room (skipBetween inline rest)).map fun (v, rest) => ((k, v), rest)
      | _ => none

/-- The entries of an inline table after its opening brace. -/
def entries : Nat → Nat → List Char → Read (List (Key × Value))
  | 0, _, _ => none
  | fuel + 1, room, cs =>
    match cs with
    | '\x7d' :: rest => some ([], rest)
    | _ =>
      match entry true fuel room cs with
      | none => none
      | some (e, rest) =>
        match skipLines fuel rest with
        | ',' :: more => (entries fuel room (skipLines fuel more)).map fun (es, rest) => (e :: es, rest)
        | '\x7d' :: more => some ([e], more)
        | _ => none

end

/-- A header or an entry. -/
def line (fuel : Nat) (cs : List Char) : Read Line :=
  match cs with
  | '[' :: rest =>
    match key nestingLimit rest with
    | some (k, ']' :: more) => some (.header k, more)
    | _ => none
  | _ => (entry false fuel nestingLimit cs).map fun ((k, v), rest) => (.entry k v, rest)

/-- The lines of a text. -/
def lines : Nat → List Char → Option (List Line)
  | 0, _ => none
  | fuel + 1, cs =>
    match skipLines fuel cs with
    | [] => some []
    | cs =>
      match lineEnd? cs with
      | some [] => some []
      | _ =>
        match line fuel cs with
        | none => none
        | some (l, rest) =>
          match lineEnd? rest with
          | some more => (lines fuel more).map (l :: ·)
          | none => none

/-- The lines of `text`.  A byte order mark at the start is left out. -/
def parse? (text : String) : Option (List Line) :=
  let cs := text.toList
  let cs := match cs with
    | '\ufeff' :: rest => rest
    | _ => cs
  lines (4 * (cs.length + 1)) cs

end BraceScript.Toml
