/-!
# JSON documents

Documents keep the order of their fields, and numbers are kept as text so that integers of any size and floats in any
layout can be written.  `Json.compact` writes a document on one line and `Json.pretty` indents it.
-/

namespace BraceScript

/-- A JSON document. -/
inductive Json where
  | null
  | bool (b : Bool)
  | number (text : String)
  | string (s : String)
  | array (items : List Json)
  | object (fields : List (String × Json))
deriving Inhabited

namespace Json

def nat (n : Nat) : Json := number (toString n)

def int (n : Int) : Json := number (toString n)

/-- A list of texts. -/
def strings (ss : List String) : Json := array (ss.map string)

/-- The document made from `a` if there is one, else `null`. -/
def option {α : Type} (f : α → Json) (a : Option α) : Json := (a.map f).getD null

/-- The two lower hexadecimal digits of a control character. -/
def hexPair (c : Char) : String :=
  String.ofList [Nat.digitChar (c.toNat / 16), Nat.digitChar (c.toNat % 16)]

/-- A character inside a string literal: quotes, backslashes and control characters are escaped. -/
def escape (c : Char) : String :=
  match c with
  | '"' => "\\\""
  | '\\' => "\\\\"
  | '\n' => "\\n"
  | '\r' => "\\r"
  | '\t' => "\\t"
  | '\x08' => "\\b"
  | '\x0c' => "\\f"
  | c => if c.toNat < 0x20 then "\\u00" ++ hexPair c else c.toString

/-- A string literal. -/
def quote (s : String) : String := s.toList.foldl (fun acc c => acc ++ escape c) "\"" ++ "\""

mutual

/-- The document appended to `acc` without any blanks. -/
def writeTo (acc : String) : Json → String
  | null => acc ++ "null"
  | bool true => acc ++ "true"
  | bool false => acc ++ "false"
  | number text => acc ++ text
  | string s => acc ++ quote s
  | array items => writeItemsTo (acc ++ "[") "" items ++ "]"
  | object fields => writeFieldsTo (acc ++ "\x7b") "" fields ++ "\x7d"

/-- Array items, the first of them after the text `before`. -/
def writeItemsTo (acc before : String) : List Json → String
  | [] => acc
  | item :: items => writeItemsTo (writeTo (acc ++ before) item) "," items

/-- Object fields, the first of them after the text `before`. -/
def writeFieldsTo (acc before : String) : List (String × Json) → String
  | [] => acc
  | (name, item) :: fields => writeFieldsTo (writeTo (acc ++ before ++ quote name ++ ":") item) "," fields

end

/-- The document on one line. -/
def compact (j : Json) : String := writeTo "" j

/-- The start of a line that is indented `depth` times. -/
def newLine (depth : Nat) : String := "\n" ++ String.ofList (List.replicate (2 * depth) ' ')

mutual

/-- The document appended to `acc`, where it stands indented `depth` times. -/
def layOutTo (depth : Nat) (acc : String) : Json → String
  | array [] => acc ++ "[]"
  | array items => layOutItemsTo (depth + 1) (acc ++ "[") "" items ++ newLine depth ++ "]"
  | object [] => acc ++ "\x7b\x7d"
  | object fields => layOutFieldsTo (depth + 1) (acc ++ "\x7b") "" fields ++ newLine depth ++ "\x7d"
  | j => writeTo acc j

/-- Array items, each on a line of its own. -/
def layOutItemsTo (depth : Nat) (acc before : String) : List Json → String
  | [] => acc
  | item :: items => layOutItemsTo depth (layOutTo depth (acc ++ before ++ newLine depth) item) "," items

/-- Object fields, each on a line of its own. -/
def layOutFieldsTo (depth : Nat) (acc before : String) : List (String × Json) → String
  | [] => acc
  | (name, item) :: fields =>
    let acc := acc ++ before ++ newLine depth ++ quote name ++ ": "
    layOutFieldsTo depth (layOutTo depth acc item) "," fields

end

/-- The document over several lines, indented by two blanks for each level. -/
def pretty (j : Json) : String := layOutTo 0 "" j

end Json

end BraceScript
