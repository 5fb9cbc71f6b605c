/-!
# Blanks and strings in configuration files

Readers take the characters ahead and yield what they read with the characters after it.  A string is written on one
line or over several; on several lines, a line ending right after the opening quotes is left out, and all others are
kept as they are written.
-/

namespace BraceScript.Toml

/-- Something read, and the characters after it. -/
abbrev Read (α : Type) := Option (α × List Char)

/-! ### Blanks -/

def isBlank (c : Char) : Bool := c = ' ' || c = '\t'

def skipBlanks (cs : List Char) : List Char := cs.dropWhile isBlank

/-- Whether a character may stand in a comment or a string. -/
def isPlain (c : Char) : Bool := c = '\t' || (0x20 ≤ c.toNat && c ≠ '\x7f')

/-- The characters after a line ending. -/
def newline? : List Char → Option (List Char)
  | '\n' :: cs => some cs
  | '\r' :: '\n' :: cs => some cs
  | _ => none

/-- The characters after blanks and a comment, if there are any. -/
def skipComment (cs : List Char) : List Char :=
  match skipBlanks cs with
  | '#' :: cs => cs.dropWhile isPlain
  | cs => cs

/-- The characters after the end of the line, where nothing but a comment may come before. -/
def lineEnd? (cs : List Char) : Option (List Char) :=
  match skipComment cs with
  | [] => some []
  | cs => newline? cs

/-- The characters after blanks, comments and line endings. -/
def skipLines : Nat → List Char → List Char
  | 0, cs => cs
  | fuel + 1, cs =>
    match newline? (skipComment cs) with
    | some rest => skipLines fuel rest
    | none => skipBlanks cs

/-- The characters after blanks and line endings. -/
def skipEmpty : List Char → List Char
  | '\n' :: cs => skipEmpty cs
  | '\r' :: '\n' :: cs => skipEmpty cs
  | c :: cs => if isBlank c then skipEmpty cs else c :: cs
  | [] => []

/-! ### Strings -/

def hexValue? (c : Char) : Option Nat :=
  if c.isDigit then some (c.toNat - '0'.toNat)
  else if 'a' ≤ c ∧ c ≤ 'f' then some (c.toNat - 'a'.toNat + 10)
  else if 'A' ≤ c ∧ c ≤ 'F' then some (c.toNat - 'A'.toNat + 10)
  else none

/-- The character whose code is written in `count` hexadecimal digits. -/
def codePoint (count : Nat) (cs : List Char) : Read Char :=
  match (cs.take count).mapM hexValue? with
  | some ds =>
    let n := ds.foldl (fun n d => 16 * n + d) 0
    if ds.length = count ∧ n.isValidChar then some (Char.ofNat n, cs.drop count) else none
  | none => none

/-- The character that follows a backslash in an escape. -/
def escaped : List Char → Read Char
  | 'b' :: cs => some ('\x08', cs)
  | 't' :: cs => some ('\t', cs)
  | 'n' :: cs => some ('\n', cs)
  | 'f' :: cs => some ('\x0c', cs)
  | 'r' :: cs => some ('\r', cs)
  | 'e' :: cs => some ('\x1b', cs)
  | '"' :: cs => some ('"', cs)
  | '\\' :: cs => some ('\\', cs)
  | 'x' :: cs => codePoint 2 cs
  | 'u' :: cs => codePoint 4 cs
  | 'U' :: cs => codePoint 8 cs
  | _ => none

/-- The characters after a backslash that ends a line: all blanks and line endings are skipped. -/
def continued? (cs : List Char) : Option (List Char) := (newline? (skipBlanks cs)).map skipEmpty

/-- A string on one line up to the quote `q`; escapes count if `escapes`.  The characters read so far are `done`,
last first. -/
def oneLine (q : Char) (escapes : Bool) : Nat → List Char → List Char → Read String
  | 0, _, _ => none
  | _ + 1, _, [] => none
  | fuel + 1, done, c :: cs =>
    if c = q then some (String.ofList done.reverse, cs)
    else if escapes && c = '\\' then
      match escaped cs with
      | some (d, rest) => oneLine q escapes fuel (d :: done) rest
      | none => none
    else if isPlain c then oneLine q escapes fuel (c :: done) cs
    else none

/-- A string over several lines up to three quotes `q`.  Up to two more quotes right before them belong to the
string. -/
def manyLines (q : Char) (escapes : Bool) : Nat → List Char → List Char → Read String
  | 0, _, _ => none
  | _ + 1, _, [] => none
  | fuel + 1, done, c :: cs =>
    if c = q then
      let run := (c :: cs).takeWhile (· = q)
      let rest := (c :: cs).drop run.length
      if run.length < 3 then manyLines q escapes fuel (run ++ done) rest
      else if run.length ≤ 5 then some (String.ofList (run.drop 3 ++ done).reverse, rest)
      else none
    else if escapes && c = '\\' then
      match escaped cs, continued? cs with
      | some (d, rest), _ => manyLines q escapes fuel (d :: done) rest
      | none, some rest => manyLines q escapes fuel done rest
      | none, none => none
    else if isPlain c || (newline? (c :: cs)).isSome then manyLines q escapes fuel (c :: done) cs
    else none

/-- The text of a string over several lines after its opening quotes; a line ending right after them is left out. -/
def afterOpening (cs : List Char) : List Char := (newline? cs).getD cs

/-- A string of any form. -/
def string : List Char → Read String
  | '"' :: '"' :: '"' :: cs => manyLines '"' true (cs.length + 1) [] (afterOpening cs)
  | '\'' :: '\'' :: '\'' :: cs => manyLines '\'' false (cs.length + 1) [] (afterOpening cs)
  | '"' :: cs => oneLine '"' true (cs.length + 1) [] cs
  | '\'' :: cs => oneLine '\'' false (cs.length + 1) [] cs
  | _ => none

end BraceScript.Toml
