import BraceScript.Config.Toml.Text

/-!
# Numbers in configuration files

A number is a whole word.  What makes a word an integer is its form: a sign or a base, no superfluous zero in front,
and underscores only between digits (`isInteger`).  Its characters are read as digits only when the number is used
(`integerValue?`), so that a word may have the form of an integer and no value.
-/

namespace BraceScript.Toml

/-- The value of a digit in a base of at most sixteen. -/
def digit? (base : Nat) (c : Char) : Option Nat := (hexValue? c).filter (· < base)

def isDigitIn (base : Nat) (c : Char) : Bool := (digit? base c).isSome

/-- A word without its sign. -/
def unsigned : List Char → List Char
  | '+' :: cs => cs
  | '-' :: cs => cs
  | cs => cs

/-- Whether every underscore is followed by a digit, and follows one unless it comes first. -/
def isGrouped (base : Nat) : List Char → Bool
  | [] => true
  | [c] => c ≠ '_'
  | c :: d :: cs => (c ≠ '_' || isDigitIn base d) && (d ≠ '_' || isDigitIn base c) && isGrouped base (d :: cs)

/-- Whether underscores stand only between digits. -/
def hasGroups (base : Nat) (cs : List Char) : Bool := cs.head? ≠ some '_' && isGrouped base cs

/-! ### Integers -/

/-- Whether a word is made of digits of a base and underscores between them; it may be empty. -/
def isBased (base : Nat) (cs : List Char) : Bool :=
  cs.all (fun c => c = '_' || isDigitIn base c) && hasGroups base cs

/-- Whether a character tells that a number is no integer. -/
def marksFraction (c : Char) : Bool := c = '.' || c = 'e' || c = 'E'

/-- Whether a word has the form of a decimal integer: digits without a superfluous zero, which groups of other
characters can follow. -/
def isDecimal (word : List Char) : Bool :=
  let cs := unsigned word
  match cs.dropWhile Char.isDigit with
  | [] => cs = ['0'] || (cs ≠ [] && cs.head? ≠ some '0')
  | '_' :: rest => cs.head? ≠ some '0' && !rest.any (fun c => c = ' ' || marksFraction c) && hasGroups 16 cs
  | _ => false

/-- Whether a word has the form of an integer. -/
def isInteger : List Char → Bool
  | '0' :: 'x' :: cs => isBased 16 cs
  | '0' :: 'o' :: cs => isBased 8 cs
  | '0' :: 'b' :: cs => isBased 2 cs
  | word => isDecimal word

/-- The number with the given digits, at least one, where underscores do not count. -/
def natural? (base : Nat) (cs : List Char) : Option Nat :=
  match (cs.filter (· ≠ '_')).mapM (digit? base) with
  | some (d :: ds) => some ((d :: ds).foldl (fun n d => base * n + d) 0)
  | _ => none

/-- The value of a word that has the form of an integer. -/
def integerValue? : List Char → Option Int
  | '0' :: 'x' :: cs => (natural? 16 cs).map fun n => (n : Int)
  | '0' :: 'o' :: cs => (natural? 8 cs).map fun n => (n : Int)
  | '0' :: 'b' :: cs => (natural? 2 cs).map fun n => (n : Int)
  | '-' :: cs => (natural? 10 cs).map fun n => -(n : Int)
  | word => (natural? 10 (unsigned word)).map fun n => (n : Int)

/-! ### Fractions -/

def isDigitOrGroup (c : Char) : Bool := c.isDigit || c = '_'

/-- Whether there is a digit among the characters. -/
def hasDigit (cs : List Char) : Bool := cs.any Char.isDigit

/-- Whether characters are an exponent with its mark. -/
def isExponent : List Char → Bool
  | c :: cs =>
    (c = 'e' || c = 'E') && hasDigit (unsigned cs) && (unsigned cs).all isDigitOrGroup
  | [] => false

/-- Whether the characters in front of the point or the exponent have a digit and no superfluous zero. -/
def isWhole (cs : List Char) : Bool := hasDigit cs && (cs.head? ≠ some '0' || cs.countP Char.isDigit = 1)

/-- Whether a word has the form of a fraction: a decimal number with decimals, an exponent or both, infinity, or not
a number. -/
def isFraction (word : List Char) : Bool :=
  let cs := unsigned word
  cs = ['i', 'n', 'f'] || cs = ['n', 'a', 'n'] ||
    (hasGroups 10 cs && isWhole (cs.takeWhile isDigitOrGroup) &&
      match cs.dropWhile isDigitOrGroup with
      | '.' :: cs =>
        let rest := cs.dropWhile isDigitOrGroup
        hasDigit (cs.takeWhile isDigitOrGroup) && (rest = [] || isExponent rest)
      | cs => isExponent cs)

end BraceScript.Toml
