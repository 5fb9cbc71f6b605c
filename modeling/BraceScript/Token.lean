import BraceScript.Source

/-!
# Tokens

The vocabulary of the language: reserved words (`Keyword`), punctuation and operators (`Symbol`), and the kinds of
token built from them.  `Keyword.ofWord?` and `Symbol.text` are the tables between kinds and spellings;
`Kind.describe` is the wording used in messages and `Kind.name` the one used in token listings.
-/

namespace BraceScript

/-- A reserved word.  `access` stands for both `pub` and `priv`. -/
inductive Keyword where
  | letKw | constKw | newKw | importKw | fromKw | fnKw | ifKw | elfKw | elsKw | foreachKw | whileKw | forKw
  | exportKw | typeofKw | inKw | nullKw | trueKw | falseKw | structKw | staticKw | access | readonly | ret
deriving DecidableEq, Repr

namespace Keyword

/-- The reserved word spelled `word`, if there is one. -/
def ofWord? (word : String) : Option Keyword :=
  match word with
  | "let" => some letKw
  | "const" => some constKw
  | "new" => some newKw
  | "import" => some importKw
  | "from" => some fromKw
  | "fn" => some fnKw
  | "if" => some ifKw
  | "elf" => some elfKw
  | "els" => some elsKw
  | "foreach" => some foreachKw
  | "while" => some whileKw
  | "for" => some forKw
  | "export" => some exportKw
  | "typeof" => some typeofKw
  | "in" => some inKw
  | "null" => some nullKw
  | "true" => some trueKw
  | "false" => some falseKw
  | "struct" => some structKw
  | "static" => some staticKw
  | "pub" => some access
  | "priv" => some access
  | "readonly" => some readonly
  | "ret" => some ret
  | _ => none

/-- The name of the reserved word in token listings. -/
def name : Keyword → String
  | letKw => "Let"
  | constKw => "Const"
  | newKw => "New"
  | importKw => "Import"
  | fromKw => "From"
  | fnKw => "Fn"
  | ifKw => "If"
  | elfKw => "Elf"
  | elsKw => "Els"
  | foreachKw => "Foreach"
  | whileKw => "While"
  | forKw => "For"
  | exportKw => "Export"
  | typeofKw => "Typeof"
  | inKw => "In"
  | nullKw => "Null"
  | trueKw => "True"
  | falseKw => "False"
  | structKw => "Struct"
  | staticKw => "Static"
  | access => "AccessModifier"
  | readonly => "Readonly"
  | ret => "Ret"

/-- How the reserved word is spelled; `pub` stands for both access modifiers. -/
def word : Keyword → String
  | letKw => "let"
  | constKw => "const"
  | newKw => "new"
  | importKw => "import"
  | fromKw => "from"
  | fnKw => "fn"
  | ifKw => "if"
  | elfKw => "elf"
  | elsKw => "els"
  | foreachKw => "foreach"
  | whileKw => "while"
  | forKw => "for"
  | exportKw => "export"
  | typeofKw => "typeof"
  | inKw => "in"
  | nullKw => "null"
  | trueKw => "true"
  | falseKw => "false"
  | structKw => "struct"
  | staticKw => "static"
  | access => "pub"
  | readonly => "readonly"
  | ret => "ret"

/-- The reserved word as messages call it. -/
def describe : Keyword → String
  | access => "access modifier"
  | k => "keyword `" ++ k.word ++ "`"

@[simp] theorem ofWord?_word (k : Keyword) : ofWord? k.word = some k := by cases k <;> rfl

end Keyword

/-- Punctuation and operators. -/
inductive Symbol where
  | lBracket | rBracket | lBrace | rBrace | lParen | rParen
  | equals | notEquals | assign | define | not | lessEquals | less | greaterEquals | greater | or | and
  | dotDot | dot | semicolon | colon | arrow | question | comma
  | plusPlus | minusMinus | plusAssign | minusAssign | starAssign | slashAssign | percentAssign
  | plus | minus | slash | star | percent
deriving DecidableEq, Repr

namespace Symbol

/-- The spelling of the symbol. -/
def text : Symbol → String
  | lBracket => "["
  | rBracket => "]"
  | lBrace => "\x7b"
  | rBrace => "\x7d"
  | lParen => "("
  | rParen => ")"
  | equals => "=="
  | notEquals => "!="
  | assign => "="
  | define => ":="
  | not => "!"
  | lessEquals => "<="
  | less => "<"
  | greaterEquals => ">="
  | greater => ">"
  | or => "||"
  | and => "&&"
  | dotDot => ".."
  | dot => "."
  | semicolon => ";"
  | colon => ":"
  | arrow => "->"
  | question => "?"
  | comma => ","
  | plusPlus => "++"
  | minusMinus => "--"
  | plusAssign => "+="
  | minusAssign => "-="
  | starAssign => "*="
  | slashAssign => "/="
  | percentAssign => "%="
  | plus => "+"
  | minus => "-"
  | slash => "/"
  | star => "*"
  | percent => "%"

/-- The name of the symbol in token listings. -/
def name : Symbol → String
  | lBracket => "LBracket"
  | rBracket => "RBracket"
  | lBrace => "LBrace"
  | rBrace => "RBrace"
  | lParen => "LParen"
  | rParen => "RParen"
  | equals => "Equals"
  | notEquals => "NotEquals"
  | assign => "Assign"
  | define => "Walrus"
  | not => "Not"
  | lessEquals => "LessEquals"
  | less => "Less"
  | greaterEquals => "GreaterEquals"
  | greater => "Greater"
  | or => "Or"
  | and => "And"
  | dotDot => "DotDot"
  | dot => "Dot"
  | semicolon => "Semicolon"
  | colon => "Colon"
  | arrow => "Arrow"
  | question => "Question"
  | comma => "Comma"
  | plusPlus => "PlusPlus"
  | minusMinus => "MinusMinus"
  | plusAssign => "PlusAssign"
  | minusAssign => "MinusAssign"
  | starAssign => "StarAssign"
  | slashAssign => "SlashAssign"
  | percentAssign => "PercentAssign"
  | plus => "Plus"
  | minus => "Minus"
  | slash => "Slash"
  | star => "Star"
  | percent => "Percent"

/-- The symbol made of the characters `c` and `d` in this order. -/
def ofPair? (c d : Char) : Option Symbol :=
  match c, d with
  | '=', '=' => some equals
  | '!', '=' => some notEquals
  | ':', '=' => some define
  | '<', '=' => some lessEquals
  | '>', '=' => some greaterEquals
  | '|', '|' => some or
  | '&', '&' => some and
  | '.', '.' => some dotDot
  | '-', '>' => some arrow
  | '+', '+' => some plusPlus
  | '-', '-' => some minusMinus
  | '+', '=' => some plusAssign
  | '-', '=' => some minusAssign
  | '*', '=' => some starAssign
  | '/', '=' => some slashAssign
  | '%', '=' => some percentAssign
  | _, _ => none

/-- The symbol made of the single character `c`. -/
def ofChar? (c : Char) : Option Symbol :=
  match c with
  | '[' => some lBracket
  | ']' => some rBracket
  | '\x7b' => some lBrace
  | '\x7d' => some rBrace
  | '(' => some lParen
  | ')' => some rParen
  | '=' => some assign
  | '!' => some not
  | '<' => some less
  | '>' => some greater
  | '.' => some dot
  | ';' => some semicolon
  | ':' => some colon
  | '?' => some question
  | ',' => some comma
  | '+' => some plus
  | '-' => some minus
  | '/' => some slash
  | '*' => some star
  | '%' => some percent
  | _ => none

end Symbol

/-- The kind of a token. -/
inductive Kind where
  | number
  | string
  | char
  | ident
  | symbol (s : Symbol)
  | keyword (k : Keyword)
  | eof
deriving DecidableEq, Repr

namespace Kind

/-- The name of the kind in token listings. -/
def name : Kind → String
  | number => "Number"
  | string => "String"
  | char => "Char"
  | ident => "Identifier"
  | symbol s => s.name
  | keyword k => k.name
  | eof => "Eof"

/-- The kind as messages call it. -/
def describe : Kind → String
  | number => "number"
  | string => "string"
  | char => "character"
  | ident => "identifier"
  | symbol s => "`" ++ s.text ++ "`"
  | keyword k => k.describe
  | eof => "end of file"

def isKeyword : Kind → Bool
  | keyword _ => true
  | _ => false

/-- The fixed spelling of punctuation and operators. -/
def symbolText? : Kind → Option String
  | symbol s => some s.text
  | _ => none

end Kind

/-- A token: its kind, its text and where it stands.  The text of a string or a character is what stands between the
quotes. -/
structure Token where
  kind : Kind
  text : String
  span : Span
deriving DecidableEq, Repr

namespace Token

/-- The token as token listings show it: the name of its kind, followed by its text where the kind leaves it open. -/
def display (t : Token) : String :=
  match t.kind with
  | .number | .ident | .string | .char => t.kind.name ++ "(" ++ t.text ++ ")"
  | k => k.name

/-- The token that ends every token list, standing at `p`. -/
def eofAt (p : Position) : Token := ⟨.eof, "", ⟨p, p⟩⟩

end Token

end BraceScript
