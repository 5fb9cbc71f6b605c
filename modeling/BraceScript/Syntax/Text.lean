import BraceScript.Syntax
import BraceScript.Number.Layout

/-!
# The text of an expression

`Expr.text` writes an expression with one pair of parentheses for every operator, so that the text shows the tree.
`Stmt.headText?` is the text of the expressions that a statement starts with.
-/

namespace BraceScript

def Literal.text : Literal → String
  | integer value _ => toString value
  | float value _ => Layout.tagged.write value
  | string value => "\"" ++ value ++ "\""
  | character value => "'" ++ value.toString ++ "'"
  | boolean true => "true"
  | boolean false => "false"
  | null => "null"

namespace Expr

mutual

/-- The expression, fully parenthesised. -/
def text : Expr → String
  | ident id => id.name
  | literal value _ => value.text
  | unary op operand .before _ => "(" ++ op.value.symbol ++ operand.text ++ ")"
  | unary op operand .after _ => "(" ++ operand.text ++ op.value.symbol ++ ")"
  | binary op left right _ => "(" ++ left.text ++ " " ++ op.value.symbol ++ " " ++ right.text ++ ")"
  | assign target op value _ => "(" ++ target.text ++ " " ++ op.value.symbol ++ " " ++ value.text ++ ")"
  | call callee arguments _ => callee.name ++ "(" ++ listText "" arguments ++ ")"
  | build name fields _ => name.name ++ " \x7b" ++ fieldsText " " fields ++ " \x7d"
  | property object name _ => object.text ++ "." ++ name.name
  | array elements _ _ => "[" ++ listText "" elements ++ "]"
  | index base position _ => base.name ++ "[" ++ position.text ++ "]"

/-- Expressions separated by commas, the first one after the text `before`. -/
def listText (before : String) : List Expr → String
  | [] => ""
  | e :: es => before ++ e.text ++ listText ", " es

/-- Named fields separated by commas, the first one after the text `before`. -/
def fieldsText (before : String) : List (Ident × Expr) → String
  | [] => ""
  | (name, e) :: fields => before ++ name.name ++ ": " ++ e.text ++ fieldsText ", " fields

end

end Expr

/-- The expressions at the head of a statement: the expression itself, the initialiser, the returned value, the
condition, the three parts of a `for`, or what is iterated over. -/
def Stmt.headText? : Stmt → Option String
  | expression e _ => some e.text
  | declare d => d.value.map Expr.text
  | ret value _ => value.map Expr.text
  | branch s => some s.condition.text
  | whileLoop condition _ _ => some condition.text
  | forLoop _ init condition post _ _ => some (init.text ++ "; " ++ condition.text ++ "; " ++ post.text)
  | foreach _ _ iterable _ _ => some iterable.text
  | block _ | function _ | struct _ | imports _ => none

end BraceScript
