import BraceScript.Syntax
import BraceScript.Number.Layout
import BraceScript.Json

/-!
# Syntax trees as documents

`Program.toJson` writes a program as a JSON document in which every node is tagged with its name.  How numbers are
written is left open by `NumberForm`.
-/

namespace BraceScript

/-- How the values of number literals are written. -/
structure NumberForm where
  integer : Int → Json
  float : Float → Json

namespace NumberForm

/-- Numbers as JSON numbers.  There is none for an infinite value. -/
def bare : NumberForm where
  integer := Json.int
  float x := if x.isFinite then .number (Layout.json.write x) else .null

/-- Numbers as strings, except that an infinite value is `null`. -/
def quoted : NumberForm where
  integer n := .string (toString n)
  float x := if x.isFinite then .string (Layout.tagged.write x) else .null

end NumberForm

/-- The document `content` under the name `name`. -/
def Json.tagged (name : String) (content : Json) : Json := .object [(name, content)]

def Position.toJson (p : Position) : Json :=
  .object [("line", .nat p.line), ("column", .nat p.column), ("offset", .nat p.offset)]

def Span.toJson (s : Span) : Json := .object [("start", s.start.toJson), ("end", s.stop.toJson)]

def Ident.toJson (id : Ident) : Json := .object [("name", .string id.name), ("span", id.span.toJson)]

def Ty.toJson : Ty → Json
  | integer t => .tagged "Integer" (.object [("bits", .nat t.width.bits), ("signed", .bool t.signed)])
  | float t => .tagged "Float" (.object [("bits", .nat t.bits)])
  | boolean => .string "Boolean"
  | string => .string "String"
  | character => .string "Character"
  | null => .string "Null"
  | array element => .tagged "Array" element.toJson
  | void => .string "Void"

def UnaryOp.name : UnaryOp → String
  | plus => "Plus"
  | minus => "Minus"
  | not => "Not"
  | increment => "Increment"
  | decrement => "Decrement"

def ArithOp.name : ArithOp → String
  | add => "Add"
  | sub => "Subtract"
  | mul => "Multiply"
  | div => "Divide"
  | mod => "Modulo"

def Comparison.name : Comparison → String
  | less => "Less"
  | lessEqual => "LessEqual"
  | greater => "Greater"
  | greaterEqual => "GreaterEqual"

def BinaryOp.name : BinaryOp → String
  | arith op => op.name
  | compare op => op.name
  | equal => "Equal"
  | notEqual => "NotEqual"
  | and => "And"
  | or => "Or"
  | range => "Range"

def AssignOp.name : AssignOp → String
  | set => "Assign"
  | update op => op.name

/-- Something located, its value written by `f`. -/
def Located.toJson {α : Type} (f : α → Json) (l : Located α) : Json :=
  .object [("value", f l.value), ("span", l.span.toJson)]

def Literal.toJson (form : NumberForm) (span : Span) : Literal → Json
  | integer value width => number (.tagged "Integer" (form.integer value)) width.bits
  | float value type => number (.tagged "Float" (form.float value)) type.bits
  | string value => plain "String" (.string value)
  | character value => plain "Character" (.string value.toString)
  | boolean value => plain "Boolean" (.bool value)
  | null => .tagged "Null" span.toJson
where
  number (value : Json) (bits : Nat) : Json :=
    .tagged "Number" (.object [("value", value), ("bits", .nat bits), ("span", span.toJson)])
  plain (name : String) (value : Json) : Json :=
    .tagged name (.object [("value", value), ("span", span.toJson)])

namespace Expr

mutual

def toJson (form : NumberForm) : Expr → Json
  | ident id => .tagged "Identifier" id.toJson
  | literal value span => value.toJson form span
  | unary op operand side span => .tagged "Unary" (.object [
      ("operator", op.toJson (.string ·.name)), ("operand", operand.toJson form),
      ("postfix", .bool (side == .after)),
      ("span", span.toJson)])
  | binary op left right span => .tagged "Binary" (.object [
      ("operator", op.toJson (.string ·.name)), ("left", left.toJson form), ("right", right.toJson form),
      ("span", span.toJson)])
  | assign target op value span => .tagged "Assignment" (.object [
      ("target", target.toJson form), ("operator", op.toJson (.string ·.name)), ("value", value.toJson form),
      ("span", span.toJson)])
  | call callee arguments span => .tagged "Call" (.object [
      ("callee", callee.toJson), ("arguments", .array (listToJson form arguments)), ("span", span.toJson)])
  | build name fields span => .tagged "StructLiteral" (.object [
      ("name", name.toJson), ("fields", .array (fieldsToJson form fields)), ("span", span.toJson)])
  | property object name span => .tagged "PropertyAccess" (.object [
      ("object", object.toJson form), ("property", name.toJson), ("span", span.toJson)])
  | array elements size span => .tagged "Array" (.object [
      ("elements", .array (listToJson form elements)), ("size", .nat size), ("span", span.toJson)])
  | index base position span => .tagged "Index" (.object [
      ("array", base.toJson), ("index", position.toJson form), ("span", span.toJson)])

def listToJson (form : NumberForm) : List Expr → List Json
  | [] => []
  | e :: es => e.toJson form :: listToJson form es

def fieldsToJson (form : NumberForm) : List (Ident × Expr) → List Json
  | [] => []
  | (name, e) :: fields =>
    .object [("name", name.toJson), ("value", e.toJson form)] :: fieldsToJson form fields

end

end Expr

def Param.toJson (p : Param) : Json := .object [("name", p.name.toJson), ("ty", p.type.toJson)]

def Visibility.toJson : Visibility → Json
  | isPublic => .string "Public"
  | isPrivate => .string "Private"

def PropertyDecl.toJson (p : PropertyDecl) : Json :=
  .object [("name", p.name.toJson), ("visibility", p.visibility.toJson), ("is_static", .bool p.isStatic),
    ("readonly", .bool p.isReadonly), ("ty", p.type.toJson)]

def MethodDecl.toJson (m : MethodDecl) : Json :=
  .object [("name", m.name.toJson), ("visibility", m.visibility.toJson), ("is_static", .bool m.isStatic),
    ("params", .array (m.params.map Param.toJson)), ("return_type", m.returnType.toJson)]

def StructDecl.toJson (d : StructDecl) : Json :=
  .object [("name", d.name.toJson), ("properties", .array (d.properties.map PropertyDecl.toJson)),
    ("methods", .array (d.methods.map MethodDecl.toJson)), ("span", d.span.toJson)]

def VariableDecl.toJson (form : NumberForm) (d : VariableDecl) : Json :=
  .object [("name", d.name.toJson), ("constant", .bool d.isConstant), ("ty", .option Ty.toJson d.type),
    ("value", .option (Expr.toJson form) d.value), ("span", d.span.toJson)]

def Import.toJson (i : Import) : Json :=
  .object [("path", i.path.toJson .string), ("names", .array (i.names.map Ident.toJson)), ("span", i.span.toJson)]

mutual

def Block.toJson (form : NumberForm) : Block → Json
  | ⟨statements, span⟩ =>
    .object [("statements", .array (Stmt.listToJson form statements)), ("span", span.toJson)]

def FunctionDecl.toJson (form : NumberForm) : FunctionDecl → Json
  | ⟨name, params, returnType, body, span⟩ =>
    .object [("name", name.toJson), ("params", .array (params.map Param.toJson)),
      ("return_type", returnType.toJson), ("body", body.toJson form), ("span", span.toJson)]

def IfStmt.toJson (form : NumberForm) : IfStmt → Json
  | ⟨condition, consequent, alternate, span⟩ =>
    .object [("condition", condition.toJson form), ("consequent", consequent.toJson form),
      ("alternate", alternate.toJson form), ("span", span.toJson)]

def Alternate.toJson (form : NumberForm) : Alternate → Json
  | .nothing => .string "None"
  | .elseIf next => .tagged "ElseIf" (next.toJson form)
  | .otherwise body => .tagged "Else" (body.toJson form)

def Stmt.toJson (form : NumberForm) : Stmt → Json
  | .expression e span =>
    .tagged "Expression" (.object [("expression", e.toJson form), ("span", span.toJson)])
  | .block body => .tagged "Block" (body.toJson form)
  | .declare d => .tagged "VariableDecl" (d.toJson form)
  | .function d => .tagged "FunctionDecl" (d.toJson form)
  | .ret value span =>
    .tagged "Return" (.object [("value", .option (Expr.toJson form) value), ("span", span.toJson)])
  | .branch s => .tagged "If" (s.toJson form)
  | .struct d => .tagged "StructDecl" d.toJson
  | .whileLoop condition body span => .tagged "While" (.object [
      ("condition", condition.toJson form), ("body", body.toJson form), ("span", span.toJson)])
  | .forLoop counter init condition post body span => .tagged "For" (.object [
      ("variable", counter.toJson), ("init", init.toJson form), ("condition", condition.toJson form),
      ("post", post.toJson form), ("body", body.toJson form), ("span", span.toJson)])
  | .foreach value position iterable body span => .tagged "Foreach" (.object [
      ("value", value.toJson), ("index", .option Ident.toJson position), ("iterable", iterable.toJson form),
      ("body", body.toJson form), ("span", span.toJson)])
  | .imports i => .tagged "Import" i.toJson

def Stmt.listToJson (form : NumberForm) : List Stmt → List Json
  | [] => []
  | s :: ss => s.toJson form :: Stmt.listToJson form ss

end

/-- The name of the form of a statement. -/
def Stmt.form : Stmt → String
  | .expression .. => "Expression"
  | .block .. => "Block"
  | .declare .. => "VariableDecl"
  | .function .. => "FunctionDecl"
  | .ret .. => "Return"
  | .branch .. => "If"
  | .struct .. => "StructDecl"
  | .whileLoop .. => "While"
  | .forLoop .. => "For"
  | .foreach .. => "Foreach"
  | .imports .. => "Import"

def Program.toJson (form : NumberForm) (p : Program) : Json :=
  .object [("module_name", .string p.moduleName), ("imports", .array (p.imports.map Import.toJson)),
    ("contents", .array (p.contents.map (Stmt.toJson form))), ("span", p.span.toJson)]

end BraceScript
