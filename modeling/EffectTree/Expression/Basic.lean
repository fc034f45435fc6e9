import EffectTree.Value.Show

/-!
# Expressions

The tree of a restricted expression. Forms that can be written but are never evaluated are kept as
such, so that the check after reading can name them.
-/

namespace EffectTree

inductive BinaryOp where
  | add | sub | mul | matMul | div | floorDiv | mod | pow | shiftLeft | shiftRight
  | bitAnd | bitOr | bitXor
  deriving DecidableEq, Repr

inductive UnaryOp where
  | not | negative | positive | invert
  deriving DecidableEq, Repr

inductive CompareOp where
  | eq | ne | less | lessEq | greater | greaterEq | same | notSame | isIn | notIn
  deriving DecidableEq, Repr

inductive Conversion where
  | none | literal | display | ascii
  deriving DecidableEq, Repr

inductive Unsupported where
  | lambda | assignment | starred | await | yield | yieldFrom | setComprehension | dictComprehension
  deriving DecidableEq, Repr

mutual

inductive Expr where
  | constant (value : Value)
  | name (id : String)
  | binary (op : BinaryOp) (left right : Expr)
  | unary (op : UnaryOp) (operand : Expr)
  /-- Operands joined by `and` or by `or`. -/
  | logical (isAnd : Bool) (operands : List Expr)
  | compare (first : Expr) (rest : List (CompareOp × Expr))
  | conditional (test yes no : Expr)
  | item (target key : Expr)
  | slice (lower upper step : Option Expr)
  | field (target : Expr) (name : String)
  /-- A keyword without a name stands for a dictionary of keywords. -/
  | call (function : Expr) (args : List Expr) (keywords : List (Option String × Expr))
  | list (items : List Expr)
  | tuple (items : List Expr)
  | set (items : List Expr)
  | dict (entries : List Entry)
  /-- A formatted text: constants and formatted values one after another. -/
  | text (parts : List Expr)
  | formatted (value : Expr) (conversion : Conversion) (spec : Option Expr)
  /-- A list built by generators, or a bare sequence of them. -/
  | comprehension (isList : Bool) (element : Expr) (generators : List Generator)
  | unsupported (form : Unsupported)

inductive Entry where
  | pair (key value : Expr)
  | spread (value : Expr)

/-- One `for` clause with its conditions. -/
inductive Generator where
  | clause (target source : Expr) (conditions : List Expr) (isAsync : Bool)

end

instance : Inhabited Expr := ⟨.constant .null⟩

namespace Unsupported

def label : Unsupported → String
  | lambda => "Lambda"
  | assignment => "NamedExpr"
  | starred => "Starred"
  | await => "Await"
  | yield => "Yield"
  | yieldFrom => "YieldFrom"
  | setComprehension => "SetComp"
  | dictComprehension => "DictComp"

end Unsupported

namespace Expr

def label : Expr → String
  | constant _ => "Constant"
  | name _ => "Name"
  | binary .. => "BinOp"
  | unary .. => "UnaryOp"
  | logical .. => "BoolOp"
  | compare .. => "Compare"
  | conditional .. => "IfExp"
  | item .. => "Subscript"
  | slice .. => "Slice"
  | field .. => "Attribute"
  | call .. => "Call"
  | list _ => "List"
  | tuple _ => "Tuple"
  | set _ => "Set"
  | dict _ => "Dict"
  | text _ => "JoinedStr"
  | formatted .. => "FormattedValue"
  | comprehension isList .. => if isList then "ListComp" else "GeneratorExp"
  | unsupported form => form.label

end Expr

end EffectTree
