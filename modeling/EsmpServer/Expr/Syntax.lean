import Mathlib

/-!
# The expression language: tokens and postfix items

Configuration values of the server are expressions such as
`retry_num > 2 && sender_domain == 'example.org'`. The tokenizer turns the text
into `Token`s, the parser turns the tokens into a postfix program of
`ExpressionItem`s, and the evaluator runs the program on a stack of values.

A compiled `Regex` is represented by its pattern. `f64` values are Lean
`Float`s, which have the same IEEE-754 binary64 arithmetic; the few places where
Rust's library reads or prints them are parameters of the model (`F64Text`).
-/

namespace EsmpServer.Expr

/-- `BinaryOperator`. -/
inductive BinaryOperator where
  | add | subtract | multiply | divide
  | and | or | xor
  | eq | ne | lt | le | gt | ge
  deriving DecidableEq, Repr

/-- `UnaryOperator`. -/
inductive UnaryOperator where
  | not | minus
  deriving DecidableEq, Repr

/-- `BinaryOperator::precedence`. -/
def BinaryOperator.precedence : BinaryOperator → ℤ
  | .multiply | .divide => 7
  | .add | .subtract => 6
  | .gt | .ge | .lt | .le => 5
  | .eq | .ne => 4
  | .xor => 3
  | .and => 2
  | .or => 1

/-- `Constant`. -/
inductive Constant where
  | integer (n : ℤ)
  | float (f : Float)
  | string (s : String)
  deriving Repr, Inhabited

/-- `Setting`. -/
inductive Setting where
  | hostname
  | reportDomain
  | nodeId
  | other (key : String)
  deriving DecidableEq, Repr

/-- `Setting::from`. -/
def Setting.ofString (value : String) : Setting :=
  if value = "server.hostname" then .hostname
  else if value = "report.domain" then .reportDomain
  else if value = "cluster.node-id" then .nodeId
  else .other value

/-- `Token`; `Token::Variable` is `var`. -/
inductive Token where
  | var (id : ℕ)
  | global (name : String)
  | capture (index : ℕ)
  | function (name : String) (id : ℕ) (numArgs : ℕ)
  | constant (c : Constant)
  | setting (s : Setting)
  | regex (pattern : String)
  | binaryOperator (op : BinaryOperator)
  | unaryOperator (op : UnaryOperator)
  | openParen
  | closeParen
  | openBracket
  | closeBracket
  | comma
  deriving Repr, Inhabited

/-- `ExpressionItem`; `ExpressionItem::Variable` is `var`. -/
inductive ExpressionItem where
  | var (id : ℕ)
  | global (name : String)
  | setting (s : Setting)
  | capture (index : ℕ)
  | constant (c : Constant)
  | binaryOperator (op : BinaryOperator)
  | unaryOperator (op : UnaryOperator)
  | regex (pattern : String)
  | jmpIf (val : Bool) (pos : ℕ)
  | function (id : ℕ) (numArgs : ℕ)
  | arrayAccess
  | arrayBuild (numItems : ℕ)
  deriving Repr, Inhabited

/-- `Expression`: the compiled postfix program. -/
structure Expression where
  items : List ExpressionItem
  deriving Repr

/-- `ID_ARRAY_ACCESS`, `u32::MAX`. -/
def idArrayAccess : ℕ := 2 ^ 32 - 1

/-- `ID_ARRAY_BUILD`, `u32::MAX - 1`. -/
def idArrayBuild : ℕ := 2 ^ 32 - 2

end EsmpServer.Expr
