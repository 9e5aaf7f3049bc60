import EsmpServer.Expr.Syntax
import EsmpServer.Lib.Decimal

/-!
# Values and their operators

`Variable` is the value type of the evaluator: a string, an `i64`, an `f64` or
an array. Every operator of the language is a total function on values
(`op_add`, …, `op_ge`, `op_not`, `op_minus`); strings that take part in
arithmetic or in a comparison with a number are first read as numbers
(`parse_number`).

`i64` values are integers; the saturating operations clamp into the `i64`
range. Equality and the partial order follow the `PartialEq` and `PartialOrd`
implementations of `Variable`, recursively on arrays.
-/

namespace EsmpServer.Expr

open FixedInt

/-- What the model takes from Rust's library for `f64` text: `str::parse::<f64>`,
`Display`, and `to_compact_string`. -/
structure F64Text where
  parse : String → Option Float
  display : Float → String
  compact : Float → String

/-- `Variable`. -/
inductive Variable where
  | string (s : String)
  | integer (n : ℤ)
  | float (f : Float)
  | array (items : List Variable)
  deriving Repr

/-- `Variable::default()`: the empty string. -/
instance : Inhabited Variable := ⟨.string ""⟩

/-- A number: what `parse_number` returns. -/
inductive Number where
  | integer (n : ℤ)
  | float (f : Float)
  deriving Repr

/-- The range of `i64`. -/
def i64Min : ℤ := -2 ^ 63

def i64Max : ℤ := 2 ^ 63 - 1

/-- `str::parse::<i64>`. -/
def parseI64 (s : String) : Option ℤ := parseDecimal true i64Min i64Max s

/-- `str::parse::<usize>` on a 64-bit target. -/
def parseUsize (s : String) : Option ℕ :=
  (parseDecimal false 0 (2 ^ 64 - 1) s).map Int.toNat

/-- `str::parse::<u32>`. -/
def parseU32 (s : String) : Option ℕ :=
  (parseDecimal false 0 (2 ^ 32 - 1) s).map Int.toNat

theorem parseU32_toDigits {n : ℕ} (h : n < 2 ^ 32) : parseU32 (String.ofList (Nat.toDigits 10 n)) = some n := by
  rw [parseU32, parseDecimal_toDigits (by simp) (by omega)]
  rfl

/-- A saturating `i64` operation's result. -/
def satI64 (z : ℤ) : ℤ := saturate i64Min i64Max z

/-- `From<bool> for i64`. -/
def ofBool (b : Bool) : ℤ := if b then 1 else 0

namespace Number

def toVariable : Number → Variable
  | .integer n => .integer n
  | .float f => .float f

/-- Negation, wrapping at `i64::MIN` as a release build does. -/
def minus : Number → Number
  | .integer n => .integer (wrapSigned 64 (-n))
  | .float f => .float (-f)

/-- `op_subtract` on two numbers. -/
def subtract : Number → Number → Number
  | .integer a, .integer b => .integer (satI64 (a - b))
  | .float a, .float b => .float (a - b)
  | .integer a, .float b => .float (Float.ofInt a - b)
  | .float a, .integer b => .float (a - Float.ofInt b)

/-- `op_multiply` on two numbers. -/
def multiply : Number → Number → Number
  | .integer a, .integer b => .integer (satI64 (a * b))
  | .float a, .float b => .float (a * b)
  | .integer i, .float f => .float (Float.ofInt i * f)
  | .float f, .integer i => .float (Float.ofInt i * f)

/-- `op_divide` on two numbers: division by zero gives `0.0`. -/
def divide : Number → Number → Number
  | .integer a, .integer b => .float (if b ≠ 0 then Float.ofInt a / Float.ofInt b else 0.0)
  | .float a, .float b => .float (if b != 0.0 then a / b else 0.0)
  | .integer a, .float b => .float (if b != 0.0 then Float.ofInt a / b else 0.0)
  | .float a, .integer b => .float (if b ≠ 0 then a / Float.ofInt b else 0.0)

/-- `PartialEq` on two numbers. -/
def beq : Number → Number → Bool
  | .integer a, .integer b => a == b
  | .float a, .float b => a == b
  | .integer a, .float b => Float.ofInt a == b
  | .float b, .integer a => Float.ofInt a == b

/-- `f64::partial_cmp`: none when one side is NaN. -/
def floatPartialCmp (a b : Float) : Option Ordering :=
  match decide (a ≤ b), decide (b ≤ a) with
  | false, false => none
  | false, true => some .gt
  | true, false => some .lt
  | true, true => some .eq

/-- `PartialOrd` on two numbers. -/
def partialCmp : Number → Number → Option Ordering
  | .integer a, .integer b => some (compare a b)
  | .float a, .float b => floatPartialCmp a b
  | .integer a, .float b => floatPartialCmp (Float.ofInt a) b
  | .float a, .integer b => floatPartialCmp a (Float.ofInt b)

end Number

namespace Variable

variable (t : F64Text)

/-- `Variable::from(&Constant)`. -/
def ofConstant : Constant → Variable
  | .integer n => .integer n
  | .float f => .float f
  | .string s => .string s

/-- `Variable::to_bool`. -/
def toBool : Variable → Bool
  | .float f => f != 0.0
  | .integer n => n != 0
  | .string s => !s.isEmpty
  | .array a => !a.isEmpty

/-- `Variable::is_empty`: only the empty string is empty. -/
def isEmpty : Variable → Bool
  | .string s => s.isEmpty
  | _ => false

/-- `Variable::parse_number`; an array reads as `is_empty() as i64`. -/
def parseNumber : Variable → Number
  | .string s =>
    if s.isEmpty then .integer 0
    else match parseI64 s with
      | some n => .integer n
      | none => match t.parse s with
        | some f => .float f
        | none => .integer 0
  | .integer n => .integer n
  | .float f => .float f
  | .array l => .integer (ofBool l.isEmpty)

mutual

/-- `PartialEq for Variable`; a string against a number compares as a number. -/
def beq : Variable → Variable → Bool
  | .integer a, .integer b => a == b
  | .float a, .float b => a == b
  | .integer a, .float b => Float.ofInt a == b
  | .float b, .integer a => Float.ofInt a == b
  | .string a, .string b => a == b
  | .string a, .integer b => (parseNumber t (.string a)).beq (.integer b)
  | .string a, .float b => (parseNumber t (.string a)).beq (.float b)
  | .integer a, .string b => Number.beq (.integer a) (parseNumber t (.string b))
  | .float a, .string b => Number.beq (.float a) (parseNumber t (.string b))
  | .array a, .array b => beqList a b
  | _, _ => false

/-- `PartialEq for Vec<Variable>`. -/
def beqList : List Variable → List Variable → Bool
  | [], [] => true
  | a :: as, b :: bs => beq a b && beqList as bs
  | _, _ => false

end

mutual

/-- `PartialOrd for Variable`. -/
def partialCmp : Variable → Variable → Option Ordering
  | .integer a, .integer b => some (compare a b)
  | .float a, .float b => Number.floatPartialCmp a b
  | .integer a, .float b => Number.floatPartialCmp (Float.ofInt a) b
  | .float a, .integer b => Number.floatPartialCmp a (Float.ofInt b)
  | .string a, .string b => some (compare a b)
  | .string a, .integer b => (parseNumber t (.string a)).partialCmp (.integer b)
  | .string a, .float b => (parseNumber t (.string a)).partialCmp (.float b)
  | .integer a, .string b => Number.partialCmp (.integer a) (parseNumber t (.string b))
  | .float a, .string b => Number.partialCmp (.float a) (parseNumber t (.string b))
  | .array a, .array b => partialCmpList a b
  | .array _, _ => some .gt
  | .string _, _ => some .gt
  | _, .array _ => some .lt

/-- `PartialOrd for [Variable]`: lexicographic, then by length. -/
def partialCmpList : List Variable → List Variable → Option Ordering
  | [], [] => some .eq
  | [], _ :: _ => some .lt
  | _ :: _, [] => some .gt
  | a :: as, b :: bs =>
    match partialCmp a b with
    | some .eq => partialCmpList as bs
    | r => r

end

mutual

/-- `Display for Variable`: array items on separate lines. -/
def display : Variable → String
  | .string s => s
  | .integer n => toString n
  | .float f => t.display f
  | .array l => displayList l

def displayList : List Variable → String
  | [] => ""
  | [v] => display v
  | v :: vs => display v ++ "\n" ++ displayList vs

end

/-- `Variable::into_string`: array items joined by CRLF, which is only put
between a nonempty prefix and the next item; nested arrays add nothing. -/
def intoString : Variable → String
  | .string s => s
  | .integer n => toString n
  | .float f => t.compact f
  | .array l =>
    l.foldl (fun result item =>
      let result := if result.isEmpty then result else result ++ "\r\n"
      match item with
      | .string v => result ++ v
      | .integer v => result ++ toString v
      | .float v => result ++ t.compact v
      | .array _ => result) ""

/-- `Variable::to_usize`: `as usize` wraps a negative `i64` and saturates an
`f64`. -/
def toUsize : Variable → Option ℕ
  | .integer n => some (n % 2 ^ 64).toNat
  | .float f => some f.toUInt64.toNat
  | .string s => if s.isEmpty then none else parseUsize s
  | .array _ => none

/-- `Variable::into_array`. -/
def intoArray : Variable → List Variable
  | .array l => l
  | v => if v.isEmpty then [] else [v]

/-! ## The operators -/

/-- `Variable::op_add`: numbers add, arrays concatenate, a nonempty string
concatenates with the other side's text. -/
def opAdd : Variable → Variable → Variable
  | .integer a, .integer b => .integer (satI64 (a + b))
  | .float a, .float b => .float (a + b)
  | .integer i, .float f => .float (Float.ofInt i + f)
  | .float f, .integer i => .float (Float.ofInt i + f)
  | .array a, .array b => .array (a ++ b)
  | .array a, b => .array (a ++ [b])
  | a, .array b => .array (a :: b)
  | .string a, b => if a.isEmpty then b else .string (a ++ display t b)
  | a, .string b => if b.isEmpty then a else .string (display t a ++ b)

/-- `Variable::op_subtract`: an array loses the items equal to the other side.
The source's numeric arms are the last arm, as `parse_number` keeps numbers. -/
def opSubtract : Variable → Variable → Variable
  | .array a, b => .array (a.filter fun v => !beq t v b)
  | b, .array a => .array (a.filter fun v => !beq t v b)
  | a, b => ((parseNumber t a).subtract (parseNumber t b)).toVariable

/-- `Variable::op_multiply`. -/
def opMultiply (a b : Variable) : Variable :=
  ((parseNumber t a).multiply (parseNumber t b)).toVariable

/-- `Variable::op_divide`. -/
def opDivide (a b : Variable) : Variable :=
  ((parseNumber t a).divide (parseNumber t b)).toVariable

def opAnd (a b : Variable) : Variable := .integer (ofBool (a.toBool && b.toBool))

def opOr (a b : Variable) : Variable := .integer (ofBool (a.toBool || b.toBool))

def opXor (a b : Variable) : Variable := .integer (ofBool (a.toBool ^^ b.toBool))

def opEq (a b : Variable) : Variable := .integer (ofBool (beq t a b))

def opNe (a b : Variable) : Variable := .integer (ofBool !(beq t a b))

def opLt (a b : Variable) : Variable := .integer (ofBool (partialCmp t a b == some .lt))

def opLe (a b : Variable) : Variable :=
  .integer (ofBool (partialCmp t a b == some .lt || partialCmp t a b == some .eq))

def opGt (a b : Variable) : Variable := .integer (ofBool (partialCmp t a b == some .gt))

def opGe (a b : Variable) : Variable :=
  .integer (ofBool (partialCmp t a b == some .gt || partialCmp t a b == some .eq))

def opNot (a : Variable) : Variable := .integer (ofBool !a.toBool)

/-- `Variable::op_minus`; the source negates numbers directly and other values
after `parse_number`, which keeps numbers. -/
def opMinus (a : Variable) : Variable := (parseNumber t a).minus.toVariable

end Variable

/-- The operator dispatch of `EvalContext::eval`. -/
def BinaryOperator.apply (t : F64Text) : BinaryOperator → Variable → Variable → Variable
  | .add => Variable.opAdd t
  | .subtract => Variable.opSubtract t
  | .multiply => Variable.opMultiply t
  | .divide => Variable.opDivide t
  | .and => Variable.opAnd
  | .or => Variable.opOr
  | .xor => Variable.opXor
  | .eq => Variable.opEq t
  | .ne => Variable.opNe t
  | .lt => Variable.opLt t
  | .le => Variable.opLe t
  | .gt => Variable.opGt t
  | .ge => Variable.opGe t

def UnaryOperator.apply (t : F64Text) : UnaryOperator → Variable → Variable
  | .not => Variable.opNot
  | .minus => Variable.opMinus t

/-- An entry of `FUNCTIONS`: the name the tokenizer looks up, the function the
evaluator calls, and the number of arguments. -/
structure BuiltinFunction where
  name : String
  fnc : List Variable → Variable
  numArgs : ℕ

/-- An entry of `ASYNC_FUNCTIONS`: its name, index and number of arguments. -/
structure AsyncFunction where
  name : String
  idx : ℕ
  numArgs : ℕ

end EsmpServer.Expr
