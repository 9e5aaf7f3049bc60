import EsmpServer.Expr.Parser

/-!
# The evaluator

`EvalContext::eval` runs a postfix program on a stack of values. Operands push,
operators pop their arguments (an empty stack yields the empty string) and push
the result, and a `JmpIf` whose condition matches the truth of the top of the
stack skips the next `pos` items. The result is the top of the stack at the
end. A `matches` call replaces the captures, which `$n` reads afterwards.

What the evaluator reads from the server is a parameter: the resolver of
variables and globals, the settings, the built-in and server functions, and the
regex engine.
-/

namespace EsmpServer.Expr

/-- What `EvalContext::eval` reads besides the program. -/
structure Env where
  resolveVariable : ℕ → Variable
  resolveGlobal : String → Variable
  hostname : String
  reportDomain : String
  /-- `node_id as i64`. -/
  nodeId : ℤ
  configGet : String → Except String (Option String)
  functions : List BuiltinFunction
  /-- `Server::eval_fnc`, for the ids past `FUNCTIONS`. -/
  evalFnc : ℕ → List Variable → Except String Variable
  /-- `Regex::captures` of the regex with this pattern: the groups, unmatched
  ones as `None`. -/
  regexCaptures : String → String → Option (List (Option String))

/-- `stack.pop().unwrap_or_default()`. -/
def pop : List Variable → Variable × List Variable
  | [] => (default, [])
  | v :: stack => (v, stack)

/-- The arguments of a call, first argument first: the first value popped is the
last argument. -/
def popArgs : ℕ → List Variable → List Variable × List Variable
  | 0, stack => ([], stack)
  | n + 1, stack =>
    let (v, stack) := pop stack
    let (args, stack) := popArgs n stack
    (args ++ [v], stack)

section Eval

variable (t : F64Text) (env : Env)

/-- The value of a setting. -/
def settingValue : Setting → Except String Variable
  | .hostname => .ok (.string env.hostname)
  | .reportDomain => .ok (.string env.reportDomain)
  | .nodeId => .ok (.integer env.nodeId)
  | .other key => do
    let value ← env.configGet key
    pure (.string (value.getD ""))

/-- A call of function `id`: a built-in one, or one the server evaluates. -/
def callFunction (id : ℕ) (args : List Variable) : Except String Variable :=
  match env.functions[id]? with
  | some f => .ok (f.fnc args)
  | none => env.evalFnc (id - env.functions.length) args

/-- One item of `EvalContext::eval`: the new stack and captures, and the number
of items to skip (nonzero only for a taken jump). -/
def evalItem (stack : List Variable) (captures : List String) :
    ExpressionItem → Except String (List Variable × List String × ℕ)
  | .var v => .ok (env.resolveVariable v :: stack, captures, 0)
  | .global g => .ok (env.resolveGlobal g :: stack, captures, 0)
  | .constant c => .ok (Variable.ofConstant c :: stack, captures, 0)
  | .capture v => .ok (.string (captures[v]?.getD "") :: stack, captures, 0)
  | .setting s => do
    let value ← settingValue env s
    pure (value :: stack, captures, 0)
  | .unaryOperator op =>
    let (value, stack) := pop stack
    .ok (op.apply t value :: stack, captures, 0)
  | .binaryOperator op =>
    let (right, stack) := pop stack
    let (left, stack) := pop stack
    .ok (op.apply t left right :: stack, captures, 0)
  | .function id numArgs => do
    let (args, stack) := popArgs numArgs stack
    let result ← callFunction env id args
    pure (result :: stack, captures, 0)
  | .jmpIf val pos =>
    .ok (stack, captures, if (stack.head?.any Variable.toBool) = val then pos else 0)
  | .arrayAccess =>
    let (index, stack) := pop stack
    let (array, stack) := pop stack
    .ok ((array.intoArray[(index.toUsize).getD 0]?).getD default :: stack, captures, 0)
  | .arrayBuild numItems =>
    let (items, stack) := popArgs numItems stack
    .ok (.array items :: stack, captures, 0)
  | .regex pattern =>
    let (value, stack) := pop stack
    let captures :=
      ((env.regexCaptures pattern (value.intoString t)).map fun groups =>
        groups.map fun g => g.getD "").getD []
    .ok (.integer (ofBool !captures.isEmpty) :: stack, captures, 0)

/-- The loop of `EvalContext::eval`: `skip` items are still to be skipped. -/
def evalLoop : List ExpressionItem → ℕ → List Variable → List String →
    Except String (Variable × List String)
  | [], _, stack, captures => .ok ((pop stack).1, captures)
  | _ :: items, skip + 1, stack, captures => evalLoop items skip stack captures
  | item :: items, 0, stack, captures => do
    let (stack, captures, skip) ← evalItem t env stack captures item
    evalLoop items skip stack captures

/-- `EvalContext::eval` on an expression: its value and the captures after it. -/
def eval (expr : Expression) (captures : List String) : Except String (Variable × List String) :=
  evalLoop t env expr.items 0 [] captures

end Eval

end EsmpServer.Expr
