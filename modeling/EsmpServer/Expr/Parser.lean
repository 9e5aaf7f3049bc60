import EsmpServer.Expr.Tokenizer

/-!
# The parser

`ExpressionParser::parse` is a shunting-yard parser. Operands go straight to the
output; operators wait on the operator stack until an operator of no higher
precedence, a closing parenthesis, a comma or the end pops them. For `&&` and
`||` the parser emits a `JmpIf` right after the left operand, and when it pops
the operator it sets the jump's distance to the number of items emitted since,
so that a taken jump skips the right operand and the operator itself.

Function calls and array brackets keep a count of their arguments on
`arg_count`: every operand adds one, every binary operator takes one away.

The operator stack and the argument counts are lists with the top first; the
output is in emission order.
-/

namespace EsmpServer.Expr

/-- The state of `ExpressionParser` besides its tokenizer. -/
structure ExpressionParser where
  output : List ExpressionItem
  operatorStack : List (Token × Option ℕ)
  argCount : List ℤ

namespace ExpressionParser

/-- `i32::saturating_add` and `i32::saturating_sub` of one. -/
def satI32 (z : ℤ) : ℤ := FixedInt.saturate (-2 ^ 31) (2 ^ 31 - 1) z

/-- An array build below the token just pushed counts one more item. -/
def bumpArrayBuild : Token × Option ℕ → Token × Option ℕ
  | (.function name id numArgs, jmp) =>
    if id = idArrayBuild then (.function name id (numArgs + 1), jmp)
    else (.function name id numArgs, jmp)
  | entry => entry

/-- `inc_arg_count`: one more argument for the innermost call, and one more item
for an array build whose entry is second from the top of the stack (the top one
when the stack has a single entry). -/
def incArgCount (p : ExpressionParser) : ExpressionParser :=
  match p.argCount with
  | [] => p
  | x :: xs =>
    let opPos := if 2 ≤ p.operatorStack.length then 1 else 0
    { p with
      argCount := satI32 (x + 1) :: xs
      operatorStack := p.operatorStack.modify opPos bumpArrayBuild }

/-- `dec_arg_count`. -/
def decArgCount (p : ExpressionParser) : ExpressionParser :=
  match p.argCount with
  | [] => p
  | x :: xs => { p with argCount := satI32 (x - 1) :: xs }

/-- The jump an `&&` or `||` emitted at `jmpPos` now skips to the end of the
output. -/
def setJmpPos (cur jmpPos : ℕ) : ExpressionItem → ExpressionItem
  | .jmpIf val _ => .jmpIf val (cur - jmpPos)
  | item => item

/-- `update_jmp_pos`. -/
def updateJmpPos (p : ExpressionParser) : Option ℕ → ExpressionParser
  | none => p
  | some jmpPos => { p with output := p.output.modify jmpPos (setJmpPos p.output.length jmpPos) }

def push (p : ExpressionParser) (item : ExpressionItem) : ExpressionParser :=
  { p with output := p.output ++ [item] }

/-- Emit a binary operator popped from the stack, completing its jump. -/
def emitBinary (p : ExpressionParser) (op : BinaryOperator) (jmp : Option ℕ) : ExpressionParser :=
  (p.updateJmpPos jmp).push (.binaryOperator op)

/-- The pop loop of a closing parenthesis or bracket: operators go to the output
until the matching opening token. -/
def closeLoop (closeParen : Bool) : List (Token × Option ℕ) → ExpressionParser →
    Except String ExpressionParser
  | [], _ => .error "Mismatched parentheses"
  | (.openParen, _) :: rest, p =>
    if closeParen then .ok { p with operatorStack := rest } else .error "Mismatched parentheses"
  | (.openBracket, _) :: rest, p =>
    if closeParen then .error "Mismatched parentheses" else .ok { p with operatorStack := rest }
  | (.binaryOperator bop, jmp) :: rest, p => closeLoop closeParen rest (p.emitBinary bop jmp)
  | (.unaryOperator uop, _) :: rest, p => closeLoop closeParen rest (p.push (.unaryOperator uop))
  | _ :: _, _ => .error "Mismatched parentheses"

/-- After a closing parenthesis or bracket: a call on top of the stack takes its
arguments and goes to the output. -/
def closeCall (p : ExpressionParser) : Except String ExpressionParser :=
  match p.operatorStack with
  | (.function name id numArgs, _) :: rest =>
    let gotArgs := p.argCount.headD 0
    let p := { p with argCount := p.argCount.tail }
    if gotArgs ≠ numArgs then
      .error (if id ≠ idArrayAccess then
        "Expression function " ++ strDebug name ++ " expected " ++ toString numArgs ++
          " arguments, got " ++ toString gotArgs
        else "Missing array index")
    else
      let item : ExpressionItem :=
        if id = idArrayAccess then .arrayAccess
        else if id = idArrayBuild then .arrayBuild numArgs
        else .function id numArgs
      .ok ({ p with operatorStack := rest }.push item)
  | (.regex regex, _) :: rest =>
    if p.argCount.headD 0 ≠ 1 then .error "Expression function \"matches\" expected 2 arguments"
    else .ok ({ p with argCount := p.argCount.tail, operatorStack := rest }.push (.regex regex))
  | (.setting setting, _) :: rest =>
    if p.argCount.headD 0 ≠ 0 then .error "Expression function \"config_get\" expected 1 argument"
    else .ok ({ p with argCount := p.argCount.tail, operatorStack := rest }.push (.setting setting))
  | _ => .ok p

/-- The pop loop of a binary operator: operators of no lower precedence and all
unary operators go to the output. -/
def popOperators (bop : BinaryOperator) : List (Token × Option ℕ) → ExpressionParser →
    ExpressionParser
  | (.binaryOperator top, jmp) :: rest, p =>
    if bop.precedence ≤ top.precedence then
      popOperators bop rest ({ p with operatorStack := rest }.emitBinary top jmp)
    else p
  | (.unaryOperator uop, _) :: rest, p =>
    popOperators bop rest ({ p with operatorStack := rest }.push (.unaryOperator uop))
  | _, p => p

/-- The pop loop of a comma: operators go to the output down to the next
parenthesis or call. -/
def popToComma : List (Token × Option ℕ) → ExpressionParser → ExpressionParser
  | (.binaryOperator bop, jmp) :: rest, p =>
    popToComma rest ({ p with operatorStack := rest }.emitBinary bop jmp)
  | (.unaryOperator uop, _) :: rest, p =>
    popToComma rest ({ p with operatorStack := rest }.push (.unaryOperator uop))
  | _, p => p

/-- A binary operator: pop, then emit the short-circuit jump of `&&` and `||`,
then wait on the stack with the jump's position. -/
def binaryOperator (p : ExpressionParser) (bop : BinaryOperator) : ExpressionParser :=
  let p := p.decArgCount
  let p := popOperators bop p.operatorStack p
  let (p, jmpPos) : ExpressionParser × Option ℕ :=
    match bop with
    | .and => (p.push (.jmpIf false 0), some p.output.length)
    | .or => (p.push (.jmpIf true 0), some p.output.length)
    | _ => (p, none)
  { p with operatorStack := (.binaryOperator bop, jmpPos) :: p.operatorStack }

/-- Push an operator-stack entry with no jump. -/
def pushOp (p : ExpressionParser) (token : Token) : ExpressionParser :=
  { p with operatorStack := (token, none) :: p.operatorStack }

/-- One token of the loop of `parse`; the flag says whether the token was a
variable or closed a group, which makes a following `[` an index. -/
def step (p : ExpressionParser) (lastIsVarOrFnc : Bool) :
    Token → Except String (ExpressionParser × Bool)
  | .var v => .ok ((p.incArgCount).push (.var v), true)
  | .constant c => .ok ((p.incArgCount).push (.constant c), false)
  | .global g => .ok ((p.incArgCount).push (.global g), false)
  | .capture c => .ok ((p.incArgCount).push (.capture c), false)
  | .unaryOperator uop => .ok (p.pushOp (.unaryOperator uop), false)
  | .openParen => .ok (p.pushOp .openParen, false)
  | .closeParen => do
    let p ← closeLoop true p.operatorStack p
    let p ← p.closeCall
    pure (p, true)
  | .closeBracket => do
    let p ← closeLoop false p.operatorStack p
    let p ← p.closeCall
    pure (p, true)
  | .binaryOperator bop => .ok (p.binaryOperator bop, false)
  | .function name id numArgs =>
    let p := p.incArgCount
    .ok ({ p with argCount := 0 :: p.argCount }.pushOp (.function name id numArgs), false)
  | .regex regex =>
    let p := p.incArgCount
    .ok ({ p with argCount := 0 :: p.argCount }.pushOp (.regex regex), false)
  | .setting setting =>
    let p := p.incArgCount
    .ok ({ p with argCount := 0 :: p.argCount }.pushOp (.setting setting), false)
  | .openBracket =>
    let (p, id, numArgs, argCount) :=
      if lastIsVarOrFnc then (p, idArrayAccess, 2, (1 : ℤ))
      else (p.incArgCount, idArrayBuild, 0, 0)
    let p := { p with argCount := argCount :: p.argCount }
    .ok ((p.pushOp (.function "array" id numArgs)).pushOp .openBracket, false)
  | .comma => .ok (popToComma p.operatorStack p, false)

/-- The loop of `parse` over the tokens. -/
def loop : List Token → ExpressionParser → Bool → Except String ExpressionParser
  | [], p, _ => .ok p
  | token :: tokens, p, last => do
    let (p, isVarOrFnc) ← p.step last token
    loop tokens p isVarOrFnc

/-- The final loop of `parse`: every operator left goes to the output; anything
else left on the stack is an error. -/
def finish : List (Token × Option ℕ) → ExpressionParser → Except String ExpressionParser
  | [], p => .ok p
  | (.binaryOperator bop, jmp) :: rest, p => finish rest (p.emitBinary bop jmp)
  | (.unaryOperator uop, _) :: rest, p => finish rest (p.push (.unaryOperator uop))
  | _ :: _, _ => .error "Invalid token on the operator stack"

end ExpressionParser

/-- `ExpressionParser::parse`, reading the tokenizer's stream: its tokens, then
its error if it failed. The stack is empty after the final loop, so the
source's closing `Invalid expression` branch is never taken. -/
def parse (stream : List Token × Option String) : Except String Expression := do
  let p ← ExpressionParser.loop stream.1 ⟨[], [], []⟩ false
  match stream.2 with
  | some e => .error e
  | none =>
    let p ← ExpressionParser.finish p.operatorStack p
    pure ⟨p.output⟩

end EsmpServer.Expr
