import EsmpServer.Expr.Eval
import EsmpServer.Lib.Fallible

/-!
# What a parsed expression computes

An expression over variables, globals, captures and constants with unary and
binary operators is a `Tree`. The reference meaning of a tree evaluates both
operands of every operator and applies the operator (`Tree.evalTree`). Printed
with every operator in parentheses (`Tree.tokens`), a tree parses to the
postfix program `Tree.compile`, and the evaluator runs that program to
`Tree.evalShort`: the reference meaning except that `a && b` with `a` false and
`a || b` with `a` true are `a` itself, since the jump skips the operator along
with `b`.

The two meanings agree when the left operand of every `&&` and `||` is itself a
truth value (`0` or `1`), as comparisons and logical operators are
(`evalShort_eq_evalTree`). They differ on `5 || 0`: the program leaves `5`,
where `op_or` gives `1`.
-/

namespace EsmpServer.Expr

/-- The truth value of the left operand on which `&&` and `||` jump. -/
def BinaryOperator.jumpsOn : BinaryOperator → Option Bool
  | .and => some false
  | .or => some true
  | _ => none

/-- Expressions as trees. -/
inductive Tree where
  | var (id : ℕ)
  | global (name : String)
  | capture (index : ℕ)
  | constant (c : Constant)
  | unary (op : UnaryOperator) (e : Tree)
  | binary (op : BinaryOperator) (l r : Tree)

namespace Tree

section Meaning

variable (t : F64Text) (env : Env) (captures : List String)

/-- The reference evaluator: both operands, then the operator's `op_*`. -/
def evalTree : Tree → Variable
  | .var v => env.resolveVariable v
  | .global g => env.resolveGlobal g
  | .capture i => .string (captures[i]?.getD "")
  | .constant c => Variable.ofConstant c
  | .unary op e => op.apply t (evalTree e)
  | .binary op l r => op.apply t (evalTree l) (evalTree r)

/-- The meaning with short-circuit: a jumping operator is its left operand. -/
def evalShort : Tree → Variable
  | .var v => env.resolveVariable v
  | .global g => env.resolveGlobal g
  | .capture i => .string (captures[i]?.getD "")
  | .constant c => Variable.ofConstant c
  | .unary op e => op.apply t (evalShort e)
  | .binary op l r =>
    match op.jumpsOn with
    | some val => if (evalShort l).toBool = val then evalShort l
      else op.apply t (evalShort l) (evalShort r)
    | none => op.apply t (evalShort l) (evalShort r)

end Meaning

/-- The tokens of a tree with every operator in parentheses. -/
def tokens : Tree → List Token
  | .var v => [.var v]
  | .global g => [.global g]
  | .capture i => [.capture i]
  | .constant c => [.constant c]
  | .unary op e => [.openParen, .unaryOperator op] ++ e.tokens ++ [.closeParen]
  | .binary op l r => [.openParen] ++ l.tokens ++ [.binaryOperator op] ++ r.tokens ++ [.closeParen]

/-- Whether the last token of a tree is a variable or a closing parenthesis. -/
def endsVarOrFnc : Tree → Bool
  | .var _ => true
  | .global _ | .capture _ | .constant _ => false
  | .unary _ _ | .binary _ _ _ => true

/-- The jump after the left operand of `&&` and `||`, over the right operand
and the operator. -/
def jumpItems (op : BinaryOperator) (skip : ℕ) : List ExpressionItem :=
  match op.jumpsOn with
  | some val => [.jmpIf val skip]
  | none => []

/-- The postfix program of a tree. -/
def compile : Tree → List ExpressionItem
  | .var v => [.var v]
  | .global g => [.global g]
  | .capture i => [.capture i]
  | .constant c => [.constant c]
  | .unary op e => e.compile ++ [.unaryOperator op]
  | .binary op l r =>
    l.compile ++ jumpItems op (r.compile.length + 1) ++ r.compile ++ [.binaryOperator op]

end Tree

/-! ## The parser on a printed tree -/

namespace ExpressionParser

/-- Whether a call (a function, `matches` or `config_get`) is on top of the
operator stack, where a closing parenthesis completes it. -/
def callOnTop : List (Token × Option ℕ) → Bool
  | (.function _ _ _, _) :: _ | (.regex _, _) :: _ | (.setting _, _) :: _ => true
  | _ => false

theorem closeCall_of_callOnTop {p : ExpressionParser} (h : callOnTop p.operatorStack = false) :
    p.closeCall = .ok p := by
  obtain ⟨output, stack, argCount⟩ := p
  match stack, h with
  | [], _ => rfl
  | (.var _, _) :: _, _ | (.global _, _) :: _, _ | (.capture _, _) :: _, _
  | (.constant _, _) :: _, _ | (.binaryOperator _, _) :: _, _ | (.unaryOperator _, _) :: _, _
  | (.openParen, _) :: _, _ | (.closeParen, _) :: _, _ | (.openBracket, _) :: _, _
  | (.closeBracket, _) :: _, _ | (.comma, _) :: _, _ => rfl

theorem modify_length_append {α : Type*} (pre rest : List α) (a : α) (f : α → α) :
    (pre ++ a :: rest).modify pre.length f = pre ++ f a :: rest := by
  induction pre with
  | nil => simp
  | cons b pre ih => simp [ih]

theorem updateJmpPos_jmpIf (pre rest : List ExpressionItem) (val : Bool) (pos : ℕ)
    (stack : List (Token × Option ℕ)) :
    (ExpressionParser.mk (pre ++ .jmpIf val pos :: rest) stack []).updateJmpPos (some pre.length) =
      ⟨pre ++ .jmpIf val (rest.length + 1) :: rest, stack, []⟩ := by
  simp only [updateJmpPos, List.length_append, List.length_cons, modify_length_append, setJmpPos,
    Nat.add_sub_cancel_left]

theorem loop_cons {p p' : ExpressionParser} {last last' : Bool} {token : Token}
    (h : p.step last token = .ok (p', last')) (tokens : List Token) :
    loop (token :: tokens) p last = loop tokens p' last' := by
  rw [loop, h]
  rfl

theorem step_binaryOperator (out : List ExpressionItem) (stack : List (Token × Option ℕ))
    (last : Bool) (op : BinaryOperator) :
    (ExpressionParser.mk out ((.openParen, none) :: stack) []).step last (.binaryOperator op) =
      .ok (⟨out ++ Tree.jumpItems op 0,
        (.binaryOperator op, op.jumpsOn.map fun _ => out.length) :: (.openParen, none) :: stack, []⟩,
        false) := by
  cases op <;> simp [step, binaryOperator, decArgCount, popOperators, push, Tree.jumpItems,
    BinaryOperator.jumpsOn]

theorem step_closeParen_binary (out code : List ExpressionItem) (op : BinaryOperator)
    (stack : List (Token × Option ℕ)) (last : Bool) (hstack : callOnTop stack = false) :
    (ExpressionParser.mk (out ++ Tree.jumpItems op 0 ++ code)
        ((.binaryOperator op, op.jumpsOn.map fun _ => out.length) :: (.openParen, none) :: stack)
        []).step last .closeParen =
      .ok (⟨out ++ Tree.jumpItems op (code.length + 1) ++ code ++ [.binaryOperator op], stack, []⟩,
        true) := by
  cases hj : op.jumpsOn with
  | none =>
    simp [step, closeLoop, emitBinary, updateJmpPos, push, Tree.jumpItems, hj,
      closeCall_of_callOnTop (p := ⟨_, stack, _⟩) hstack]
  | some val =>
    have hjmp := updateJmpPos_jmpIf out code val 0
      ((.binaryOperator op, some out.length) :: (.openParen, none) :: stack)
    simp [step, closeLoop, emitBinary, Tree.jumpItems, hj, hjmp, push,
      closeCall_of_callOnTop (p := ⟨_, stack, _⟩) hstack]

theorem step_closeParen_unary (out : List ExpressionItem) (op : UnaryOperator)
    (stack : List (Token × Option ℕ)) (last : Bool) (hstack : callOnTop stack = false) :
    (ExpressionParser.mk out ((.unaryOperator op, none) :: (.openParen, none) :: stack) []).step
        last .closeParen =
      .ok (⟨out ++ [.unaryOperator op], stack, []⟩, true) := by
  simp [step, closeLoop, push, closeCall_of_callOnTop (p := ⟨_, stack, _⟩) hstack]

theorem loop_tokens (e : Tree) : ∀ (rest : List Token) (out : List ExpressionItem)
    (stack : List (Token × Option ℕ)) (last : Bool), callOnTop stack = false →
    loop (e.tokens ++ rest) ⟨out, stack, []⟩ last =
      loop rest ⟨out ++ e.compile, stack, []⟩ e.endsVarOrFnc := by
  induction e with
  | var v => intro rest out stack last _; rfl
  | global g => intro rest out stack last _; rfl
  | capture i => intro rest out stack last _; rfl
  | constant c => intro rest out stack last _; rfl
  | unary op e ih =>
    intro rest out stack last hstack
    have hopen : loop ((Tree.unary op e).tokens ++ rest) ⟨out, stack, []⟩ last =
        loop (e.tokens ++ .closeParen :: rest)
          ⟨out, (.unaryOperator op, none) :: (.openParen, none) :: stack, []⟩ false := by
      simp [Tree.tokens, loop, step, pushOp]
    rw [hopen, ih _ _ _ _ rfl, loop_cons (step_closeParen_unary _ op stack _ hstack)]
    simp [Tree.compile, Tree.endsVarOrFnc]
  | binary op l r ihl ihr =>
    intro rest out stack last hstack
    have hopen : loop ((Tree.binary op l r).tokens ++ rest) ⟨out, stack, []⟩ last =
        loop (l.tokens ++ .binaryOperator op :: (r.tokens ++ .closeParen :: rest))
          ⟨out, (.openParen, none) :: stack, []⟩ false := by
      simp [Tree.tokens, loop, step, pushOp]
    rw [hopen, ihl _ _ _ _ rfl, loop_cons (step_binaryOperator _ stack _ op), ihr _ _ _ _ rfl]
    have hclose := step_closeParen_binary (out ++ l.compile) r.compile op stack r.endsVarOrFnc hstack
    simp only [List.append_assoc] at hclose ⊢
    rw [loop_cons hclose]
    simp [Tree.compile, Tree.endsVarOrFnc]

end ExpressionParser

/-- A printed tree parses to its program. -/
theorem parse_tokens (e : Tree) : parse (e.tokens, none) = .ok ⟨e.compile⟩ := by
  have h := ExpressionParser.loop_tokens e [] [] [] false rfl
  simp only [List.append_nil, List.nil_append] at h
  simp [parse, h, ExpressionParser.loop, ExpressionParser.finish]

/-! ## The evaluator on a compiled tree -/

section Run

variable (t : F64Text) (env : Env)

theorem evalLoop_skip (pre items : List ExpressionItem) (k : ℕ) (stack : List Variable)
    (captures : List String) :
    evalLoop t env (pre ++ items) (pre.length + k) stack captures =
      evalLoop t env items k stack captures := by
  induction pre with
  | nil => simp
  | cons item pre ih =>
    rw [List.cons_append, List.length_cons, Nat.add_right_comm]
    exact ih

theorem evalLoop_compile (captures : List String) (e : Tree) :
    ∀ (rest : List ExpressionItem) (stack : List Variable),
      evalLoop t env (e.compile ++ rest) 0 stack captures =
        evalLoop t env rest 0 (e.evalShort t env captures :: stack) captures := by
  induction e with
  | var v => intro rest stack; rfl
  | global g => intro rest stack; rfl
  | capture i => intro rest stack; rfl
  | constant c => intro rest stack; rfl
  | unary op e ih =>
    intro rest stack
    simp only [Tree.compile, List.append_assoc, List.singleton_append, ih]
    rfl
  | binary op l r ihl ihr =>
    intro rest stack
    cases hj : op.jumpsOn with
    | none =>
      simp only [Tree.compile, Tree.jumpItems, hj, List.append_nil, List.append_assoc,
        List.singleton_append, ihl, ihr]
      simp [evalLoop, evalItem, pop, Tree.evalShort, hj]
    | some val =>
      simp only [Tree.compile, Tree.jumpItems, hj, List.append_assoc, List.singleton_append, ihl]
      by_cases hv : (l.evalShort t env captures).toBool = val
      · have hskip := evalLoop_skip t env (r.compile ++ [.binaryOperator op]) rest 0
          (l.evalShort t env captures :: stack) captures
        simp only [List.length_append, List.length_singleton, Nat.add_zero, List.append_assoc,
          List.singleton_append] at hskip
        simp [evalLoop, evalItem, hv, hskip, Tree.evalShort, hj]
      · simp [evalLoop, evalItem, hv, ihr, pop, Tree.evalShort, hj]

/-- The evaluator runs a tree's program to the tree's short-circuit value. -/
theorem eval_compile (captures : List String) (e : Tree) :
    eval t env ⟨e.compile⟩ captures = .ok (e.evalShort t env captures, captures) := by
  have h := evalLoop_compile t env captures e [] []
  rw [List.append_nil] at h
  simp [eval, h, evalLoop, pop]

end Run

/-! ## When the short-circuit changes nothing -/

namespace Tree

/-- Whether a tree's value is a truth value: a comparison, a logical operator
or a negation. -/
def isTruthValued : Tree → Bool
  | .unary .not _ => true
  | .binary .add _ _ | .binary .subtract _ _ | .binary .multiply _ _ | .binary .divide _ _ => false
  | .binary _ _ _ => true
  | _ => false

/-- Whether the left operand of every `&&` and `||` in a tree is a truth value. -/
def leftTruthValued : Tree → Bool
  | .unary _ e => e.leftTruthValued
  | .binary op l r =>
    (op.jumpsOn.isNone || l.isTruthValued) && l.leftTruthValued && r.leftTruthValued
  | _ => true

theorem leftTruthValued_unary (op : UnaryOperator) (e : Tree) :
    (unary op e).leftTruthValued = e.leftTruthValued := rfl

theorem leftTruthValued_binary (op : BinaryOperator) (l r : Tree) :
    (binary op l r).leftTruthValued =
      ((op.jumpsOn.isNone || l.isTruthValued) && l.leftTruthValued && r.leftTruthValued) := rfl

section Agree

variable (t : F64Text) (env : Env) (captures : List String)

theorem apply_truthValued (op : BinaryOperator) (hop : (binary op l r).isTruthValued)
    (x y : Variable) : ∃ b, op.apply t x y = .integer (ofBool b) := by
  cases op
  case add | subtract | multiply | divide => exact absurd hop Bool.false_ne_true
  all_goals exact ⟨_, rfl⟩

theorem apply_of_jumpsOn {op : BinaryOperator} {val : Bool} (hj : op.jumpsOn = some val)
    (y : Variable) : op.apply t (.integer (ofBool val)) y = .integer (ofBool val) := by
  cases op <;> simp_all [BinaryOperator.jumpsOn, BinaryOperator.apply, Variable.opAnd,
    Variable.opOr, Variable.toBool, ofBool]

theorem toBool_ofBool (b : Bool) : (Variable.integer (ofBool b)).toBool = b := by
  cases b <;> rfl

theorem evalShort_truthValued (e : Tree) (htruth : e.isTruthValued) (hleft : e.leftTruthValued) :
    ∃ b, e.evalShort t env captures = .integer (ofBool b) := by
  induction e with
  | var _ | global _ | capture _ | constant _ => exact absurd htruth Bool.false_ne_true
  | unary op e _ =>
    cases op with
    | not => exact ⟨_, rfl⟩
    | minus => exact absurd htruth Bool.false_ne_true
  | binary op l r ihl _ =>
    simp only [leftTruthValued_binary, Bool.and_eq_true, Bool.or_eq_true, Option.isNone_iff_eq_none]
      at hleft
    obtain ⟨⟨hjump, hl⟩, -⟩ := hleft
    simp only [evalShort]
    cases hj : op.jumpsOn with
    | none => exact apply_truthValued t op htruth _ _
    | some val =>
      have hlt : l.isTruthValued := by simpa [hj] using hjump
      dsimp only
      split_ifs
      · exact ihl hlt hl
      · exact apply_truthValued t op htruth _ _

theorem evalShort_eq_evalTree (e : Tree) (h : e.leftTruthValued) :
    e.evalShort t env captures = e.evalTree t env captures := by
  induction e with
  | var _ | global _ | capture _ | constant _ => rfl
  | unary op e ih =>
    rw [leftTruthValued_unary] at h
    simp [evalShort, evalTree, ih h]
  | binary op l r ihl ihr =>
    have hleft := h
    simp only [leftTruthValued_binary, Bool.and_eq_true, Bool.or_eq_true, Option.isNone_iff_eq_none] at h
    obtain ⟨⟨hjump, hl⟩, hr⟩ := h
    simp only [evalShort, evalTree, ← ihl hl, ← ihr hr]
    cases hj : op.jumpsOn with
    | none => rfl
    | some val =>
      have hlt : l.isTruthValued := by simpa [hj] using hjump
      obtain ⟨b, hb⟩ := evalShort_truthValued t env captures l hlt hl
      simp only [hb, toBool_ofBool]
      split_ifs with hbv
      · subst hbv
        rw [apply_of_jumpsOn t hj]
      · rfl

end Agree

end Tree

/-- `5 || 0` parses to a program whose jump, taken on the true `5`, skips the
`0` and the operator, so the program's value is `5`; the reference evaluator
applies `op_or` and gets `1`. -/
theorem parse_eval_or_leftOperand (cfg : TokenizerConfig) (env : Env) (captures : List String) :
    parse (tokenize cfg "5 || 0") =
        .ok ⟨[.constant (.integer 5), .jmpIf true 2, .constant (.integer 0), .binaryOperator .or]⟩ ∧
      eval cfg.f64 env
          ⟨[.constant (.integer 5), .jmpIf true 2, .constant (.integer 0), .binaryOperator .or]⟩
          captures = .ok (.integer 5, captures) ∧
      (Tree.binary .or (.constant (.integer 5)) (.constant (.integer 0))).evalTree cfg.f64 env
          captures = .integer 1 :=
  ⟨rfl, rfl, rfl⟩

end EsmpServer.Expr
