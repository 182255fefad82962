import Lox.Interpreter.Machine
import Lox.Value.Operator

/-!
The meaning of expressions and statements.

`evaluate` gives the value of an expression in a frame and `execute` says how a statement ends in
one. Operands, and the callee and arguments of a call, are evaluated from left to right. A block and
the body of a function run in a frame of their own, the latter under the frame that the function was
declared in.

Leaving a loop or a function is an ordinary way for a statement to end. A loop ends on a `break`
without a label, a labelled statement on a `break` with its label, and a continue point on a
`continue` with no label or its own; everything else passes through. A call ends on `return`, and
neither `break` nor `continue` can leave it.

All these functions are given fuel, one unit for each step down; an outcome reached with some fuel
is reached with more.
-/

namespace Lox.Interpreter

open Exec

/-- Whether a `continue` ends a continue point with the given label. -/
def resumes (signal : Signal) (label : Option Name) : Bool :=
  signal.label.isNone || signal.targets (label.map (·.text))

/-- How a labelled statement ends, by how the statement in it ends. -/
def catchBreak (label : Name) : Flow → Flow
  | .breaking signal => if signal.targets (some label.text) then .normal else .breaking signal
  | flow => flow

/-- How a continue point ends, by how the loop body in it ends. -/
def catchContinue (label : Option Name) : Flow → Flow
  | .continuing signal => if resumes signal label then .normal else .continuing signal
  | flow => flow

/-- The value of a call, by how the body of the function ends. -/
def callResult : Flow → Exec Value
  | .normal => pure .nil
  | .returning value _ => pure value
  | .breaking signal => fail (signal.escape "break")
  | .continuing signal => fail (signal.escape "continue")

/-- Whether the left operand of a logical operator is the value of the whole. -/
def decides (op : LogicalOp) (left : Value) : Bool :=
  match op with
  | .or => left.isTruthy
  | .and => !left.isTruthy

mutual

/-- The value of an expression in a frame. -/
def evaluate (host : Host) : (fuel : Nat) → Expr → FrameRef → Exec Value
  | 0, _, _ => outOfFuel
  | _ + 1, .literal value, _ => pure (.ofLiteral value)
  | fuel + 1, .group inner, ref => evaluate host fuel inner ref
  | fuel + 1, .unary op line operand, ref => do
    let value ← evaluate host fuel operand ref
    ofExcept line (op.apply value)
  | fuel + 1, .binary op line left right, ref => do
    let first ← evaluate host fuel left ref
    let second ← evaluate host fuel right ref
    ofExcept line (op.apply first second)
  | fuel + 1, .logical op left right, ref => do
    let first ← evaluate host fuel left ref
    if decides op first then return first else evaluate host fuel right ref
  | _ + 1, .variable name, ref => lookup name ref
  | fuel + 1, .assign name value, ref => do
    let value ← evaluate host fuel value ref
    assign ref name value
    return value
  | fuel + 1, .call callee arguments closeLine, ref => do
    let callee ← evaluate host fuel callee ref
    let arguments ← evaluateAll host fuel arguments ref
    callValue host fuel callee arguments closeLine

/-- The values of expressions in a frame, from left to right. -/
def evaluateAll (host : Host) : (fuel : Nat) → List Expr → FrameRef → Exec (List Value)
  | 0, _, _ => outOfFuel
  | _ + 1, [], _ => return []
  | fuel + 1, expr :: rest, ref => do
    let value ← evaluate host fuel expr ref
    let values ← evaluateAll host fuel rest ref
    return value :: values

/-- The value of a call with the given arguments, whose errors are reported at `line`. -/
def callValue (host : Host) : (fuel : Nat) → Value → List Value → (line : Nat) → Exec Value
  | 0, _, _, _ => outOfFuel
  | fuel + 1, .function callee, arguments, line =>
    if arguments.length ≠ callee.arity then
      fail ⟨.arityMismatch callee.arity arguments.length, line⟩
    else
      match callee with
      | .native native => callNative host native arguments line
      | .closure closure => do
        let flow ← nested host.maxCallDepth line (runClosure host fuel closure arguments)
        callResult flow
  | _ + 1, callee, _, line => fail ⟨.notCallable callee.typeName, line⟩

/-- How the body of a closure ends for the given arguments. -/
def runClosure (host : Host) : (fuel : Nat) → Closure → List Value → Exec Flow
  | 0, _, _ => outOfFuel
  | fuel + 1, closure, arguments => do
    let ref ← newChild closure.scope
    bindParameters ref closure.decl.parameters arguments
    executeAll host fuel closure.decl.body ref

/-- How a statement ends in a frame. -/
def execute (host : Host) : (fuel : Nat) → Stmt → FrameRef → Exec Flow
  | 0, _, _ => outOfFuel
  | fuel + 1, .expression value, ref => do
    let _ ← evaluate host fuel value ref
    return .normal
  | fuel + 1, .print value, ref => do
    let value ← evaluate host fuel value ref
    print value.render
    return .normal
  | _ + 1, .define name none, ref => do
    define ref name none
    return .normal
  | fuel + 1, .define name (some first), ref => do
    let value ← evaluate host fuel first ref
    define ref name (some value)
    return .normal
  | fuel + 1, .block body, ref => do
    let inner ← newChild ref
    executeAll host fuel body inner
  | fuel + 1, .conditional condition thenBranch elseBranch, ref => do
    let value ← evaluate host fuel condition ref
    if value.isTruthy then execute host fuel thenBranch ref
    else
      match elseBranch with
      | some elseBranch => execute host fuel elseBranch ref
      | none => return .normal
  | fuel + 1, .loop condition body, ref => repeatWhile host fuel condition body ref
  | _ + 1, .breakOut line label, _ => return .breaking ⟨label.map (·.text), line⟩
  | _ + 1, .continueOn line label, _ => return .continuing ⟨label.map (·.text), line⟩
  | fuel + 1, .labelled label body, ref => do
    let flow ← execute host fuel body ref
    return catchBreak label flow
  | fuel + 1, .continuePoint label body, ref => do
    let flow ← execute host fuel body ref
    return catchContinue label flow
  | _ + 1, .function name parameters body, ref => do
    let closure ← makeClosure ⟨name, parameters, body⟩ ref
    define ref name (some (.function (.closure closure)))
    return .normal
  | fuel + 1, .returning line value, ref => do
    let value ← evaluate host fuel value ref
    return .returning value line

/-- How a row of statements ends in a frame: it goes on as long as they end normally. -/
def executeAll (host : Host) : (fuel : Nat) → List Stmt → FrameRef → Exec Flow
  | 0, _, _ => outOfFuel
  | _ + 1, [], _ => return .normal
  | fuel + 1, stmt :: rest, ref => do
    match ← execute host fuel stmt ref with
    | .normal => executeAll host fuel rest ref
    | flow => return flow

/-- How a loop ends in a frame. -/
def repeatWhile (host : Host) : (fuel : Nat) → Expr → Stmt → FrameRef → Exec Flow
  | 0, _, _, _ => outOfFuel
  | fuel + 1, condition, body, ref => do
    let value ← evaluate host fuel condition ref
    if value.isTruthy then
      match ← execute host fuel body ref with
      | .normal => repeatWhile host fuel condition body ref
      | .breaking ⟨none, _⟩ => return .normal
      | flow => return flow
    else return .normal

end

end Lox.Interpreter
