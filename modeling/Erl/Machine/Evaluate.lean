/-
  Erl.Machine.Evaluate

  The values of expressions.

  Operands are evaluated from left to right, both operands of the logical operators included.
  The first operand that is an error is the result, and the operands after it are not
  evaluated.  Messages are recorded under the name of the running program.
-/

import Erl.Machine.Basic

namespace Erl

/-- The value of a constant. -/
def Literal.value : Literal → Value
  | number x => .number x
  | text s => .text s
  | null => .null

/-! ## Built-in functions -/

/-- The numbers among arguments, all of which must be numbers. -/
def numericArguments (f : Builtin) : List Value → Except EvalFault (List Float)
  | [] => .ok []
  | .number x :: rest => (numericArguments f rest).map (x :: ·)
  | v :: _ => .error (.argument f v)

/-- A function that the numeric routines compute. -/
def callRoutine (img : Image) (f : Builtin) (args : List Value) : Exec Value := do
  match numericArguments f args with
  | .error fault => return .ofFault fault
  | .ok xs =>
    let m ← get
    let (reply, generator) := img.routines f xs m.generator
    set { m with generator }
    match reply with
    | .value x => return .number x
    | .refused e => return .ofFault (.domain f e)
    | .breakdown => throw .breakdown

/-- A function that writes a message. -/
def callMessage (program : String) (f : MessageFunction) (args : List Value) : Exec Value := do
  let message := (args.head?.map Value.asMessage).getD ""
  match f with
  | .fatalHalt =>
    Exec.record .fatal program message
    throw (.fatal message)
  | .severe =>
    Exec.record .severe program message
    return .null
  | .warning =>
    Exec.record .warning program message
    return .null

/-- The number of samples that an optional argument asks for. -/
def sampleCount? : Option Value → Except EvalFault (Option Nat)
  | none => .ok none
  | some (.number x) =>
    if x.isFinite && 1.0 ≤ x then .ok (some (Number.toCount (Number.round x)))
    else .error (.sampleCount (.number x))
  | some v => .error (.sampleCount v)

/-- A statistic of a history; without a number of samples it covers the capacity, except that
    a single sample is then the newest one. -/
def TrendFunction.statistic (f : TrendFunction) (h : History Float) (samples : Option Nat)
    (hours : Float) : Option Float :=
  let window := samples.getD h.capacity
  match f with
  | value => h.sample? (samples.getD 1)
  | average => h.average? window
  | max => h.max? window
  | min => h.min? window
  | direction => h.direction? window hours
  | sum => h.sum? window

/-- A function of the history of a variable. -/
def callTrend (img : Image) (f : TrendFunction) (args : List Value) : Except EvalFault Value :=
  match args with
  | [] => .error (.missingOperand (.trend f))
  | .trendRef id :: rest =>
    match img.trends[id]? with
    | none => .error (.missingTrend (.trend f) id)
    | some t =>
      match sampleCount? rest.head? with
      | .error fault => .error fault
      | .ok samples =>
        match f.statistic t.history samples img.settings.timestepHours with
        | some x => .ok (.number x)
        | none =>
          if t.history.samples.isEmpty then .error (.noSamples (.trend f) t.name)
          else .error (.fewSamples (.trend f) t.name t.history.size)
  | v :: _ => .error (.notTrend (.trend f) v)

/-- The value of a curve. -/
def callCurve (img : Image) (args : List Value) : Except EvalFault Value :=
  match numericArguments .curveValue args with
  | .error fault => .error fault
  | .ok [] => .error (.missingOperand .curveValue)
  | .ok (index :: inputs) =>
    if index.isFinite && 1.0 ≤ index then
      match img.curves.value (Number.toCount (Number.round index)) inputs with
      | .ok x => .ok (.number x)
      | .error e => .error (.domain .curveValue e)
    else .error (.curveIndex index)

/-- A built-in function. -/
def applyBuiltin (img : Image) (program : String) (f : Builtin) (args : List Value) :
    Exec Value :=
  match f with
  | .math _ => callRoutine img f args
  | .air _ => callRoutine img f args
  | .message f => callMessage program f args
  | .trend f => pure (.ofExcept (callTrend img f args))
  | .curveValue => pure (.ofExcept (callCurve img args))

/-! ## Nodes -/

/-- An operation on the values of its operands, none of which is an error. -/
def Operation.apply (img : Image) (program : String) (o : Operation) (args : List Value) :
    Exec Value :=
  match o, args with
  | .literal, [v] => pure v
  | .negate, [v] => pure (.ofExcept v.negate)
  | .binary op, [a, b] => pure (.ofExcept (op.apply a b))
  | .call f, args =>
    if f.arity.accepts args.length then applyBuiltin img program f args
    else pure (.ofFault (.operandCount o args.length))
  | o, args => pure (.ofFault (.operandCount o args.length))

/-- The value of an operand; `sub` gives that of a node. -/
def Operand.read (sub : NodeId → Exec Value) : Operand → Exec Value
  | constant l => pure l.value
  | variableRef id => do return (← get).store.value id
  | trendRef id => pure (.trendRef id)
  | node id => sub id

/-- The values of operands up to the first that is an error. -/
def readOperands (sub : NodeId → Exec Value) : List Operand → Exec (Except Value (List Value))
  | [] => pure (.ok [])
  | o :: rest => do
    let v ← o.read sub
    if v.isError then return .error v
    match ← readOperands sub rest with
    | .error e => return .error e
    | .ok vs => return .ok (v :: vs)

/-- The value of a node; `sub` gives that of the nodes that it refers to.  Operand access
    passes on what it reads, also an error. -/
def Node.evaluate (img : Image) (program : String) (sub : NodeId → Exec Value) (n : Node) :
    Exec Value :=
  match n.operation, n.operands with
  | .literal, o :: _ => o.read sub
  | .literal, [] => pure .null
  | operation, operands => do
    match ← readOperands sub operands with
    | .error v => return v
    | .ok args => operation.apply img program args

/-- The value of the node at a position.  A reference that does not go back in the table
    counts as one to a missing node. -/
def Image.evaluate (img : Image) (program : String) (id : NodeId) : Exec Value :=
  match img.nodes[id]? with
  | none => pure (.ofFault (.missingNode id))
  | some n =>
    n.evaluate img program fun sub =>
      if sub < id then img.evaluate program sub else pure (.ofFault (.missingNode sub))
termination_by id

end Erl
