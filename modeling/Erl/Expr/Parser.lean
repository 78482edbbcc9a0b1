/-
  Erl.Expr.Parser

  Reading expressions.

  Operators between operands are read by precedence climbing: `chain limit` reads an operand
  and then every operator whose precedence is at most `limit`, and the right operand of an
  operator is a chain of tighter operators only.  A call is a function name and its arguments,
  each of them an operand: a literal, a name, a parenthesised expression, a nested call or one
  of these negated.  A function with a fixed number of arguments reads that many; one with a
  range of them stops before the first token that cannot start an argument, and takes a minus
  sign there for subtraction.

  Every reading function returns the tokens it leaves together with a proof that they are
  fewer, so the recursion ends for every token list.
-/

import Erl.Expr.Fault

namespace Erl

/-- A value read from the front of a token list, and the fewer than `bound` tokens left. -/
structure Parsed (α : Type) (bound : Nat) where
  value : α
  rest : List Lexeme
  shorter : rest.length < bound

/-- Fewer than a bound is fewer than a larger one. -/
def Parsed.weaken {α : Type} {m n : Nat} (p : Parsed α m) (h : m ≤ n) : Parsed α n :=
  ⟨p.value, p.rest, Nat.lt_of_lt_of_le p.shorter h⟩

namespace Parser

/-- The next token; after the last one the end of the line, which is at `stop`. -/
def peek (stop : Location) : List Lexeme → Lexeme
  | [] => ⟨.endOfLine, stop⟩
  | l :: _ => l

/-- A fault at the next token. -/
def fail {α : Type} (stop : Location) (ts : List Lexeme) (fault : Token → SyntaxFault) :
    Except SyntaxError α :=
  .error ⟨fault (peek stop ts).token, (peek stop ts).location⟩

/-- Whether the next token can start an argument. -/
def canStartArgument (negation : Bool) : List Lexeme → Bool
  | [] => false
  | l :: _ =>
    match l.token with
    | .number _ | .text _ | .name _ | .function _ | .leftParen => true
    | .operator .subtract => negation
    | _ => false

/-- Whether a minus sign before an argument negates it; it does where the number of
    arguments is fixed. -/
def negatesArgument : Arity → Bool
  | .exactly _ => true
  | .between _ _ => false

/-- What a word denotes: a constant or a name. -/
def word (spelling : String) (location : Location) : Expr :=
  match Literal.named? spelling with
  | some l => .literal l
  | none => .name spelling location

/-- What was read after an opening parenthesis, if a closing one follows. -/
def closeParen (stop : Location) {bound : Nat} (p : Parsed Expr bound) :
    Except SyntaxError (Parsed Expr bound) :=
  match p with
  | ⟨_, [], _⟩ => fail stop [] .unclosedParen
  | ⟨e, next :: rest, shorter⟩ =>
    if next.token = .rightParen then .ok ⟨e, rest, Nat.lt_of_succ_lt shorter⟩
    else fail stop (next :: rest) .unclosedParen

mutual

/-- An operand and the operators after it that bind no looser than `limit`. -/
def chain (stop : Location) (limit : Nat) (ts : List Lexeme) :
    Except SyntaxError (Parsed Expr ts.length) :=
  match operand stop ts with
  | .error e => .error e
  | .ok ⟨left, rest, shorter⟩ =>
    match climb stop limit left rest with
    | .error e => .error e
    | .ok result => .ok (result.weaken shorter)
termination_by 3 * ts.length + 2

/-- The operators after `left` that bind no looser than `limit`, with their right
    operands. -/
def climb (stop : Location) (limit : Nat) (left : Expr) (ts : List Lexeme) :
    Except SyntaxError (Parsed Expr (ts.length + 1)) :=
  match ts with
  | ⟨.operator op, location⟩ :: rest =>
    if op.precedence ≤ limit then
      match chain stop (op.precedence - 1) rest with
      | .error e => .error e
      | .ok ⟨right, rest', shorter⟩ =>
        match climb stop limit (.binary op left right) rest' with
        | .error e => .error e
        | .ok result => .ok (result.weaken (by simp only [List.length_cons]; omega))
    else .ok ⟨left, ⟨.operator op, location⟩ :: rest, Nat.lt_succ_self _⟩
  | ts => .ok ⟨left, ts, Nat.lt_succ_self _⟩
termination_by 3 * ts.length

/-- An operand with any number of minus signs before it. -/
def operand (stop : Location) (ts : List Lexeme) : Except SyntaxError (Parsed Expr ts.length) :=
  match ts with
  | ⟨.operator .subtract, _⟩ :: rest =>
    match operand stop rest with
    | .error e => .error e
    | .ok ⟨e, rest', shorter⟩ => .ok ⟨.negate e, rest', Nat.lt_succ_of_lt shorter⟩
  | ts => primary stop ts
termination_by 3 * ts.length + 1

/-- A literal, a name, a parenthesised expression or a call. -/
def primary (stop : Location) (ts : List Lexeme) : Except SyntaxError (Parsed Expr ts.length) :=
  match ts with
  | ⟨.number x, _⟩ :: rest => .ok ⟨.literal (.number x), rest, Nat.lt_succ_self _⟩
  | ⟨.text s, _⟩ :: rest => .ok ⟨.literal (.text s), rest, Nat.lt_succ_self _⟩
  | ⟨.name s, location⟩ :: rest => .ok ⟨word s location, rest, Nat.lt_succ_self _⟩
  | ⟨.leftParen, _⟩ :: rest =>
    match chain stop BinaryOp.or.precedence rest with
    | .error e => .error e
    | .ok result =>
      match closeParen stop result with
      | .error e => .error e
      | .ok closed => .ok (closed.weaken (Nat.le_succ _))
  | ⟨.function s, location⟩ :: rest =>
    match Builtin.find? s with
    | none => .error ⟨.unknownFunction s, location⟩
    | some f =>
      match arguments stop (negatesArgument f.arity) f.arity.most rest with
      | .error e => .error e
      | .ok ⟨args, rest', shorter⟩ =>
        if args.length < f.arity.least then
          fail stop rest' fun _ => .tooFewArguments f args.length
        else .ok ⟨.call f args location, rest', shorter⟩
  | ts => fail stop ts .expectedExpression
termination_by 3 * ts.length

/-- At most `room` arguments, up to the first token that cannot start one. -/
def arguments (stop : Location) (negation : Bool) (room : Nat) (ts : List Lexeme) :
    Except SyntaxError (Parsed (List Expr) (ts.length + 1)) :=
  match room with
  | 0 => .ok ⟨[], ts, Nat.lt_succ_self _⟩
  | room + 1 =>
    if canStartArgument negation ts then
      match operand stop ts with
      | .error e => .error e
      | .ok ⟨arg, rest, shorter⟩ =>
        match arguments stop negation room rest with
        | .error e => .error e
        | .ok ⟨args, rest', shorter'⟩ => .ok ⟨arg :: args, rest', by omega⟩
    else .ok ⟨[], ts, Nat.lt_succ_self _⟩
termination_by 3 * ts.length + 2

end

/-- An expression at the front of a token list, and the tokens after it. -/
def expression (stop : Location) (ts : List Lexeme) : Except SyntaxError (Expr × List Lexeme) :=
  match chain stop BinaryOp.or.precedence ts with
  | .error e => .error e
  | .ok result => .ok (result.value, result.rest)

end Parser

/-- The expression that a line of text is. -/
def Expr.parse (source : String) : Except SyntaxError Expr :=
  match LexedLine.read source.toList 1 with
  | .error e => .error (.ofLexical e)
  | .ok line =>
    match Parser.expression line.stop line.lexemes with
    | .error e => .error e
    | .ok (e, []) => .ok e
    | .ok (_, rest) => Parser.fail line.stop rest .afterExpression

end Erl
