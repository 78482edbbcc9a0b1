/-
  Erl.Proofs.Expr.Cursor

  Reading expressions by position.

  The reader again, with a position that moves over the tokens of a line in place of the tokens that
  are left.  Here nothing keeps the position on the line or makes it move: the functions call each
  other as often as they like, up to a depth that is given.  A walk has no result if it needs a
  greater depth, looks behind the end of the line, steps over the end of the line or lowers a
  precedence of zero.  A result does not depend on the depth: a greater depth keeps it.
-/

import Erl.Proofs.Expr.Reading

namespace Erl

namespace Parser

/-- A walk over tokens.  Its result, if it has one, is a value or an error, and the position where
    it ends. -/
abbrev Cursor (α : Type) : Type := ExceptT SyntaxError (StateT Nat Option) α

namespace Cursor

variable {α β : Type}

/-- The result of a walk that starts at a position. -/
def walk (c : Cursor α) (p : Nat) : Option (Except SyntaxError α × Nat) :=
  c.run.run p

/-- A walk without a result. -/
def undefined : Cursor α := fun _ => none

section Walks

variable (tokens : List Lexeme)

/-! ## Moving -/

/-- The token at the position, if there is one. -/
def peek : Cursor Lexeme := do
  match tokens[← get]? with
  | some l => return l
  | none => undefined

/-- One token further, if the position is not at the end of the line. -/
def advance : Cursor Unit := do
  if (← peek tokens).token = .endOfLine then undefined else modify (· + 1)

/-- A fault at the position. -/
def fail (fault : Token → SyntaxFault) : Cursor α := do
  let l ← peek tokens
  throw ⟨fault l.token, l.location⟩

/-- The limit for operators that bind tighter than a given one, if its precedence is not zero. -/
def tighter (op : BinaryOp) : Cursor Nat :=
  match op.precedence with
  | 0 => undefined
  | limit + 1 => return limit

/-! ## Reading -/

mutual

/-- An operand and the operators after it that bind no looser than `limit`. -/
def chain : Nat → Nat → Cursor Expr
  | 0, _ => undefined
  | depth + 1, limit => do
    let left ← operand depth
    climb depth limit left

/-- The operators after `left` that bind no looser than `limit`, with their right operands. -/
def climb : Nat → Nat → Expr → Cursor Expr
  | 0, _, _ => undefined
  | depth + 1, limit, left => do
    match (← peek tokens).token with
    | .operator op =>
      if op.precedence ≤ limit then
        advance tokens
        let right ← chain depth (← tighter op)
        climb depth limit (.binary op left right)
      else return left
    | _ => return left

/-- An operand with any number of minus signs before it. -/
def operand : Nat → Cursor Expr
  | 0 => undefined
  | depth + 1 => do
    match (← peek tokens).token with
    | .operator .subtract =>
      advance tokens
      return .negate (← operand depth)
    | _ => primary depth

/-- A literal, a name, a parenthesised expression or a call. -/
def primary : Nat → Cursor Expr
  | 0 => undefined
  | depth + 1 => do
    let l ← peek tokens
    match l.token with
    | .number x =>
      advance tokens
      return .literal (.number x)
    | .text s =>
      advance tokens
      return .literal (.text s)
    | .name s =>
      advance tokens
      return word s l.location
    | .leftParen =>
      advance tokens
      let e ← chain depth BinaryOp.or.precedence
      if (← peek tokens).token = .rightParen then
        advance tokens
        return e
      else fail tokens .unclosedParen
    | .function s =>
      advance tokens
      match Builtin.find? s with
      | none => throw ⟨.unknownFunction s, l.location⟩
      | some f => call depth f l.location
    | _ => fail tokens .expectedExpression

/-- The call of a function that stands before the position. -/
def call : Nat → Builtin → Location → Cursor Expr
  | 0, _, _ => undefined
  | depth + 1, f, location => do
    let args ← arguments depth (negatesArgument f.arity) f.arity.most
    if args.length < f.arity.least then fail tokens fun _ => .tooFewArguments f args.length
    else return .call f args location

/-- At most `room` arguments, up to the first token that cannot start one. -/
def arguments : Nat → Bool → Nat → Cursor (List Expr)
  | 0, _, _ => undefined
  | _ + 1, _, 0 => return []
  | depth + 1, negation, room + 1 => do
    if canStartArgument negation [← peek tokens] then
      let arg ← operand depth
      let args ← arguments depth negation room
      return arg :: args
    else return []

end

end Walks

/-! ## Results of walks -/

theorem walk_bind (c : Cursor α) (k : α → Cursor β) (p : Nat) :
    (c >>= k).walk p = (c.walk p).bind fun r => ExceptT.bindCont k r.1 r.2 :=
  rfl

theorem walk_bind_ok {c : Cursor α} {k : α → Cursor β} {a : α} {p q : Nat}
    (h : c.walk p = some (.ok a, q)) : (c >>= k).walk p = (k a).walk q := by
  rw [walk_bind, h]
  rfl

theorem walk_bind_error {c : Cursor α} {k : α → Cursor β} {e : SyntaxError} {p q : Nat}
    (h : c.walk p = some (.error e, q)) : (c >>= k).walk p = some (.error e, q) := by
  rw [walk_bind, h]
  rfl

section Results

variable {tokens : List Lexeme} {p : Nat} {l : Lexeme}

theorem walk_peek (h : tokens[p]? = some l) : (peek tokens).walk p = some (.ok l, p) := by
  have hget : (get : Cursor Nat).walk p = some (.ok p, p) := rfl
  unfold peek
  rw [walk_bind_ok hget, h]
  rfl

theorem walk_advance (h : tokens[p]? = some l) (hl : l.token ≠ .endOfLine) :
    (advance tokens).walk p = some (.ok (), p + 1) := by
  unfold advance
  rw [walk_bind_ok (walk_peek h), if_neg hl]
  rfl

theorem walk_fail (h : tokens[p]? = some l) (fault : Token → SyntaxFault) :
    (fail tokens fault : Cursor α).walk p = some (.error ⟨fault l.token, l.location⟩, p) := by
  unfold fail
  rw [walk_bind_ok (walk_peek h)]
  rfl

theorem walk_tighter (op : BinaryOp) (p : Nat) :
    (tighter op).walk p = some (.ok (op.precedence - 1), p) := by
  cases op <;> rfl

end Results

/-! ## Greater depths -/

/-- A walk has every result that another one has. -/
def Extends (c c' : Cursor α) : Prop :=
  ∀ p r, c.walk p = some r → c'.walk p = some r

theorem Extends.refl (c : Cursor α) : Extends c c :=
  fun _ _ h => h

theorem Extends.of_undefined (c : Cursor α) : Extends undefined c :=
  fun _ _ h => by cases h

theorem Extends.bind {c c' : Cursor α} {k k' : α → Cursor β} (hc : Extends c c')
    (hk : ∀ a, Extends (k a) (k' a)) : Extends (c >>= k) (c' >>= k') := by
  intro p r h
  cases hwalk : c.walk p with
  | none =>
    rw [walk_bind, hwalk] at h
    cases h
  | some s =>
    obtain ⟨result, q⟩ := s
    have hwalk' := hc p _ hwalk
    cases result with
    | error e =>
      rw [walk_bind_error hwalk] at h
      rw [walk_bind_error hwalk', h]
    | ok a =>
      rw [walk_bind_ok hwalk] at h
      rw [walk_bind_ok hwalk']
      exact hk a q r h

/-- One more open call keeps the results of all walks. -/
structure AllExtend (tokens : List Lexeme) (depth : Nat) : Prop where
  chain : ∀ limit, Extends (Cursor.chain tokens depth limit) (Cursor.chain tokens (depth + 1) limit)
  climb : ∀ limit left,
    Extends (Cursor.climb tokens depth limit left) (Cursor.climb tokens (depth + 1) limit left)
  operand : Extends (Cursor.operand tokens depth) (Cursor.operand tokens (depth + 1))
  primary : Extends (Cursor.primary tokens depth) (Cursor.primary tokens (depth + 1))
  call : ∀ f location,
    Extends (Cursor.call tokens depth f location) (Cursor.call tokens (depth + 1) f location)
  arguments : ∀ negation room,
    Extends (Cursor.arguments tokens depth negation room)
      (Cursor.arguments tokens (depth + 1) negation room)

section OneCallMore

variable {tokens : List Lexeme} {depth : Nat} (ih : AllExtend tokens depth)
include ih

theorem climb_extends (limit : Nat) (left : Expr) :
    Extends (climb tokens (depth + 1) limit left) (climb tokens (depth + 2) limit left) := by
  rw [climb, climb]
  refine .bind (.refl _) fun l => ?_
  obtain ⟨token, location⟩ := l
  cases token with
  | operator op =>
    dsimp only
    split
    · refine .bind (.refl _) fun _ => .bind (.refl _) fun tight => ?_
      exact (ih.chain tight).bind fun right => ih.climb limit (.binary op left right)
    · exact .refl _
  | _ => exact .refl _

theorem operand_extends :
    Extends (operand tokens (depth + 1)) (operand tokens (depth + 2)) := by
  rw [operand, operand]
  refine .bind (.refl _) fun l => ?_
  split
  · exact .bind (.refl _) fun _ => ih.operand.bind fun e => .refl _
  · exact ih.primary

theorem primary_extends :
    Extends (primary tokens (depth + 1)) (primary tokens (depth + 2)) := by
  rw [primary, primary]
  refine .bind (.refl _) fun l => ?_
  obtain ⟨token, location⟩ := l
  cases token with
  | leftParen => exact .bind (.refl _) fun _ => (ih.chain _).bind fun e => .refl _
  | function s =>
    refine .bind (.refl _) fun _ => ?_
    cases Builtin.find? s with
    | none => exact .refl _
    | some f => exact ih.call f location
  | _ => exact .refl _

theorem arguments_extends (negation : Bool) (room : Nat) :
    Extends (arguments tokens (depth + 1) negation room)
      (arguments tokens (depth + 2) negation room) := by
  cases room with
  | zero =>
    rw [arguments, arguments]
    exact .refl _
  | succ room =>
    rw [arguments, arguments]
    refine .bind (.refl _) fun l => ?_
    split
    · exact ih.operand.bind fun arg => (ih.arguments negation room).bind fun args => .refl _
    · exact .refl _

end OneCallMore

theorem allExtend (tokens : List Lexeme) (depth : Nat) : AllExtend tokens depth := by
  induction depth with
  | zero =>
    exact ⟨fun _ => .of_undefined _, fun _ _ => .of_undefined _, .of_undefined _, .of_undefined _,
      fun _ _ => .of_undefined _, fun _ _ => .of_undefined _⟩
  | succ depth ih =>
    refine ⟨fun limit => ?_, climb_extends ih, operand_extends ih, primary_extends ih,
      fun f location => ?_, arguments_extends ih⟩
    · rw [chain, chain]
      exact ih.operand.bind fun left => ih.climb limit left
    · rw [call, call]
      exact (ih.arguments _ _).bind fun args => .refl _

/-- A greater depth keeps a result. -/
theorem walk_of_le {c : Nat → Cursor α} (hgrows : ∀ depth, Extends (c depth) (c (depth + 1)))
    {depth depth' p : Nat} {r : Except SyntaxError α × Nat} (hle : depth ≤ depth')
    (h : (c depth).walk p = some r) : (c depth').walk p = some r := by
  induction hle with
  | refl => exact h
  | step _ ih => exact hgrows _ p r ih

end Cursor

end Parser

end Erl
