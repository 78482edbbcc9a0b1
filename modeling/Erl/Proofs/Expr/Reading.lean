/-
  Erl.Proofs.Expr.Reading

  What the expression reader makes of tokens.

  Each rule below says what one of the reading functions returns when the functions that it calls
  return what the rule assumes.  The rules are all that is needed to follow the reader through a
  token list, so nothing that uses them has to open it.  A closing parenthesis is something that no
  reading function goes past: what is read before one is read in the same way when one follows.
-/

import Erl.Expr.Parser

namespace Erl

/-! ## Expressions apart from names and places -/

mutual

/-- An expression with other names and places. -/
def Expr.map (rename : String → String) (move : Location → Location) : Expr → Expr
  | .literal l => .literal l
  | .name s location => .name (rename s) (move location)
  | .negate e => .negate (e.map rename move)
  | .binary op a b => .binary op (a.map rename move) (b.map rename move)
  | .call f args location => .call f (Expr.mapAll rename move args) (move location)

/-- Expressions with other names and places. -/
def Expr.mapAll (rename : String → String) (move : Location → Location) : List Expr → List Expr
  | [] => []
  | e :: rest => e.map rename move :: Expr.mapAll rename move rest

end

theorem Expr.length_mapAll (rename : String → String) (move : Location → Location)
    (es : List Expr) : (Expr.mapAll rename move es).length = es.length := by
  induction es with
  | nil => rfl
  | cons e rest ih => rw [Expr.mapAll, List.length_cons, List.length_cons, ih]

namespace Parser

/-- A reading that succeeds with a value and leaves some tokens. -/
def Reads {α : Type} {bound : Nat} (result : Except SyntaxError (Parsed α bound)) (a : α)
    (rest : List Lexeme) : Prop :=
  ∃ shorter, result = .ok ⟨a, rest, shorter⟩

variable {stop : Location} {limit : Nat} {ts rest rest' : List Lexeme} {left right e : Expr}

/-- What succeeds reads what it returns. -/
theorem reads_of_eq {α : Type} {bound : Nat} {result : Except SyntaxError (Parsed α bound)}
    {p : Parsed α bound} (h : result = .ok p) : Reads result p.value p.rest :=
  ⟨p.shorter, h⟩

/-! ## Chains -/

theorem chain_reads (hleft : Reads (operand stop ts) left rest)
    (hclimb : Reads (climb stop limit left rest) e rest') :
    Reads (chain stop limit ts) e rest' := by
  obtain ⟨hshort, hleft⟩ := hleft
  obtain ⟨hshort', hclimb⟩ := hclimb
  have hlt : rest'.length < ts.length :=
    Nat.lt_of_lt_of_le hshort' (Nat.succ_le_of_lt hshort)
  refine ⟨hlt, ?_⟩
  rw [chain, hleft]
  dsimp only
  rw [hclimb]
  rfl

/-- An operator that binds tightly enough takes a chain of tighter ones as its right operand. -/
theorem climb_reads {op : BinaryOp} {location : Location} (hop : op.precedence ≤ limit)
    (hright : Reads (chain stop (op.precedence - 1) ts) right rest)
    (hclimb : Reads (climb stop limit (.binary op left right) rest) e rest') :
    Reads (climb stop limit left (⟨.operator op, location⟩ :: ts)) e rest' := by
  obtain ⟨hshort, hright⟩ := hright
  obtain ⟨hshort', hclimb⟩ := hclimb
  have hlt : rest'.length < (⟨.operator op, location⟩ :: ts : List Lexeme).length + 1 := by
    simp only [List.length_cons]
    omega
  refine ⟨hlt, ?_⟩
  rw [climb, if_pos hop, hright]
  dsimp only
  rw [hclimb]
  rfl

/-- A chain ends before what is no operator that binds tightly enough. -/
theorem climb_stops
    (h : ∀ op location rest, ts = ⟨.operator op, location⟩ :: rest → limit < op.precedence) :
    Reads (climb stop limit left ts) left ts := by
  refine ⟨Nat.lt_succ_self _, ?_⟩
  unfold climb
  split
  · next op location rest =>
    have hop := h op location rest rfl
    rw [if_neg (Nat.not_le_of_lt hop)]
  · rfl

/-- A chain ends before a closing parenthesis. -/
theorem climb_stops_paren (closing : Location) (after : List Lexeme) :
    Reads (climb stop limit left (⟨.rightParen, closing⟩ :: after)) left
      (⟨.rightParen, closing⟩ :: after) :=
  climb_stops fun op location rest h => by cases h

/-! ## Operands -/

theorem operand_reads_minus {location : Location} (h : Reads (operand stop ts) e rest) :
    Reads (operand stop (⟨.operator .subtract, location⟩ :: ts)) (.negate e) rest := by
  obtain ⟨hshort, h⟩ := h
  refine ⟨Nat.lt_succ_of_lt hshort, ?_⟩
  rw [operand, h]

theorem operand_eq_primary (h : ∀ location rest, ts ≠ ⟨.operator .subtract, location⟩ :: rest) :
    operand stop ts = primary stop ts := by
  unfold operand
  split
  · next location rest => exact absurd rfl (h location rest)
  · rfl

theorem operand_reads_primary
    (hhead : ∀ location rest, ts ≠ ⟨.operator .subtract, location⟩ :: rest)
    (h : Reads (primary stop ts) e rest) : Reads (operand stop ts) e rest := by
  rw [operand_eq_primary hhead]
  exact h

theorem primary_reads_number (x : Float) (location : Location) :
    Reads (primary stop (⟨.number x, location⟩ :: rest)) (.literal (.number x)) rest :=
  ⟨Nat.lt_succ_self _, by rw [primary]⟩

theorem primary_reads_text (s : String) (location : Location) :
    Reads (primary stop (⟨.text s, location⟩ :: rest)) (.literal (.text s)) rest :=
  ⟨Nat.lt_succ_self _, by rw [primary]⟩

theorem primary_reads_name (s : String) (location : Location) :
    Reads (primary stop (⟨.name s, location⟩ :: rest)) (word s location) rest :=
  ⟨Nat.lt_succ_self _, by rw [primary]⟩

theorem primary_reads_paren {opening closing : Location}
    (h : Reads (chain stop BinaryOp.or.precedence ts) e (⟨.rightParen, closing⟩ :: rest)) :
    Reads (primary stop (⟨.leftParen, opening⟩ :: ts)) e rest := by
  obtain ⟨hshort, h⟩ := h
  have hlt : rest.length < (⟨.leftParen, opening⟩ :: ts : List Lexeme).length := by
    simp only [List.length_cons] at hshort ⊢
    omega
  refine ⟨hlt, ?_⟩
  rw [primary, h]
  dsimp only
  rw [closeParen, if_pos rfl]
  rfl

theorem primary_reads_call {s : String} {location : Location} {f : Builtin} {args : List Expr}
    (hf : Builtin.find? s = some f)
    (hargs : Reads (arguments stop (negatesArgument f.arity) f.arity.most ts) args rest)
    (hleast : f.arity.least ≤ args.length) :
    Reads (primary stop (⟨.function s, location⟩ :: ts)) (.call f args location) rest := by
  obtain ⟨hshort, hargs⟩ := hargs
  refine ⟨hshort, ?_⟩
  rw [primary, hf]
  dsimp only
  rw [hargs]
  dsimp only
  rw [if_neg (Nat.not_lt_of_le hleast)]

/-! ## Arguments -/

theorem arguments_reads_none {negation : Bool} {room : Nat}
    (h : room = 0 ∨ canStartArgument negation ts = false) :
    Reads (arguments stop negation room ts) [] ts := by
  refine ⟨Nat.lt_succ_self _, ?_⟩
  unfold arguments
  split
  · rfl
  · next room =>
    have hstart : canStartArgument negation ts = false := by
      rcases h with hroom | hstart
      · cases hroom
      · exact hstart
    rw [if_neg (by simp [hstart])]

theorem arguments_reads_cons {negation : Bool} {room : Nat} {arg : Expr} {args : List Expr}
    (hstart : canStartArgument negation ts = true) (harg : Reads (operand stop ts) arg rest)
    (hargs : Reads (arguments stop negation room rest) args rest') :
    Reads (arguments stop negation (room + 1) ts) (arg :: args) rest' := by
  obtain ⟨hshort, harg⟩ := harg
  obtain ⟨hshort', hargs⟩ := hargs
  have hlt : rest'.length < ts.length + 1 := by omega
  refine ⟨hlt, ?_⟩
  rw [arguments, if_pos hstart, harg]
  dsimp only
  rw [hargs]

/-! ## Whole expressions -/

theorem expression_eq_ok_iff :
    expression stop ts = .ok (e, rest) ↔ Reads (chain stop BinaryOp.or.precedence ts) e rest := by
  constructor
  · intro h
    unfold expression at h
    split at h
    · cases h
    · next p hp =>
      cases h
      exact reads_of_eq hp
  · rintro ⟨hshort, h⟩
    rw [expression, h]

/-! ## Before a closing parenthesis -/

/-- A closing parenthesis was the next token, and what was read before it stays. -/
theorem closeParen_ok {bound : Nat} {p closed : Parsed Expr bound}
    (h : closeParen stop p = .ok closed) :
    closed.value = p.value ∧ ∃ closing, p.rest = ⟨.rightParen, closing⟩ :: closed.rest := by
  unfold closeParen at h
  split at h
  · cases h
  · next next rest shorter =>
    split at h
    · next hparen =>
      cases h
      obtain ⟨token, location⟩ := next
      cases hparen
      exact ⟨rfl, location, rfl⟩
    · cases h

section BeforeParen

variable (closing : Location) (after : List Lexeme)

theorem canStartArgument_append_paren (negation : Bool) (ts : List Lexeme) :
    canStartArgument negation (ts ++ ⟨.rightParen, closing⟩ :: after)
      = canStartArgument negation ts := by
  cases ts <;> rfl

-- The proofs follow the recursion of the reader.  Where it stops at the end of the tokens it stops
-- before the parenthesis as well, and everywhere else it looks at the same token.

mutual

theorem chain_before_paren (stop : Location) (limit : Nat) (ts : List Lexeme)
    {p : Parsed Expr ts.length} (h : chain stop limit ts = .ok p) :
    Reads (chain stop limit (ts ++ ⟨.rightParen, closing⟩ :: after)) p.value
      (p.rest ++ ⟨.rightParen, closing⟩ :: after) := by
  rw [chain] at h
  split at h
  · cases h
  · next left rest shorter hleft =>
    split at h
    · cases h
    · next result hresult =>
      cases h
      exact chain_reads (operand_before_paren stop ts hleft)
        (climb_before_paren stop limit left rest hresult)
termination_by 3 * ts.length + 2

theorem climb_before_paren (stop : Location) (limit : Nat) (left : Expr) (ts : List Lexeme)
    {p : Parsed Expr (ts.length + 1)} (h : climb stop limit left ts = .ok p) :
    Reads (climb stop limit left (ts ++ ⟨.rightParen, closing⟩ :: after)) p.value
      (p.rest ++ ⟨.rightParen, closing⟩ :: after) := by
  unfold climb at h
  split at h
  · next op location rest =>
    split at h
    · next hop =>
      split at h
      · cases h
      · next right rest' shorter hright =>
        split at h
        · cases h
        · next result hresult =>
          cases h
          exact climb_reads hop (chain_before_paren stop _ rest hright)
            (climb_before_paren stop limit _ rest' hresult)
    · next hop =>
      cases h
      refine climb_stops fun op' location' rest' heq => ?_
      cases heq
      exact Nat.lt_of_not_le hop
  · next hother =>
    cases h
    refine climb_stops fun op location rest heq => ?_
    cases ts with
    | nil => cases heq
    | cons l others =>
      cases heq
      exact absurd rfl (hother op location others)
termination_by 3 * ts.length
decreasing_by all_goals grind

theorem operand_before_paren (stop : Location) (ts : List Lexeme) {p : Parsed Expr ts.length}
    (h : operand stop ts = .ok p) :
    Reads (operand stop (ts ++ ⟨.rightParen, closing⟩ :: after)) p.value
      (p.rest ++ ⟨.rightParen, closing⟩ :: after) := by
  unfold operand at h
  split at h
  · next rest =>
    split at h
    · cases h
    · next e rest' shorter he =>
      cases h
      exact operand_reads_minus (operand_before_paren stop rest he)
  · next hother =>
    refine operand_reads_primary (fun location rest heq => ?_) (primary_before_paren stop _ h)
    cases ts with
    | nil => cases heq
    | cons l others =>
      cases heq
      exact hother location others rfl
termination_by 3 * ts.length + 1

theorem primary_before_paren (stop : Location) (ts : List Lexeme) {p : Parsed Expr ts.length}
    (h : primary stop ts = .ok p) :
    Reads (primary stop (ts ++ ⟨.rightParen, closing⟩ :: after)) p.value
      (p.rest ++ ⟨.rightParen, closing⟩ :: after) := by
  unfold primary at h
  split at h
  · cases h
    exact primary_reads_number _ _
  · cases h
    exact primary_reads_text _ _
  · cases h
    exact primary_reads_name _ _
  · next rest =>
    split at h
    · cases h
    · next result hresult =>
      split at h
      · cases h
      · next closed hclosed =>
        cases h
        have hin := chain_before_paren stop _ rest hresult
        obtain ⟨hvalue, inner, hrest⟩ := closeParen_ok hclosed
        rw [hrest, ← hvalue, List.cons_append] at hin
        exact primary_reads_paren hin
  · next s location rest =>
    split at h
    · cases h
    · next f hf =>
      split at h
      · cases h
      · next args rest' shorter hargs =>
        split at h
        · cases h
        · next hleast =>
          cases h
          exact primary_reads_call hf (arguments_before_paren stop _ _ rest hargs)
            (Nat.le_of_not_lt hleast)
  · cases h
termination_by 3 * ts.length

theorem arguments_before_paren (stop : Location) (negation : Bool) (room : Nat)
    (ts : List Lexeme) {p : Parsed (List Expr) (ts.length + 1)}
    (h : arguments stop negation room ts = .ok p) :
    Reads (arguments stop negation room (ts ++ ⟨.rightParen, closing⟩ :: after)) p.value
      (p.rest ++ ⟨.rightParen, closing⟩ :: after) := by
  unfold arguments at h
  split at h
  · cases h
    exact arguments_reads_none (.inl rfl)
  · next room =>
    split at h
    · next hstart =>
      split at h
      · cases h
      · next arg rest shorter harg =>
        split at h
        · cases h
        · next args rest' shorter' hargs =>
          cases h
          rw [← canStartArgument_append_paren closing after] at hstart
          exact arguments_reads_cons hstart (operand_before_paren stop ts harg)
            (arguments_before_paren stop negation room rest hargs)
    · next hstart =>
      cases h
      refine arguments_reads_none (.inr ?_)
      rw [canStartArgument_append_paren]
      simpa using hstart
termination_by 3 * ts.length + 2

end

end BeforeParen

/-- A parenthesised expression is an operand, whatever follows it. -/
theorem primary_reads_group {inner : List Lexeme} (h : expression stop inner = .ok (e, []))
    (opening closing : Location) (rest : List Lexeme) :
    Reads (primary stop (⟨.leftParen, opening⟩ :: (inner ++ ⟨.rightParen, closing⟩ :: rest))) e
      rest := by
  obtain ⟨hshort, h⟩ := expression_eq_ok_iff.1 h
  exact primary_reads_paren (chain_before_paren closing rest stop _ inner h)

end Parser

end Erl
