/-
  Erl.Proofs.Expr.Respelling

  Tokens that are spelled in another way.

  Names and function names may be spelled in any letter case, and a token may stand at another
  place.  The expression reader does not care: respelled tokens are read as the respelled
  expression, the tokens after it are respelled, and where the tokens are refused, the respelled
  tokens are refused for the same reason, which is about a respelled token.
-/

import Erl.Proofs.Expr.Reading
import Erl.Proofs.Text.Fold

namespace Erl

/-- Another way to write a source: the spelling of names up to letter case, the places of tokens,
    and the text that is kept of a line. -/
structure Transcription where
  spell : String → String
  place : Location → Location
  script : String → String
  fold_spell : ∀ s, Text.fold (spell s) = Text.fold s

/-- Another way to write a source line by line: tokens stay in their lines, and what is put together
    from names is respelled like them. -/
structure Respelling extends Transcription where
  spell_append : ∀ s s', spell (s ++ s') = spell s ++ spell s'
  line_place : ∀ l, (place l).line = l.line

namespace Transcription

variable (r : Transcription)

def token : Token → Token
  | .name s => .name (r.spell s)
  | .function s => .function (r.spell s)
  | t => t

def lexeme (l : Lexeme) : Lexeme :=
  ⟨r.token l.token, r.place l.location⟩

def expr (e : Expr) : Expr :=
  e.map r.spell r.place

def exprs (es : List Expr) : List Expr :=
  Expr.mapAll r.spell r.place es

def fault : SyntaxFault → SyntaxFault
  | .expectedExpression found => .expectedExpression (r.token found)
  | .unknownFunction name => .unknownFunction (r.spell name)
  | .unclosedParen found => .unclosedParen (r.token found)
  | .afterExpression found => .afterExpression (r.token found)
  | .expectedName after found => .expectedName after (r.token found)
  | .expectedAssign found => .expectedAssign (r.token found)
  | .expectedKeyword found => .expectedKeyword (r.token found)
  | .afterStatement found => .afterStatement (r.token found)
  | f => f

def error (e : SyntaxError) : SyntaxError :=
  ⟨r.fault e.fault, r.place e.location⟩

/-- What comes of reading, with its value or its error in the other spelling. -/
def outcome {α β : Type} (f : α → β) : Except SyntaxError α → Except SyntaxError β
  | .ok a => .ok (f a)
  | .error e => .error (r.error e)

/-! ## Names -/

/-- Two spellings with the same respelling name the same thing. -/
theorem fold_eq {s s' : String} (h : r.spell s = r.spell s') : Text.fold s = Text.fold s' := by
  rw [← r.fold_spell s, h, r.fold_spell]

theorem named?_spell (s : String) : Literal.named? (r.spell s) = Literal.named? s := by
  unfold Literal.named?
  rw [r.fold_spell]

theorem word_spell (s : String) (location : Location) :
    Parser.word (r.spell s) (r.place location) = r.expr (Parser.word s location) := by
  unfold Parser.word
  rw [r.named?_spell]
  cases Literal.named? s <;> rfl

/-! ## Places -/

/-- The same spelling at other places. -/
def moved (place : Location → Location) : Transcription where
  spell s := s
  place := place
  script text := text
  fold_spell _ := rfl

theorem moved_spell (place : Location → Location) (s : String) : (moved place).spell s = s :=
  rfl

theorem moved_token (place : Location → Location) (t : Token) : (moved place).token t = t := by
  cases t <;> rfl

theorem moved_fault (place : Location → Location) (f : SyntaxFault) :
    (moved place).fault f = f := by
  cases f <;> simp only [fault, moved_token, moved_spell]

end Transcription

/-! ## Functions -/

namespace Text

/-- Dropping the sign that marks a call does not depend on letter case. -/
theorem fold_bareName (s : String) :
    fold (Builtin.bareName s) = Builtin.bareName (fold s) := by
  unfold Builtin.bareName
  rw [toList_fold]
  cases hs : s.toList with
  | nil => rfl
  | cons c cs =>
    by_cases hc : c = '@'
    · subst hc
      show fold (String.ofList cs) = String.ofList (cs.map Char.toUpper)
      rw [fold, String.toList_ofList]
    · have hupper : c.toUpper ≠ '@' := fun h => hc ((toUpper_eq_at_iff c).1 h)
      rw [List.map_cons]
      split
      · next heq =>
        cases heq
        exact absurd rfl hc
      · split
        · next heq =>
          obtain ⟨hhead, -⟩ := List.cons.inj heq
          exact absurd hhead hupper
        · rfl

end Text

/-- Spellings with all letters in upper case, and no columns and texts of lines. -/
def Respelling.letterCase : Respelling where
  spell := Text.fold
  place l := ⟨l.line, 1⟩
  script _ := ""
  fold_spell := Text.fold_fold
  spell_append := Text.fold_append
  line_place _ := rfl

theorem Builtin.find?_congr {s s' : String} (h : Text.fold s = Text.fold s') :
    Builtin.find? s = Builtin.find? s' := by
  unfold Builtin.find? Text.sameName
  rw [Text.fold_bareName, Text.fold_bareName, h]

/-! ## Reading -/

namespace Parser

variable (r : Transcription)

/-- A reading and that of the respelled tokens: both succeed with values that go together, or both
    fail for the same reason. -/
inductive Respells {α β : Type} (f : α → β) {m n : Nat} :
    Except SyntaxError (Parsed α m) → Except SyntaxError (Parsed β n) → Prop where
  | ok {a : α} {rest : List Lexeme} (short : rest.length < m)
      (short' : (rest.map r.lexeme).length < n) :
      Respells f (.ok ⟨a, rest, short⟩) (.ok ⟨f a, rest.map r.lexeme, short'⟩)
  | error (e : SyntaxError) : Respells f (.error e) (.error (r.error e))

theorem peek_respelled (stop : Location) (ts : List Lexeme) :
    peek (r.place stop) (ts.map r.lexeme) = r.lexeme (peek stop ts) := by
  cases ts <;> rfl

theorem fail_respelled {α : Type} (stop : Location) (ts : List Lexeme)
    (fault : Token → SyntaxFault) (hfault : ∀ t, r.fault (fault t) = fault (r.token t)) :
    (fail (r.place stop) (ts.map r.lexeme) fault : Except SyntaxError α)
      = .error (r.error ⟨fault (peek stop ts).token, (peek stop ts).location⟩) := by
  rw [fail, peek_respelled, Transcription.error, hfault]
  rfl

theorem fail_respells {α β : Type} {f : α → β} {m n : Nat} (stop : Location) (ts : List Lexeme)
    {fault : Token → SyntaxFault} (hfault : ∀ t, r.fault (fault t) = fault (r.token t)) :
    Respells r f (m := m) (n := n) (fail stop ts fault)
      (fail (r.place stop) (ts.map r.lexeme) fault) := by
  rw [fail_respelled r stop ts fault hfault]
  exact .error _

theorem canStartArgument_respelled (negation : Bool) (ts : List Lexeme) :
    canStartArgument negation (ts.map r.lexeme) = canStartArgument negation ts := by
  cases ts with
  | nil => rfl
  | cons l rest =>
    obtain ⟨token, location⟩ := l
    cases token <;> rfl

/-- A sign is not respelled. -/
theorem minus_of_respelled {ts rest : List Lexeme} {location : Location}
    (h : ts.map r.lexeme = ⟨.operator .subtract, location⟩ :: rest) :
    ∃ location rest, ts = ⟨.operator .subtract, location⟩ :: rest := by
  cases ts with
  | nil => cases h
  | cons l others =>
    obtain ⟨token, place⟩ := l
    obtain ⟨hhead, -⟩ := List.cons.inj h
    have htoken := congrArg Lexeme.token hhead
    cases token <;> cases htoken
    exact ⟨place, others, rfl⟩

theorem closeParen_respells (stop : Location) {m n : Nat} {e : Expr} {rest : List Lexeme}
    (short : rest.length < m) (short' : (rest.map r.lexeme).length < n) :
    Respells r r.expr (closeParen stop ⟨e, rest, short⟩)
      (closeParen (r.place stop) ⟨r.expr e, rest.map r.lexeme, short'⟩) := by
  cases rest with
  | nil => exact fail_respells r stop [] fun _ => rfl
  | cons l rest =>
    show Respells r r.expr _ (if (r.lexeme l).token = .rightParen then .ok _ else fail _ _ _)
    rw [closeParen]
    by_cases hparen : l.token = .rightParen
    · have hother : (r.lexeme l).token = .rightParen := by
        rw [Transcription.lexeme, hparen]
        rfl
      rw [if_pos hparen, if_pos hother]
      exact .ok _ _
    · have hother : (r.lexeme l).token ≠ .rightParen := by
        intro h
        obtain ⟨token, location⟩ := l
        cases token <;> first | exact hparen rfl | cases h
      rw [if_neg hparen, if_neg hother]
      exact fail_respells r stop (l :: rest) fun _ => rfl

-- The proofs follow the recursion of the reader.  Respelled tokens are of the same kinds, so the
-- reader goes the same way on both.

mutual

theorem chain_respells (stop : Location) (limit : Nat) (ts : List Lexeme) :
    Respells r r.expr (chain stop limit ts) (chain (r.place stop) limit (ts.map r.lexeme)) := by
  rw [chain, chain]
  have hoperand := operand_respells stop ts
  generalize operand stop ts = x at hoperand
  generalize operand (r.place stop) (ts.map r.lexeme) = y at hoperand
  cases hoperand with
  | error e => exact .error e
  | @ok left rest short short' =>
    have hclimb := climb_respells stop limit left rest
    dsimp only
    generalize climb stop limit left rest = x at hclimb
    generalize climb (r.place stop) limit (r.expr left) (rest.map r.lexeme) = y at hclimb
    cases hclimb with
    | error e => exact .error e
    | ok _ _ => exact .ok _ _
termination_by 3 * ts.length + 2

theorem climb_respells (stop : Location) (limit : Nat) (left : Expr) (ts : List Lexeme) :
    Respells r r.expr (climb stop limit left ts)
      (climb (r.place stop) limit (r.expr left) (ts.map r.lexeme)) := by
  cases ts with
  | nil =>
    unfold climb
    exact .ok _ _
  | cons l rest =>
    obtain ⟨token, location⟩ := l
    cases token with
    | operator op =>
      rw [climb]
      show Respells r r.expr _ (climb (r.place stop) limit (r.expr left)
        (⟨.operator op, r.place location⟩ :: rest.map r.lexeme))
      rw [climb]
      split
      · have hchain := chain_respells stop (op.precedence - 1) rest
        generalize chain stop (op.precedence - 1) rest = x at hchain
        generalize chain (r.place stop) (op.precedence - 1) (rest.map r.lexeme) = y at hchain
        cases hchain with
        | error e => exact .error e
        | @ok right rest' short short' =>
          have hclimb := climb_respells stop limit (.binary op left right) rest'
          dsimp only
          generalize climb stop limit (.binary op left right) rest' = x at hclimb
          change Respells r r.expr x (climb (r.place stop) limit
            (.binary op (r.expr left) (r.expr right)) (rest'.map r.lexeme)) at hclimb
          generalize climb (r.place stop) limit (.binary op (r.expr left) (r.expr right))
            (rest'.map r.lexeme) = y at hclimb
          cases hclimb with
          | error e => exact .error e
          | ok _ _ => exact .ok _ _
      · exact .ok _ (by simp [Transcription.lexeme, Transcription.token])
    | number x => unfold climb; exact .ok _ _
    | text s => unfold climb; exact .ok _ _
    | name s => unfold climb; exact .ok _ _
    | function s => unfold climb; exact .ok _ _
    | keyword k => unfold climb; exact .ok _ _
    | assign => unfold climb; exact .ok _ _
    | leftParen => unfold climb; exact .ok _ _
    | rightParen => unfold climb; exact .ok _ _
    | endOfLine => unfold climb; exact .ok _ _
termination_by 3 * ts.length
decreasing_by all_goals grind

theorem operand_respells (stop : Location) (ts : List Lexeme) :
    Respells r r.expr (operand stop ts) (operand (r.place stop) (ts.map r.lexeme)) := by
  by_cases hminus : ∃ location rest, ts = ⟨.operator .subtract, location⟩ :: rest
  · obtain ⟨location, rest, rfl⟩ := hminus
    rw [operand]
    show Respells r r.expr _
      (operand (r.place stop) (⟨.operator .subtract, r.place location⟩ :: rest.map r.lexeme))
    rw [operand]
    have hoperand := operand_respells stop rest
    generalize operand stop rest = x at hoperand
    generalize operand (r.place stop) (rest.map r.lexeme) = y at hoperand
    cases hoperand with
    | error e => exact .error e
    | ok _ _ => exact .ok _ _
  · have hprimary := primary_respells stop ts
    rw [operand_eq_primary fun location rest h => hminus ⟨location, rest, h⟩,
      operand_eq_primary fun location rest h => hminus (minus_of_respelled r h)]
    exact hprimary
termination_by 3 * ts.length + 1

theorem primary_respells (stop : Location) (ts : List Lexeme) :
    Respells r r.expr (primary stop ts) (primary (r.place stop) (ts.map r.lexeme)) := by
  cases ts with
  | nil =>
    unfold primary
    exact fail_respells r stop [] fun _ => rfl
  | cons l rest =>
    obtain ⟨token, location⟩ := l
    cases token with
    | number x => unfold primary; exact .ok _ _
    | text s => unfold primary; exact .ok _ _
    | name s =>
      rw [primary]
      show Respells r r.expr _
        (primary (r.place stop) (⟨.name (r.spell s), r.place location⟩ :: rest.map r.lexeme))
      rw [primary, r.word_spell]
      exact .ok _ _
    | leftParen =>
      rw [primary]
      show Respells r r.expr _
        (primary (r.place stop) (⟨.leftParen, r.place location⟩ :: rest.map r.lexeme))
      rw [primary]
      have hchain := chain_respells stop BinaryOp.or.precedence rest
      generalize chain stop BinaryOp.or.precedence rest = x at hchain
      generalize chain (r.place stop) BinaryOp.or.precedence (rest.map r.lexeme) = y at hchain
      cases hchain with
      | error e => exact .error e
      | @ok e rest' short short' =>
        have hclose := closeParen_respells r stop (e := e) short short'
        dsimp only
        generalize closeParen stop ⟨e, rest', short⟩ = x at hclose
        generalize closeParen (r.place stop) ⟨r.expr e, rest'.map r.lexeme, short'⟩ = y at hclose
        cases hclose with
        | error e => exact .error e
        | ok _ _ => exact .ok _ _
    | function s =>
      rw [primary]
      show Respells r r.expr _
        (primary (r.place stop) (⟨.function (r.spell s), r.place location⟩ :: rest.map r.lexeme))
      rw [primary, Builtin.find?_congr (r.fold_spell s)]
      cases Builtin.find? s with
      | none => exact .error _
      | some f =>
        dsimp only
        have hargs := arguments_respells stop (negatesArgument f.arity) f.arity.most rest
        generalize arguments stop (negatesArgument f.arity) f.arity.most rest = x at hargs
        generalize arguments (r.place stop) (negatesArgument f.arity) f.arity.most
          (rest.map r.lexeme) = y at hargs
        cases hargs with
        | error e => exact .error e
        | @ok args rest' short short' =>
          dsimp only
          rw [show (r.exprs args).length = args.length from Expr.length_mapAll ..]
          split
          · exact fail_respells r stop rest' fun _ => rfl
          · exact .ok _ _
    | keyword k => unfold primary; exact fail_respells r stop (_ :: rest) fun _ => rfl
    | operator op => unfold primary; exact fail_respells r stop (_ :: rest) fun _ => rfl
    | assign => unfold primary; exact fail_respells r stop (_ :: rest) fun _ => rfl
    | rightParen => unfold primary; exact fail_respells r stop (_ :: rest) fun _ => rfl
    | endOfLine => unfold primary; exact fail_respells r stop (_ :: rest) fun _ => rfl
termination_by 3 * ts.length

theorem arguments_respells (stop : Location) (negation : Bool) (room : Nat) (ts : List Lexeme) :
    Respells r r.exprs (arguments stop negation room ts)
      (arguments (r.place stop) negation room (ts.map r.lexeme)) := by
  cases room with
  | zero =>
    rw [arguments, arguments]
    exact .ok _ _
  | succ room =>
    rw [arguments, arguments, canStartArgument_respelled]
    split
    · have hoperand := operand_respells stop ts
      generalize operand stop ts = x at hoperand
      generalize operand (r.place stop) (ts.map r.lexeme) = y at hoperand
      cases hoperand with
      | error e => exact .error e
      | @ok arg rest short short' =>
        have hargs := arguments_respells stop negation room rest
        dsimp only
        generalize arguments stop negation room rest = x at hargs
        generalize arguments (r.place stop) negation room (rest.map r.lexeme) = y at hargs
        cases hargs with
        | error e => exact .error e
        | ok _ _ => exact .ok _ _
    · exact .ok _ _
termination_by 3 * ts.length + 2

end

/-- An expression is read from respelled tokens as the respelled expression. -/
theorem expression_respelled (stop : Location) (ts : List Lexeme) :
    expression (r.place stop) (ts.map r.lexeme)
      = r.outcome (fun p => (r.expr p.1, p.2.map r.lexeme)) (expression stop ts) := by
  have hchain := chain_respells r stop BinaryOp.or.precedence ts
  unfold expression
  generalize chain stop BinaryOp.or.precedence ts = x at hchain
  generalize chain (r.place stop) BinaryOp.or.precedence (ts.map r.lexeme) = y at hchain
  cases hchain with
  | ok short short' => rfl
  | error e => rfl

end Parser

end Erl
