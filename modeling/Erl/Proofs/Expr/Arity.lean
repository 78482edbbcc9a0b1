/-
  Erl.Proofs.Expr.Arity

  Calls with the right number of arguments.

  Reading stops at the greatest number of arguments that a function takes and refuses fewer
  than the least, so every call in an expression that was read fits its function.
-/

import Erl.Proofs.Code.Tree
import Erl.Proofs.Expr.Reading

namespace Erl

/-- Every call has a number of arguments that its function takes. -/
inductive Expr.FitsArity : Expr → Prop where
  | literal {l : Literal} : FitsArity (.literal l)
  | name {s : String} {location : Location} : FitsArity (.name s location)
  | negate {e : Expr} : FitsArity e → FitsArity (.negate e)
  | binary {op : BinaryOp} {a b : Expr} : FitsArity a → FitsArity b → FitsArity (.binary op a b)
  | call {f : Builtin} {args : List Expr} {location : Location} :
      f.arity.accepts args.length = true → (∀ a ∈ args, FitsArity a) →
        FitsArity (.call f args location)

/-- An arity accepts what lies between its bounds. -/
theorem Arity.accepts_iff {a : Arity} {count : Nat} :
    a.accepts count = true ↔ a.least ≤ count ∧ count ≤ a.most := by
  cases a with
  | exactly n =>
    simp only [accepts, least, most, beq_iff_eq]
    omega
  | between least most => simp [accepts, Arity.least, Arity.most]

namespace Parser

/-- A word is a constant or a name. -/
theorem word_fits (s : String) (location : Location) : (word s location).FitsArity := by
  unfold word
  split
  · exact .literal
  · exact .name

-- The proofs follow the recursion of the reader, with its own measure.

mutual

theorem chain_fits (stop : Location) (limit : Nat) (ts : List Lexeme)
    {r : Parsed Expr ts.length} (h : chain stop limit ts = .ok r) : r.value.FitsArity := by
  rw [chain] at h
  split at h
  · cases h
  · next left rest shorter hleft =>
    split at h
    · cases h
    · next result hresult =>
      cases h
      exact climb_fits stop limit left rest (operand_fits stop ts hleft) hresult
termination_by 3 * ts.length + 2

theorem climb_fits (stop : Location) (limit : Nat) (left : Expr) (ts : List Lexeme)
    {r : Parsed Expr (ts.length + 1)} (hleft : left.FitsArity)
    (h : climb stop limit left ts = .ok r) : r.value.FitsArity := by
  unfold climb at h
  split at h
  · next op location rest =>
    split at h
    · split at h
      · cases h
      · next right rest' shorter hright =>
        split at h
        · cases h
        · next result hresult =>
          cases h
          have hboth : (Expr.binary op left right).FitsArity :=
            .binary hleft (chain_fits stop _ rest hright)
          exact climb_fits stop limit _ rest' hboth hresult
    · cases h
      exact hleft
  · cases h
    exact hleft
termination_by 3 * ts.length
decreasing_by all_goals grind

theorem operand_fits (stop : Location) (ts : List Lexeme) {r : Parsed Expr ts.length}
    (h : operand stop ts = .ok r) : r.value.FitsArity := by
  unfold operand at h
  split at h
  · next rest =>
    split at h
    · cases h
    · next e rest' shorter he =>
      cases h
      exact .negate (operand_fits stop rest he)
  · exact primary_fits stop _ h
termination_by 3 * ts.length + 1

theorem primary_fits (stop : Location) (ts : List Lexeme) {r : Parsed Expr ts.length}
    (h : primary stop ts = .ok r) : r.value.FitsArity := by
  unfold primary at h
  split at h
  · cases h
    exact .literal
  · cases h
    exact .literal
  · cases h
    exact word_fits _ _
  · next rest =>
    split at h
    · cases h
    · next result hresult =>
      split at h
      · cases h
      · next closed hclosed =>
        cases h
        have hin := chain_fits stop _ rest hresult
        rw [← (closeParen_ok hclosed).1] at hin
        exact hin
  · next s location rest =>
    split at h
    · cases h
    · next f hf =>
      split at h
      · cases h
      · next args rest' shorter hargs =>
        -- no more than the most are read, and fewer than the least are refused
        obtain ⟨hall, hmost⟩ := arguments_fit stop _ _ rest hargs
        split at h
        · cases h
        · next hleast =>
          cases h
          exact .call (Arity.accepts_iff.2 ⟨Nat.le_of_not_lt hleast, hmost⟩) hall
  · cases h
termination_by 3 * ts.length

theorem arguments_fit (stop : Location) (negation : Bool) (room : Nat) (ts : List Lexeme)
    {r : Parsed (List Expr) (ts.length + 1)} (h : arguments stop negation room ts = .ok r) :
    (∀ a ∈ r.value, a.FitsArity) ∧ r.value.length ≤ room := by
  unfold arguments at h
  split at h
  · cases h
    simp
  · next room =>
    split at h
    · split at h
      · cases h
      · next arg rest shorter harg =>
        split at h
        · cases h
        · next args rest' shorter' hargs =>
          cases h
          obtain ⟨hall, hlength⟩ := arguments_fit stop negation room rest hargs
          refine ⟨?_, Nat.succ_le_succ hlength⟩
          intro a ha
          rcases List.mem_cons.1 ha with rfl | ha
          · exact operand_fits stop ts harg
          · exact hall a ha
    · cases h
      simp
termination_by 3 * ts.length + 2

end

/-- An expression that was read fits the arities of its functions. -/
theorem expression_fits {stop : Location} {ts rest : List Lexeme} {e : Expr}
    (h : expression stop ts = .ok (e, rest)) : e.FitsArity := by
  unfold expression at h
  split at h
  · cases h
  · next result hresult =>
    cases h
    exact chain_fits stop _ ts hresult

end Parser

/-! ## Programs -/

/-- The expression of an instruction. -/
def Instruction.expression? {τ ε σ : Type} : Instruction τ ε σ → Option ε
  | set _ value => some value
  | if_ condition _ => some condition
  | elseIf condition _ _ => some condition
  | while_ condition _ => some condition
  | _ => none

/-- The expression of a statement. -/
def Statement.expression? : Statement → Option Expr
  | set _ value => some value
  | if_ condition => some condition
  | elseIf condition => some condition
  | while_ condition => some condition
  | _ => none

theorem Instruction.expression?_statement (i : Instruction String Expr String) :
    i.statement.expression? = i.expression? := by
  cases i <;> rfl

namespace Statement

theorem guarded_fits {stop : Location} {make : Expr → Statement} {ts rest : List Lexeme}
    {s : Statement} (hmake : ∀ e, (make e).expression? = some e)
    (h : guarded stop make ts = .ok (s, rest)) : ∀ e ∈ s.expression?, e.FitsArity := by
  unfold guarded at h
  cases hread : Parser.expression stop ts with
  | error e => simp [hread, Except.map] at h
  | ok r =>
    obtain ⟨condition, rest'⟩ := r
    rw [hread] at h
    cases h
    intro e he
    rw [hmake] at he
    cases he
    exact Parser.expression_fits hread

theorem assignment_fits {stop : Location} {ts rest : List Lexeme} {s : Statement}
    (h : assignment stop ts = .ok (s, rest)) : ∀ e ∈ s.expression?, e.FitsArity := by
  unfold assignment at h
  split at h
  · cases h
  · next target location after hname =>
    cases hread : Parser.expression stop after with
    | error e => simp [hread, Except.map] at h
    | ok r =>
      obtain ⟨value, rest'⟩ := r
      rw [hread] at h
      cases h
      intro e he
      cases he
      exact Parser.expression_fits hread
  · cases h

/-- The expression of a statement that was read fits the arities of its functions. -/
theorem read_fits {stop : Location} {ts rest : List Lexeme} {s : Statement}
    (h : read stop ts = .ok (s, rest)) : ∀ e ∈ s.expression?, e.FitsArity := by
  unfold read at h
  split at h
  · exact assignment_fits h
  · next after =>
    cases hname : name stop .run after with
    | error e => simp [hname, Except.map] at h
    | ok r =>
      rw [hname] at h
      cases h
      simp [expression?]
  · cases h
    simp [expression?]
  · exact guarded_fits (fun _ => rfl) h
  · exact guarded_fits (fun _ => rfl) h
  · cases h
    simp [expression?]
  · cases h
    simp [expression?]
  · exact guarded_fits (fun _ => rfl) h
  · cases h
    simp [expression?]
  · cases h

theorem ofLine?_fits {number : Nat} {text : List Char} {s : Statement}
    (h : ofLine? number text = some s) : ∀ e ∈ s.expression?, e.FitsArity := by
  unfold ofLine? at h
  split at h
  · cases h
  · split at h
    · next hread =>
      cases h
      exact read_fits hread
    · cases h

end Statement

theorem statementsFrom?_fits {number : Nat} {raws : List (List Char)} {ls : List StatementLine}
    (h : statementsFrom? number raws = some ls) :
    ∀ l ∈ ls, ∀ e ∈ l.statement.expression?, e.FitsArity := by
  induction raws generalizing number ls with
  | nil =>
    cases h
    simp
  | cons raw others ih =>
    rw [statementsFrom?] at h
    split at h
    · exact ih h
    · split at h
      · next s rest hs hrest =>
        cases h
        intro l hl
        rcases List.mem_cons.1 hl with rfl | hl
        · exact Statement.ofLine?_fits hs
        · exact ih hrest l hl
      · cases h

/-- The expressions of a program fit the arities of their functions. -/
theorem parseCode_fits {source : String} {lines : Array SourceLine}
    (h : parseCode source = .ok lines) {line : SourceLine} (hline : line ∈ lines.toList) :
    ∀ e ∈ line.instruction.expression?, e.FitsArity := by
  obtain ⟨b, htree, rfl⟩ := parseCode_eq_ok_iff.1 h
  have hbare : line.bare ∈ b.statements := by
    rw [← b.map_bare_code 0]
    exact List.mem_map_of_mem hline
  rw [← Instruction.expression?_statement]
  exact statementsFrom?_fits htree line.bare hbare

end Erl
