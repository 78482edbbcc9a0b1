/-
  Erl.Proofs.Code.Tree

  The tree of a source text.

  A text whose lines are statements is a program exactly when its lines are those of a tree,
  and its instructions are then the code of the tree.
-/

import Erl.Proofs.Code.Builder

namespace Erl

/-! ## Statements of a text -/

/-- The statement that a trimmed line with a number is by itself: a keyword and its operands,
    with nothing after them. -/
def Statement.ofLine? (number : Nat) (text : List Char) : Option Statement :=
  match LexedLine.read text number with
  | .error _ => none
  | .ok line =>
    match Statement.read line.stop line.lexemes with
    | .ok (s, []) => some s
    | _ => none

/-- The statements of lines, the first of which has a given number.  There are none if a line
    that is neither blank nor a comment is not a statement by itself. -/
def statementsFrom? (number : Nat) : List (List Char) → Option (List StatementLine)
  | [] => some []
  | raw :: others =>
    let text := Text.trim raw
    if CodeBuilder.skips text then statementsFrom? (number + 1) others
    else
      match Statement.ofLine? number text, statementsFrom? (number + 1) others with
      | some s, some rest => some (⟨⟨⟨number, 1⟩, String.ofList text⟩, s⟩ :: rest)
      | _, _ => none

/-- The statements of a source text, if each of its lines is one by itself. -/
def statementLines? (source : String) : Option (List StatementLine) :=
  statementsFrom? 1 (Text.lines source.toList)

/-- A tree of a source text: its lines are the statements of the text. -/
def Block.IsTreeOf (b : Block) (source : String) : Prop :=
  statementLines? source = some b.statements

namespace CodeBuilder

theorem addLine_eq_ok_iff {b b' : CodeBuilder} {number : Nat} {text : List Char} :
    b.addLine number text = .ok b' ↔
      ∃ s, Statement.ofLine? number text = some s
        ∧ b.add ⟨number, 1⟩ (String.ofList text) s = .ok b' := by
  unfold addLine Statement.ofLine?
  cases LexedLine.read text number with
  | error e => simp
  | ok line =>
    cases hread : Statement.read line.stop line.lexemes with
    | error e => simp [hread]
    | ok r =>
      obtain ⟨s, rest⟩ := r
      cases hadd : b.add ⟨number, 1⟩ (String.ofList text) s with
      | error e => cases rest <;> simp [hread, hadd]
      | ok b₁ => cases rest <;> simp [hread, hadd, Parser.fail]

theorem addLines_eq_ok_iff {b b' : CodeBuilder} {number : Nat} {raws : List (List Char)} :
    b.addLines number raws = .ok b' ↔
      ∃ ls, statementsFrom? number raws = some ls ∧ b.addAll ls = .ok b' := by
  induction raws generalizing b number with
  | nil => simp [addLines, statementsFrom?]
  | cons raw others ih =>
    rw [addLines, statementsFrom?]
    by_cases hskip : skips (Text.trim raw)
    · simp only [hskip, if_true]
      exact ih
    · simp only [hskip, Bool.false_eq_true, if_false]
      constructor
      · intro h
        cases hline : b.addLine number (Text.trim raw) with
        | error e => simp [hline] at h
        | ok b₁ =>
          obtain ⟨s, hs, hadd⟩ := addLine_eq_ok_iff.1 hline
          obtain ⟨ls, hls, hall⟩ := ih.1 (by simpa [hline] using h)
          refine ⟨⟨⟨⟨number, 1⟩, String.ofList (Text.trim raw)⟩, s⟩ :: ls, by simp [hs, hls], ?_⟩
          rw [addAll_cons ls hadd, hall]
      · rintro ⟨ls, hls, hall⟩
        cases hs : Statement.ofLine? number (Text.trim raw) with
        | none => simp [hs] at hls
        | some s =>
          cases hrest : statementsFrom? (number + 1) others with
          | none => simp [hs, hrest] at hls
          | some rest =>
            simp only [hs, hrest, Option.some.injEq] at hls
            subst hls
            rw [addAll] at hall
            cases hadd : b.add ⟨number, 1⟩ (String.ofList (Text.trim raw)) s with
            | error e => simp [hadd] at hall
            | ok b₁ =>
              rw [addLine_eq_ok_iff.2 ⟨s, hs, hadd⟩]
              exact ih.2 ⟨rest, hrest, by simpa [hadd] using hall⟩

end CodeBuilder

/-! ## Parsing -/

/-- A text is a program exactly when it has a tree, and then its instructions are the code of
    the tree. -/
theorem parseCode_eq_ok_iff {source : String} {lines : Array SourceLine} :
    parseCode source = .ok lines ↔
      ∃ b : Block, b.IsTreeOf source ∧ lines = (b.code 0).toArray := by
  constructor
  · intro h
    unfold parseCode at h
    cases hadd : CodeBuilder.empty.addLines 1 (Text.lines source.toList) with
    | error e => simp [hadd] at h
    | ok final =>
      rw [hadd] at h
      obtain ⟨ls, hls, hall⟩ := CodeBuilder.addLines_eq_ok_iff.1 hadd
      have hclosed : final.blocks = [] := by
        cases hb : final.blocks with
        | nil => rfl
        | cons block outer => simp [CodeBuilder.finish, hb] at h
      have hlines : final.lines = lines := by simpa [CodeBuilder.finish, hclosed] using h
      obtain ⟨b, rfl⟩ := CodeBuilder.completes_of_addAll hall hclosed
      have hcode := b.addAll_statements [] []
      refine ⟨b, hls, ?_⟩
      rw [← hlines]
      have hfinal : final = ⟨(b.code 0).toArray, []⟩ := by
        have h₂ := hall.symm.trans hcode
        simpa using h₂
      rw [hfinal]
  · rintro ⟨b, htree, rfl⟩
    have hcode : CodeBuilder.empty.addAll b.statements = .ok ⟨(b.code 0).toArray, []⟩ := by
      simpa [CodeBuilder.empty] using b.addAll_statements [] []
    have hadd := CodeBuilder.addLines_eq_ok_iff.2 ⟨_, htree, hcode⟩
    unfold parseCode
    rw [hadd]
    rfl

/-- The tree that a text has fixes its instructions. -/
theorem Block.IsTreeOf.parseCode {b : Block} {source : String} (h : b.IsTreeOf source) :
    parseCode source = .ok (b.code 0).toArray :=
  parseCode_eq_ok_iff.2 ⟨b, h, rfl⟩

end Erl
