/-
  Erl.Proofs.Code.Rows

  The lines of a source text that hold a statement.

  A row is a trimmed line with its position in the text.  Reading a text is adding its rows one
  after another, and the instructions of a text stand at its rows.
-/

import Mathlib.Data.List.Nodup
import Erl.Proofs.Code.Tree

namespace Erl

/-- The lines of a source text that hold a statement, trimmed, each with its position among all
    lines; the first line is at one. -/
def statementRows (source : String) : List (List Char × Nat) :=
  (((Text.lines source.toList).map Text.trim).zipIdx 1).filter fun row => !CodeBuilder.skips row.1

theorem nodup_statementRows (source : String) : ((statementRows source).map Prod.snd).Nodup := by
  have hsub := (List.filter_sublist (p := fun row => !CodeBuilder.skips row.1)
    (l := ((Text.lines source.toList).map Text.trim).zipIdx 1)).map Prod.snd
  rw [List.zipIdx_map_snd] at hsub
  exact hsub.nodup List.nodup_range'

/-- A row is a line of the text, trimmed, that is not left out. -/
theorem exists_of_mem_statementRows {source : String} {row : List Char × Nat}
    (h : row ∈ statementRows source) :
    ∃ raw, (raw, row.2) ∈ (Text.lines source.toList).zipIdx 1 ∧ row.1 = Text.trim raw := by
  obtain ⟨hmem, -⟩ := List.mem_filter.1 h
  rw [List.zipIdx_map] at hmem
  obtain ⟨⟨raw, number⟩, hraw, rfl⟩ := List.mem_map.1 hmem
  exact ⟨raw, hraw, rfl⟩

namespace CodeBuilder

/-- Adds rows, one after another. -/
def addRows (b : CodeBuilder) : List (List Char × Nat) → Except SyntaxError CodeBuilder
  | [] => .ok b
  | row :: rows =>
    match b.addLine row.2 row.1 with
    | .error e => .error e
    | .ok b => b.addRows rows

/-- Adding the lines of a text is adding the rows that hold a statement. -/
theorem addLines_eq_addRows (b : CodeBuilder) (number : Nat) (raws : List (List Char)) :
    b.addLines number raws
      = b.addRows (((raws.map Text.trim).zipIdx number).filter fun row => !skips row.1) := by
  induction raws generalizing b number with
  | nil => rfl
  | cons raw others ih =>
    rw [addLines, List.map_cons, List.zipIdx_cons, List.filter_cons]
    by_cases hskip : skips (Text.trim raw) = true
    · rw [if_pos hskip, if_neg (by simp [hskip])]
      exact ih b (number + 1)
    · rw [if_neg hskip, if_pos (by simp [hskip]), addRows]
      cases b.addLine number (Text.trim raw) with
      | error e => rfl
      | ok b => exact ih b (number + 1)

end CodeBuilder

theorem addLines_lines (source : String) :
    CodeBuilder.empty.addLines 1 (Text.lines source.toList)
      = CodeBuilder.empty.addRows (statementRows source) :=
  CodeBuilder.addLines_eq_addRows .empty 1 (Text.lines source.toList)

/-! ## The places of instructions -/

theorem marks_of_statementsFrom? {number : Nat} {raws : List (List Char)} {ls : List StatementLine}
    (h : statementsFrom? number raws = some ls) :
    ls.map StatementLine.mark
      = (((raws.map Text.trim).zipIdx number).filter fun row => !CodeBuilder.skips row.1).map
          fun row => ⟨⟨row.2, 1⟩, String.ofList row.1⟩ := by
  induction raws generalizing number ls with
  | nil =>
    cases h
    rfl
  | cons raw others ih =>
    rw [statementsFrom?] at h
    rw [List.map_cons, List.zipIdx_cons, List.filter_cons]
    by_cases hskip : CodeBuilder.skips (Text.trim raw) = true
    · rw [if_pos hskip] at h
      rw [if_neg (by simp [hskip])]
      exact ih h
    · rw [if_neg hskip] at h
      rw [if_pos (by simp [hskip])]
      cases hs : Statement.ofLine? number (Text.trim raw) with
      | none => simp [hs] at h
      | some s =>
        cases hrest : statementsFrom? (number + 1) others with
        | none => simp [hs, hrest] at h
        | some rest =>
          simp only [hs, hrest, Option.some.injEq] at h
          subst h
          rw [List.map_cons, List.map_cons, ih hrest]

/-- The instructions of a text stand at the lines with a statement. -/
theorem marks_of_parseCode {source : String} {code : Array SourceLine}
    (h : parseCode source = .ok code) :
    code.toList.map (fun l => (l.location, l.text))
      = (statementRows source).map fun row => (⟨row.2, 1⟩, String.ofList row.1) := by
  obtain ⟨b, htree, rfl⟩ := parseCode_eq_ok_iff.1 h
  have hmarks := congrArg (List.map fun m : Mark => (m.location, m.text))
    (marks_of_statementsFrom? htree)
  rw [← b.map_bare_code 0, List.map_map, List.map_map, List.map_map] at hmarks
  exact hmarks

end Erl
