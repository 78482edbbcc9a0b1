/-
  Erl.Proofs.Code.Layout

  The layout of a source text.

  Blank lines, comment lines and blanks around a line are left out before a statement is read.  A
  text can be laid out anew in these ways, and its statements only change their line numbers: the
  code, with every target, stays the same, and so does the reason why there is none.
-/

import Mathlib.Logic.Relation
import Erl.Proofs.Code.Respelling
import Erl.Proofs.Code.Rows

namespace Erl

/-! ## Layout -/

/-- A line without a statement: it is blank, or the first character that is not blank starts a
    comment. -/
def IdleLine (line : List Char) : Prop :=
  '\n' ∉ line ∧ ∀ c ∈ (Text.trimStart line).head?, c = '!'

/-- Blanks that do not end a line. -/
def InlineBlanks (cs : List Char) : Prop :=
  '\n' ∉ cs ∧ ∀ c ∈ cs, Text.isBlank c = true

/-- A comment in a line of its own. -/
theorem IdleLine.comment {line : List Char} (hfeed : '\n' ∉ line)
    (h : (Text.trimStart line).head? = some '!') : IdleLine line := by
  refine ⟨hfeed, fun c hc => ?_⟩
  rw [h] at hc
  exact (Option.some.inj hc).symm

/-- One step of laying out a text anew. -/
inductive LayoutEdit : List Char → List Char → Prop where
  /-- A line without a statement before another line. -/
  | insertLine (before line after : List Char) (hstart : Text.AtLineStart before)
      (hline : IdleLine line) :
      LayoutEdit (before ++ after) (before ++ (line ++ '\n' :: after))
  /-- A line without a statement after the last line. -/
  | appendLine (before line : List Char) (hline : IdleLine line) :
      LayoutEdit before (before ++ '\n' :: line)
  /-- Blanks at the start of a line. -/
  | indent (before blanks after : List Char) (hstart : Text.AtLineStart before)
      (hblanks : InlineBlanks blanks) :
      LayoutEdit (before ++ after) (before ++ (blanks ++ after))
  /-- Blanks at the end of a line. -/
  | trail (before blanks after : List Char) (hend : Text.AtLineEnd after)
      (hblanks : InlineBlanks blanks) :
      LayoutEdit (before ++ after) (before ++ (blanks ++ after))

/-- Two sources that differ in their layout only: steps of laying out lead from one to the other, and
    each step may be done or undone. -/
def SameButLayout (source source' : String) : Prop :=
  Relation.EqvGen LayoutEdit source.toList source'.toList

/-! ## The lines with a statement -/

/-- The texts of the lines with a statement. -/
def rowTexts (cs : List Char) : List (List Char) :=
  ((Text.cutAtFeeds cs).map Text.trim).filter fun text => !CodeBuilder.skips text

theorem map_fst_statementRows (source : String) :
    (statementRows source).map Prod.fst = rowTexts source.toList := by
  have hlines := Text.filter_trim_lines (fun text => !CodeBuilder.skips text) rfl source.toList
  rw [rowTexts, ← hlines, statementRows]
  conv_rhs => rw [← List.zipIdx_map_fst 1 ((Text.lines source.toList).map Text.trim)]
  rw [List.filter_map]
  rfl

/-- Rows with the same texts differ in their numbers only. -/
theorem exists_renumbering {rows rows' : List (List Char × Nat)}
    (hnodup : (rows.map Prod.snd).Nodup) (htexts : rows.map Prod.fst = rows'.map Prod.fst) :
    ∃ renumber : Nat → Nat, rows' = rows.map fun row => (row.1, renumber row.2) := by
  induction rows generalizing rows' with
  | nil => exact ⟨id, List.map_eq_nil_iff.1 htexts.symm⟩
  | cons row rest ih =>
    obtain ⟨text, number⟩ := row
    cases rows' with
    | nil => cases htexts
    | cons row' rest' =>
      obtain ⟨text', number'⟩ := row'
      obtain ⟨rfl, hrest⟩ := List.cons.inj htexts
      obtain ⟨hnew, hnodup⟩ := List.nodup_cons.1 hnodup
      obtain ⟨renumber, rfl⟩ := ih hnodup hrest
      refine ⟨Function.update renumber number number', ?_⟩
      rw [List.map_cons, Function.update_self]
      congr 1
      -- no later row has the number of the first one
      refine List.map_congr_left fun row hrow => ?_
      have hne : row.2 ≠ number := fun h => hnew (List.mem_map.2 ⟨row, hrow, h⟩)
      rw [Function.update_of_ne hne]

theorem IdleLine.skips {line : List Char} (h : IdleLine line) :
    CodeBuilder.skips (Text.trim line) = true := by
  have hhead := Text.head?_trim line
  cases htrim : Text.trim line with
  | nil => rfl
  | cons c rest =>
    rw [htrim] at hhead
    obtain rfl := h.2 c (hhead ▸ rfl)
    rfl

/-- A step of laying out keeps the texts of the lines with a statement. -/
theorem LayoutEdit.rowTexts {cs cs' : List Char} (h : LayoutEdit cs cs') :
    rowTexts cs = rowTexts cs' := by
  unfold Erl.rowTexts
  cases h with
  | insertLine before line after hstart hline =>
    obtain ⟨pieces, hpieces⟩ := hstart.cutAtFeeds
    rw [hpieces, hpieces, Text.cutAtFeeds_append, Text.cutAtFeeds_of_not_mem hline.1]
    simp [hline.skips]
  | appendLine _ line hline =>
    rw [Text.cutAtFeeds_append, Text.cutAtFeeds_of_not_mem hline.1]
    simp [hline.skips]
  | indent before blanks after hstart hblanks =>
    obtain ⟨pieces, hpieces⟩ := hstart.cutAtFeeds
    rw [hpieces, hpieces, List.map_append, List.map_append,
      Text.map_trim_cutAtFeeds_left hblanks.2 hblanks.1]
  | trail before blanks after hend hblanks =>
    obtain rfl | ⟨after, rfl⟩ := hend
    · rw [List.append_nil, List.append_nil, Text.map_trim_cutAtFeeds_right hblanks.2 hblanks.1]
    · rw [← List.append_assoc, Text.cutAtFeeds_append, Text.cutAtFeeds_append, List.map_append,
        List.map_append, Text.map_trim_cutAtFeeds_right hblanks.2 hblanks.1]

theorem rowTexts_of_edits {cs cs' : List Char} (h : Relation.EqvGen LayoutEdit cs cs') :
    rowTexts cs = rowTexts cs' := by
  induction h with
  | rel cs cs' hedit => exact hedit.rowTexts
  | refl cs => rfl
  | symm cs cs' _ ih => exact ih.symm
  | trans cs cs' cs'' _ _ ih ih' => exact ih.trans ih'

/-- In another layout the lines with a statement are the same, and only their numbers change. -/
theorem SameButLayout.exists_renumbering {source source' : String}
    (h : SameButLayout source source') :
    ∃ renumber : Nat → Nat,
      statementRows source' = (statementRows source).map fun row => (row.1, renumber row.2) := by
  apply Erl.exists_renumbering (nodup_statementRows source)
  rw [map_fst_statementRows, map_fst_statementRows, rowTexts_of_edits h]

/-! ## Reading with other line numbers -/

/-- The same text, with lines that are numbered anew. -/
def Transcription.renumbered (renumber : Nat → Nat) : Transcription :=
  moved fun l => ⟨renumber l.line, l.column⟩

section Renumbered

open Transcription

variable (renumber : Nat → Nat)

/-- What comes of cutting a line, at other places. -/
def Transcription.lexed (r : Transcription) :
    Except LexicalError LexedLine → Except LexicalError LexedLine
  | .ok line => .ok ⟨line.lexemes.map r.lexeme, r.place line.stop⟩
  | .error e => .error ⟨e.fault, r.place e.location⟩

/-- A line is cut in the same way under every number. -/
theorem LexedLine.readFrom_renumbered (line column : Nat) (cs : List Char) :
    readFrom (renumber line) column cs
      = (renumbered renumber).lexed (readFrom line column cs) := by
  fun_induction readFrom line column cs with
  | case1 => rw [readFrom.eq_def]; rfl
  | case2 column c rest hblank ih =>
    rw [readFrom.eq_def]
    dsimp only
    rw [if_pos hblank]
    exact ih
  | case3 column rest hblank =>
    rw [readFrom.eq_def]
    dsimp only
    rw [if_neg hblank, if_pos rfl]
    rfl
  | case4 column c rest hblank hcomment fault hscan =>
    rw [readFrom.eq_def]
    dsimp only
    rw [if_neg hblank, if_neg hcomment, hscan]
    rfl
  | case5 column c rest hblank hcomment token taken hscan e hrest ih =>
    rw [hrest] at ih
    rw [readFrom.eq_def]
    dsimp only
    rw [if_neg hblank, if_neg hcomment, hscan]
    dsimp only
    rw [ih]
    rfl
  | case6 column c rest hblank hcomment token taken hscan others hrest ih =>
    rw [hrest] at ih
    rw [readFrom.eq_def]
    dsimp only
    rw [if_neg hblank, if_neg hcomment, hscan]
    dsimp only
    rw [ih]
    have hlexeme : (renumbered renumber).lexeme ⟨token, ⟨line, column⟩⟩
        = ⟨token, ⟨renumber line, column⟩⟩ :=
      congrArg (Lexeme.mk · _) (moved_token _ token)
    simp only [lexed, List.map_cons, hlexeme]

namespace CodeBuilder

theorem addLine_renumbered (b : CodeBuilder) (number : Nat) (text : List Char) :
    ((renumbered renumber).builder b).addLine (renumber number) text
      = (renumbered renumber).outcome (renumbered renumber).builder (b.addLine number text) := by
  have hread := LexedLine.readFrom_renumbered renumber number 1 text
  cases hline : LexedLine.readFrom number 1 text with
  | error e =>
    rw [hline] at hread
    rw [addLine, addLine, LexedLine.read, LexedLine.read, hread, hline]
    rfl
  | ok line =>
    rw [hline] at hread
    rw [addLine_eq_addLexed b number hline, addLine_eq_addLexed _ (renumber number) hread]
    exact addLexed_respelled (renumbered renumber) b ⟨number, 1⟩ (String.ofList text) line

/-- Rows with other numbers are added as the same instructions with other numbers. -/
theorem addRows_renumbered (b : CodeBuilder) (rows : List (List Char × Nat)) :
    ((renumbered renumber).builder b).addRows (rows.map fun row => (row.1, renumber row.2))
      = (renumbered renumber).outcome (renumbered renumber).builder (b.addRows rows) := by
  induction rows generalizing b with
  | nil => rfl
  | cons row rows ih =>
    rw [List.map_cons, addRows, addRows, addLine_renumbered]
    cases b.addLine row.2 row.1 with
    | error e => rfl
    | ok b => exact ih b

end CodeBuilder

/-- A text with the same rows under other numbers has the same code with other numbers. -/
theorem parseCode_renumbered {source source' : String}
    (h : statementRows source' = (statementRows source).map fun row => (row.1, renumber row.2)) :
    parseCode source' = (renumbered renumber).code (parseCode source) := by
  have hadd := CodeBuilder.addRows_renumbered renumber .empty (statementRows source)
  rw [← h, show (renumbered renumber).builder .empty = .empty by
    simp [builder, CodeBuilder.empty]] at hadd
  unfold parseCode
  rw [addLines_lines, addLines_lines, hadd]
  cases CodeBuilder.empty.addRows (statementRows source) with
  | error e => rfl
  | ok b => exact CodeBuilder.finish_respelled (renumbered renumber) b

end Renumbered

/-- The layout of a text does not matter.  In another layout the lines with a statement are the
    same under other numbers; there is code for one text exactly if there is for the other, it is
    the same but for these numbers, and each instruction stands at the position of its line; and
    where there is no code, the reason is the same. -/
theorem parseCode_ignores_layout {source source' : String} (h : SameButLayout source source') :
    ∃ renumber : Nat → Nat,
      statementRows source' = ((statementRows source).map fun row => (row.1, renumber row.2))
      ∧ (∀ code, parseCode source = .ok code → ∃ code', parseCode source' = .ok code'
          ∧ code' = code.map (Transcription.renumbered renumber).sourceLine
          ∧ code'.toList.map (fun l => (l.location, l.text))
            = (statementRows source').map fun row => (⟨row.2, 1⟩, String.ofList row.1))
      ∧ ∀ e, parseCode source = .error e →
          parseCode source' = .error ⟨e.fault, ⟨renumber e.location.line, e.location.column⟩⟩ := by
  obtain ⟨renumber, hrows⟩ := h.exists_renumbering
  have hcode := parseCode_renumbered renumber hrows
  refine ⟨renumber, hrows, fun code hok => ?_, fun e herror => ?_⟩
  · rw [hok] at hcode
    exact ⟨_, hcode, rfl, marks_of_parseCode hcode⟩
  · rw [herror] at hcode
    rw [hcode]
    exact congrArg (fun f => Except.error (SyntaxError.mk f _)) (Transcription.moved_fault _ e.fault)

/-- A loop within a branch, on bare lines. -/
def bareBlocks : String :=
  "IF x > 0\nWHILE x < 9\nSET x = x + 1\nENDWHILE\nELSE\nSET x = 0\nENDIF"

/-- The same blocks with a comment in the branch, the body of the loop indented, and a last line. -/
def laidOutBlocks : String :=
  "IF x > 0\n ! up\nWHILE x < 9\n  SET x = x + 1\nENDWHILE\nELSE\nSET x = 0\nENDIF\n! end"

theorem parseCode_ignores_layout_nested :
    SameButLayout bareBlocks laidOutBlocks ∧ (parseCode bareBlocks).isOk = true
      ∧ ∃ renumber : Nat → Nat,
        statementRows laidOutBlocks
            = ((statementRows bareBlocks).map fun row => (row.1, renumber row.2))
          ∧ (∀ code, parseCode bareBlocks = .ok code → ∃ code', parseCode laidOutBlocks = .ok code'
              ∧ code' = code.map (Transcription.renumbered renumber).sourceLine
              ∧ code'.toList.map (fun l => (l.location, l.text))
                = (statementRows laidOutBlocks).map fun row => (⟨row.2, 1⟩, String.ofList row.1))
          ∧ ∀ e, parseCode bareBlocks = .error e → parseCode laidOutBlocks
              = .error ⟨e.fault, ⟨renumber e.location.line, e.location.column⟩⟩ := by
  have hcomment := LayoutEdit.insertLine "IF x > 0\n".toList " ! up".toList
    "WHILE x < 9\nSET x = x + 1\nENDWHILE\nELSE\nSET x = 0\nENDIF".toList
    (.inr ⟨"IF x > 0".toList, by decide +kernel⟩)
    (.comment (by decide +kernel) (by decide +kernel))
  have hindent := LayoutEdit.indent "IF x > 0\n ! up\nWHILE x < 9\n".toList "  ".toList
    "SET x = x + 1\nENDWHILE\nELSE\nSET x = 0\nENDIF".toList
    (.inr ⟨"IF x > 0\n ! up\nWHILE x < 9".toList, by decide +kernel⟩)
    ⟨by decide +kernel, List.all_eq_true.1 (by decide +kernel)⟩
  have hlast := LayoutEdit.appendLine
    "IF x > 0\n ! up\nWHILE x < 9\n  SET x = x + 1\nENDWHILE\nELSE\nSET x = 0\nENDIF".toList
    "! end".toList (.comment (by decide +kernel) (by decide +kernel))
  have hsame : SameButLayout bareBlocks laidOutBlocks := by
    refine .trans _ _ _ (.rel _ _ ?_) (.trans _ _ _ (.rel _ _ hindent) (.rel _ _ ?_))
    · convert hcomment using 1 <;> decide +kernel
    · convert hlast using 1 <;> decide +kernel
  exact ⟨hsame, by decide +kernel, parseCode_ignores_layout hsame⟩

end Erl
