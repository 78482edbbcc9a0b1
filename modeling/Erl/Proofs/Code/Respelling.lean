/-
  Erl.Proofs.Code.Respelling

  Programs that are spelled in another way.

  The statement reader and the matching of blocks go by the kinds of tokens only, so the code of
  respelled tokens is the respelled code.  Two sources whose lines are cut into the same tokens, up
  to the letter case of names, are therefore read as the same instructions with the same targets,
  or refused for the same reason in the same line.
-/

import Erl.Code.Parser
import Erl.Proofs.Expr.Respelling
import Erl.Proofs.Text.Line

namespace Erl

namespace Transcription

variable (r : Transcription)

def statement : Statement → Statement
  | .set target value => .set (r.spell target) (r.expr value)
  | .run subroutine => .run (r.spell subroutine)
  | .return_ => .return_
  | .if_ condition => .if_ (r.expr condition)
  | .elseIf condition => .elseIf (r.expr condition)
  | .else_ => .else_
  | .endIf => .endIf
  | .while_ condition => .while_ (r.expr condition)
  | .endWhile => .endWhile

def instruction : Instruction String Expr String → Instruction String Expr String
  | .set target value => .set (r.spell target) (r.expr value)
  | .run subroutine => .run (r.spell subroutine)
  | .return_ => .return_
  | .if_ condition next => .if_ (r.expr condition) next
  | .elseIf condition next stop => .elseIf (r.expr condition) next stop
  | .else_ stop => .else_ stop
  | .endIf => .endIf
  | .while_ condition stop => .while_ (r.expr condition) stop
  | .endWhile start => .endWhile start

def sourceLine (l : SourceLine) : SourceLine :=
  ⟨r.place l.location, r.script l.text, r.instruction l.instruction⟩

def block : OpenBlock → OpenBlock
  | .branch guard branches sawElse opened => .branch guard branches sawElse (r.place opened)
  | .loop start opened => .loop start (r.place opened)

def builder (b : CodeBuilder) : CodeBuilder :=
  ⟨b.lines.map r.sourceLine, b.blocks.map r.block⟩

/-- The code of a program, or why there is none, in the other spelling. -/
def code : Except SyntaxError (Array SourceLine) → Except SyntaxError (Array SourceLine) :=
  r.outcome (Array.map r.sourceLine)

theorem outcome_map {α β α' β' : Type} {f : α → α'} {h : α → β} {f' : β → β'} {h' : α' → β'}
    (hcomm : ∀ a, h' (f a) = f' (h a)) (x : Except SyntaxError α) :
    (r.outcome f x).map h' = r.outcome f' (x.map h) := by
  cases x with
  | ok a => exact congrArg Except.ok (hcomm a)
  | error e => rfl

end Transcription

variable (r : Transcription)

/-! ## Statements -/

namespace Statement

theorem name_respelled (stop : Location) (after : Keyword) (ts : List Lexeme) :
    name (r.place stop) after (ts.map r.lexeme)
      = r.outcome (fun p => (r.spell p.1, p.2.map r.lexeme)) (name stop after ts) := by
  have hfail := Parser.fail_respelled (α := String × List Lexeme) r stop ts
    (.expectedName after) fun _ => rfl
  cases ts with
  | nil => exact hfail
  | cons l rest =>
    obtain ⟨token, location⟩ := l
    cases token <;> rfl

theorem guarded_respelled (stop : Location) {make : Expr → Statement}
    (hmake : ∀ e, r.statement (make e) = make (r.expr e)) (ts : List Lexeme) :
    guarded (r.place stop) make (ts.map r.lexeme)
      = r.outcome (fun p => (r.statement p.1, p.2.map r.lexeme)) (guarded stop make ts) := by
  rw [guarded, Parser.expression_respelled, guarded]
  cases Parser.expression stop ts with
  | error e => rfl
  | ok p => exact congrArg (fun s => Except.ok (s, p.2.map r.lexeme)) (hmake p.1).symm

theorem assignment_respelled (stop : Location) (ts : List Lexeme) :
    assignment (r.place stop) (ts.map r.lexeme)
      = r.outcome (fun p => (r.statement p.1, p.2.map r.lexeme)) (assignment stop ts) := by
  rw [assignment, name_respelled, assignment]
  cases name stop .set ts with
  | error e => rfl
  | ok p =>
    obtain ⟨target, rest⟩ := p
    have hfail := Parser.fail_respelled (α := Statement × List Lexeme) r stop rest
      SyntaxFault.expectedAssign fun _ => rfl
    cases rest with
    | nil => exact hfail
    | cons l rest =>
      obtain ⟨token, location⟩ := l
      cases token with
      | assign =>
        show (Parser.expression (r.place stop) (rest.map r.lexeme)).map _ = r.outcome _
          ((Parser.expression stop rest).map _)
        rw [Parser.expression_respelled]
        cases Parser.expression stop rest <;> rfl
      | number x => exact hfail
      | text s => exact hfail
      | name s => exact hfail
      | function s => exact hfail
      | keyword k => exact hfail
      | operator op => exact hfail
      | leftParen => exact hfail
      | rightParen => exact hfail
      | endOfLine => exact hfail

theorem read_respelled (stop : Location) (ts : List Lexeme) :
    read (r.place stop) (ts.map r.lexeme)
      = r.outcome (fun p => (r.statement p.1, p.2.map r.lexeme)) (read stop ts) := by
  have hfail := Parser.fail_respelled (α := Statement × List Lexeme) r stop ts
    SyntaxFault.expectedKeyword fun _ => rfl
  cases ts with
  | nil => exact hfail
  | cons l rest =>
    obtain ⟨token, location⟩ := l
    cases token with
    | keyword k =>
      cases k with
      | set => exact assignment_respelled r stop rest
      | run =>
        show (name (r.place stop) .run (rest.map r.lexeme)).map _ = r.outcome _
          ((name stop .run rest).map _)
        rw [name_respelled]
        cases name stop .run rest <;> rfl
      | if_ => exact guarded_respelled r stop (fun _ => rfl) rest
      | elseIf => exact guarded_respelled r stop (fun _ => rfl) rest
      | while_ => exact guarded_respelled r stop (fun _ => rfl) rest
      | return_ => rfl
      | else_ => rfl
      | endIf => rfl
      | endWhile => rfl
    | number x => exact hfail
    | text s => exact hfail
    | name s => exact hfail
    | function s => exact hfail
    | operator op => exact hfail
    | assign => exact hfail
    | leftParen => exact hfail
    | rightParen => exact hfail
    | endOfLine => exact hfail

end Statement

/-! ## Blocks -/

namespace CodeBuilder

theorem patch_respelled (lines : Array SourceLine) (i : Nat)
    {change : Instruction String Expr String → Instruction String Expr String}
    (hchange : ∀ i, change (r.instruction i) = r.instruction (change i)) :
    patch (lines.map r.sourceLine) i change = (patch lines i change).map r.sourceLine := by
  apply Array.ext_getElem?
  intro j
  simp only [patch, Array.getElem?_modify, Array.getElem?_map]
  split
  · cases lines[j]? with
    | none => rfl
    | some line => exact congrArg some (congrArg (Line.mk _ _) (hchange _))
  · rfl

theorem withNext_respelled (target : Nat) (i : Instruction String Expr String) :
    (r.instruction i).withNext target = r.instruction (i.withNext target) := by
  cases i <;> rfl

theorem withStop_respelled (target : Nat) (i : Instruction String Expr String) :
    (r.instruction i).withStop target = r.instruction (i.withStop target) := by
  cases i <;> rfl

theorem patchGuard_respelled (lines : Array SourceLine) (guard : Option Nat) (target : Nat) :
    patchGuard (lines.map r.sourceLine) guard target
      = (patchGuard lines guard target).map r.sourceLine := by
  cases guard with
  | none => rfl
  | some i => exact patch_respelled r lines i (withNext_respelled r target)

theorem patchBranches_respelled (lines : Array SourceLine) (branches : List Nat) (target : Nat) :
    patchBranches (lines.map r.sourceLine) branches target
      = (patchBranches lines branches target).map r.sourceLine := by
  induction branches generalizing lines with
  | nil => rfl
  | cons i rest ih =>
    have hpatch := patch_respelled r lines i (withStop_respelled r target)
    rw [patchBranches, List.foldl_cons, hpatch]
    exact ih _

theorem push_respelled (b : CodeBuilder) (location : Location) (text : String)
    (i : Instruction String Expr String) :
    (r.builder b).push (r.place location) (r.script text) (r.instruction i)
      = r.builder (b.push location text i) := by
  simp only [push, Transcription.builder, Array.map_push]
  rfl

theorem nextBranch_respelled (b : CodeBuilder) (i : Nat) (k : Keyword) (location : Location) :
    (r.builder b).nextBranch i k (r.place location)
      = r.outcome r.builder (b.nextBranch i k location) := by
  obtain ⟨lines, blocks⟩ := b
  cases blocks with
  | nil => rfl
  | cons block outer =>
    cases block with
    | loop start opened => rfl
    | branch guard branches sawElse opened =>
      cases sawElse with
      | true => rfl
      | false =>
        simp only [nextBranch, Transcription.builder, List.map_cons, Transcription.block,
          patchGuard_respelled]
        rfl

theorem closeBranch_respelled (b : CodeBuilder) (i : Nat) (location : Location) :
    (r.builder b).closeBranch i (r.place location)
      = r.outcome r.builder (b.closeBranch i location) := by
  obtain ⟨lines, blocks⟩ := b
  cases blocks with
  | nil => rfl
  | cons block outer =>
    cases block with
    | loop start opened => rfl
    | branch guard branches sawElse opened =>
      simp only [closeBranch, Transcription.builder, List.map_cons, Transcription.block,
        patchGuard_respelled, patchBranches_respelled]
      rfl

theorem closeLoop_respelled (b : CodeBuilder) (i : Nat) (location : Location) :
    (r.builder b).closeLoop i (r.place location)
      = r.outcome (fun p => (r.builder p.1, p.2)) (b.closeLoop i location) := by
  obtain ⟨lines, blocks⟩ := b
  cases blocks with
  | nil => rfl
  | cons block outer =>
    cases block with
    | branch guard branches sawElse opened => rfl
    | loop start opened =>
      have hpatch := patch_respelled r lines start (withStop_respelled r i)
      simp only [closeLoop, Transcription.builder, List.map_cons, Transcription.block, hpatch]
      rfl

/-- A respelled statement is added as the respelled instruction. -/
theorem add_respelled (b : CodeBuilder) (location : Location) (text : String) (s : Statement) :
    (r.builder b).add (r.place location) (r.script text) (r.statement s)
      = r.outcome r.builder (b.add location text s) := by
  have hsize : (r.builder b).lines.size = b.lines.size := Array.size_map
  have hpush : ∀ (b : CodeBuilder) (i : Instruction String Expr String),
      (r.builder b).push (r.place location) (r.script text) (r.instruction i)
        = r.builder (b.push location text i) := fun b i => push_respelled r b location text i
  simp only [add, hsize]
  cases s with
  | set target value => exact congrArg Except.ok (hpush b (.set target value))
  | run subroutine => exact congrArg Except.ok (hpush b (.run subroutine))
  | return_ => exact congrArg Except.ok (hpush b .return_)
  | if_ condition =>
    exact congrArg Except.ok (hpush (b.enter (.branch _ _ _ location)) (.if_ condition 0))
  | elseIf condition =>
    show ((r.builder b).nextBranch _ _ _).map _ = _
    rw [nextBranch_respelled]
    exact r.outcome_map (fun b => hpush b (.elseIf condition 0 0)) _
  | else_ =>
    show ((r.builder b).nextBranch _ _ _).map _ = _
    rw [nextBranch_respelled]
    exact r.outcome_map (fun b => hpush b (.else_ 0)) _
  | endIf =>
    show ((r.builder b).closeBranch _ _).map _ = _
    rw [closeBranch_respelled]
    exact r.outcome_map (fun b => hpush b .endIf) _
  | while_ condition =>
    exact congrArg Except.ok (hpush (b.enter (.loop _ location)) (.while_ condition 0))
  | endWhile =>
    show ((r.builder b).closeLoop _ _).map _ = _
    rw [closeLoop_respelled]
    exact r.outcome_map (fun p => hpush p.1 (.endWhile p.2)) _

theorem finish_respelled (b : CodeBuilder) :
    (r.builder b).finish = r.code b.finish := by
  obtain ⟨lines, blocks⟩ := b
  cases blocks with
  | nil => rfl
  | cons block outer => cases block <;> rfl

/-- Adds the tokens of a line that has been cut. -/
def addLexed (b : CodeBuilder) (location : Location) (text : String) (line : LexedLine) :
    Except SyntaxError CodeBuilder :=
  match Statement.read line.stop line.lexemes with
  | .error e => .error e
  | .ok (s, rest) =>
    match b.add location text s with
    | .error e => .error e
    | .ok b =>
      match rest with
      | [] => .ok b
      | rest => Parser.fail line.stop rest .afterStatement

theorem addLine_eq_addLexed (b : CodeBuilder) (number : Nat) {text : List Char}
    {line : LexedLine} (h : LexedLine.read text number = .ok line) :
    b.addLine number text = b.addLexed ⟨number, 1⟩ (String.ofList text) line := by
  rw [addLine, h]
  rfl

theorem addLexed_respelled (b : CodeBuilder) (location : Location) (text : String)
    (line : LexedLine) :
    (r.builder b).addLexed (r.place location) (r.script text)
        ⟨line.lexemes.map r.lexeme, r.place line.stop⟩
      = r.outcome r.builder (b.addLexed location text line) := by
  simp only [addLexed]
  rw [Statement.read_respelled]
  cases Statement.read line.stop line.lexemes with
  | error e => rfl
  | ok p =>
    obtain ⟨s, rest⟩ := p
    dsimp only [Transcription.outcome]
    rw [add_respelled]
    cases b.add location text s with
    | error e => rfl
    | ok b =>
      cases rest with
      | nil => rfl
      | cons l rest =>
        exact Parser.fail_respelled r line.stop (l :: rest) .afterStatement fun _ => rfl

end CodeBuilder

/-! ## Lines

Cutting a line into tokens does not depend on where the line stands, and a line is left out exactly
when it has no tokens. -/

namespace LexedLine

/-- The tokens of a line, without their places. -/
def tokens (line : LexedLine) : List Token :=
  line.lexemes.map Lexeme.token

/-- A line is cut into the same tokens wherever it stands. -/
theorem readFrom_tokens (line column line' column' : Nat) (cs : List Char) :
    (readFrom line column cs).toOption.map tokens
      = (readFrom line' column' cs).toOption.map tokens := by
  fun_induction readFrom line column cs generalizing column' with
  | case1 =>
    rw [readFrom.eq_def]
    rfl
  | case2 column c rest hblank ih =>
    rw [readFrom.eq_def line' column']
    dsimp only
    rw [if_pos hblank]
    exact ih (column' + 1)
  | case3 column rest hblank =>
    rw [readFrom.eq_def]
    dsimp only
    rw [if_neg hblank, if_pos rfl]
    rfl
  | case4 column c rest hblank hcomment fault hscan =>
    rw [readFrom.eq_def]
    dsimp only
    rw [if_neg hblank, if_neg hcomment, hscan]
    rfl
  | case5 column c rest hblank hcomment token taken hscan e hrest ih =>
    have hother := ih (column' + 1 + taken)
    rw [hrest] at hother
    rw [readFrom.eq_def]
    dsimp only
    rw [if_neg hblank, if_neg hcomment, hscan]
    cases hrest' : readFrom line' (column' + 1 + taken) (rest.drop taken) with
    | error e' => simp only [hrest']; rfl
    | ok others' =>
      rw [hrest'] at hother
      cases hother
  | case6 column c rest hblank hcomment token taken hscan others hrest ih =>
    have hother := ih (column' + 1 + taken)
    rw [hrest] at hother
    rw [readFrom.eq_def]
    dsimp only
    rw [if_neg hblank, if_neg hcomment, hscan]
    cases hrest' : readFrom line' (column' + 1 + taken) (rest.drop taken) with
    | error e' =>
      rw [hrest'] at hother
      cases hother
    | ok others' =>
      rw [hrest'] at hother
      simp only [hrest']
      exact congrArg (Option.map (token :: ·)) hother

/-- All tokens of a line, and its end, are in that line. -/
theorem readFrom_lines {line column : Nat} {cs : List Char} {result : LexedLine}
    (h : readFrom line column cs = .ok result) :
    result.stop.line = line ∧ ∀ l ∈ result.lexemes, l.location.line = line := by
  fun_induction readFrom line column cs generalizing result with
  | case1 => cases h; simp
  | case2 column c rest hblank ih => exact ih h
  | case3 => cases h; simp
  | case4 => cases h
  | case5 => cases h
  | case6 column c rest hblank hcomment token taken hscan others hrest ih =>
    cases h
    obtain ⟨hstop, hall⟩ := ih hrest
    refine ⟨hstop, fun l hl => ?_⟩
    rcases List.mem_cons.1 hl with rfl | hl
    · rfl
    · exact hall l hl

/-- A comment, and nothing at all, has no tokens. -/
theorem read_of_skips {text : List Char} (number : Nat) (h : CodeBuilder.skips text) :
    read text number = .ok ⟨[], ⟨number, 1⟩⟩ := by
  cases text with
  | nil => rw [read, readFrom.eq_def]
  | cons c rest =>
    obtain rfl : c = '!' := by simpa [CodeBuilder.skips] using h
    rw [read, readFrom.eq_def]
    dsimp only
    rw [if_neg (by decide), if_pos rfl]

/-- A text that starts with neither a blank nor a comment has a token, if it can be cut. -/
theorem lexemes_ne_nil {c : Char} {rest : List Char} {number : Nat} {line : LexedLine}
    (hblank : Text.isBlank c ≠ true) (hcomment : c ≠ '!')
    (h : read (c :: rest) number = .ok line) : line.lexemes ≠ [] := by
  rw [read, readFrom.eq_def] at h
  dsimp only at h
  rw [if_neg hblank, if_neg hcomment] at h
  split at h
  · cases h
  · split at h
    · cases h
    · cases h
      exact List.cons_ne_nil _ _

end LexedLine

/-- The tokens of a source line with names in upper case; none if the line cannot be cut. -/
def foldedTokens? (raw : List Char) : Option (List Token) :=
  (LexedLine.read (Text.trim raw) 1).toOption.map fun line =>
    line.tokens.map Respelling.letterCase.token

theorem foldedTokens?_eq_some {raw : List Char} {ts : List Token}
    (h : foldedTokens? raw = some ts) (number : Nat) :
    ∃ line, LexedLine.read (Text.trim raw) number = .ok line
      ∧ line.tokens.map Respelling.letterCase.token = ts := by
  have htokens := LexedLine.readFrom_tokens 1 1 number 1 (Text.trim raw)
  obtain ⟨first, hfirst, hts⟩ := Option.map_eq_some_iff.1 h
  rw [LexedLine.read] at hfirst
  rw [hfirst] at htokens
  obtain ⟨line, hline, hsame⟩ := Option.map_eq_some_iff.1 htokens.symm
  refine ⟨line, ?_, by rw [hsame, hts]⟩
  rw [LexedLine.read]
  cases hread : LexedLine.readFrom number 1 (Text.trim raw) with
  | error e =>
    rw [hread] at hline
    cases hline
  | ok other =>
    rw [hread] at hline
    cases hline
    rfl

/-- A line is left out exactly if it has no tokens. -/
theorem skips_iff_foldedTokens? {raw : List Char} {ts : List Token}
    (h : foldedTokens? raw = some ts) : CodeBuilder.skips (Text.trim raw) = true ↔ ts = [] := by
  obtain ⟨line, hread, rfl⟩ := foldedTokens?_eq_some h 1
  refine ⟨fun hskips => ?_, fun hnil => ?_⟩
  · rw [LexedLine.read_of_skips 1 hskips] at hread
    cases hread
    rfl
  · have hlexemes : line.lexemes = [] := List.map_eq_nil_iff.1 (List.map_eq_nil_iff.1 hnil)
    cases htrim : Text.trim raw with
    | nil => rfl
    | cons c rest =>
      by_cases hcomment : c = '!'
      · subst hcomment
        rfl
      · rw [htrim] at hread
        exact absurd hlexemes (LexedLine.lexemes_ne_nil (Text.trim_head htrim) hcomment hread)

/-- Two sources with the same lines of tokens, up to the letter case of names and keywords. -/
structure SameTokens (source source' : String) : Prop where
  cut : ∀ raw ∈ Text.lines source.toList, (foldedTokens? raw).isSome
  same : (Text.lines source.toList).map foldedTokens?
    = (Text.lines source'.toList).map foldedTokens?

namespace CodeBuilder

open Respelling

/-- Lines with the same tokens are cut into the same tokens without columns. -/
theorem lexed_eq {number : Nat} {text text' : List Char} {line line' : LexedLine}
    (hread : LexedLine.read text number = .ok line)
    (hread' : LexedLine.read text' number = .ok line')
    (h : line.tokens.map letterCase.token = line'.tokens.map letterCase.token) :
    (⟨line.lexemes.map letterCase.lexeme, letterCase.place line.stop⟩ : LexedLine)
      = ⟨line'.lexemes.map letterCase.lexeme, letterCase.place line'.stop⟩ := by
  have hplain : ∀ {text : List Char} {line : LexedLine},
      LexedLine.read text number = .ok line →
      (⟨line.lexemes.map letterCase.lexeme, letterCase.place line.stop⟩ : LexedLine)
        = ⟨(line.tokens.map letterCase.token).map fun t => ⟨t, ⟨number, 1⟩⟩, ⟨number, 1⟩⟩ := by
    intro text line hread
    obtain ⟨hstop, hall⟩ := LexedLine.readFrom_lines hread
    have hmap : line.lexemes.map letterCase.lexeme
        = (line.tokens.map letterCase.token).map fun t => ⟨t, ⟨number, 1⟩⟩ := by
      rw [LexedLine.tokens, List.map_map, List.map_map]
      refine List.map_congr_left fun l hl => ?_
      show Lexeme.mk _ ⟨l.location.line, 1⟩ = Lexeme.mk _ ⟨number, 1⟩
      rw [hall l hl]
    rw [hmap]
    show LexedLine.mk _ ⟨line.stop.line, 1⟩ = LexedLine.mk _ ⟨number, 1⟩
    rw [hstop]
  rw [hplain hread, hplain hread', h]

theorem addLine_congr {b b' : CodeBuilder} (hb : letterCase.builder b = letterCase.builder b')
    (number : Nat) {text text' : List Char} {line line' : LexedLine}
    (hread : LexedLine.read text number = .ok line)
    (hread' : LexedLine.read text' number = .ok line')
    (h : line.tokens.map letterCase.token = line'.tokens.map letterCase.token) :
    letterCase.outcome letterCase.builder (b.addLine number text)
      = letterCase.outcome letterCase.builder (b'.addLine number text') := by
  rw [addLine_eq_addLexed b number hread, addLine_eq_addLexed b' number hread',
    ← addLexed_respelled, ← addLexed_respelled, hb, lexed_eq hread hread' h]
  rfl

/-- Lines with the same tokens are added alike, one after another. -/
theorem addLines_congr {raws raws' : List (List Char)}
    (hcut : ∀ raw ∈ raws, (foldedTokens? raw).isSome)
    (hsame : raws.map foldedTokens? = raws'.map foldedTokens?) {b b' : CodeBuilder}
    (hb : letterCase.builder b = letterCase.builder b') (number : Nat) :
    letterCase.outcome letterCase.builder (b.addLines number raws)
      = letterCase.outcome letterCase.builder (b'.addLines number raws') := by
  induction raws generalizing raws' b b' number with
  | nil =>
    obtain rfl := List.map_eq_nil_iff.1 hsame.symm
    exact congrArg Except.ok hb
  | cons raw rest ih =>
    cases raws' with
    | nil => cases hsame
    | cons raw' rest' =>
      obtain ⟨hhead, htail⟩ := List.cons.inj hsame
      have hrest : ∀ raw ∈ rest, (foldedTokens? raw).isSome := fun raw hraw =>
        hcut raw (List.mem_cons_of_mem _ hraw)
      obtain ⟨ts, hts⟩ := Option.isSome_iff_exists.1 (hcut raw (List.mem_cons_self ..))
      have hts' : foldedTokens? raw' = some ts := by rw [← hhead, hts]
      rw [addLines, addLines]
      by_cases hskip : skips (Text.trim raw) = true
      · have hskip' := (skips_iff_foldedTokens? hts').2 ((skips_iff_foldedTokens? hts).1 hskip)
        rw [if_pos hskip, if_pos hskip']
        exact ih hrest htail hb (number + 1)
      · have hskip' : ¬ skips (Text.trim raw') = true := fun h =>
          hskip ((skips_iff_foldedTokens? hts).2 ((skips_iff_foldedTokens? hts').1 h))
        rw [if_neg hskip, if_neg hskip']
        -- the tokens were compared in the first line of a text, and are read in line `number`
        obtain ⟨line, hread, hline⟩ := foldedTokens?_eq_some hts number
        obtain ⟨line', hread', hline'⟩ := foldedTokens?_eq_some hts' number
        have hadd := addLine_congr hb number hread hread' (hline.trans hline'.symm)
        generalize b.addLine number (Text.trim raw) = x at hadd
        generalize b'.addLine number (Text.trim raw') = y at hadd
        cases x with
        | error e =>
          cases y with
          | error e' => exact hadd
          | ok b' => cases hadd
        | ok b =>
          cases y with
          | error e' => cases hadd
          | ok b' => exact ih hrest htail (Except.ok.inj hadd) (number + 1)

end CodeBuilder

/-- Sources with the same tokens are read as the same code, up to letter case. -/
theorem parseCode_congr {source source' : String} (h : SameTokens source source') :
    Respelling.letterCase.code (parseCode source)
      = Respelling.letterCase.code (parseCode source') := by
  have hlines := CodeBuilder.addLines_congr h.cut h.same (b := .empty) rfl 1
  unfold parseCode
  generalize CodeBuilder.empty.addLines 1 (Text.lines source.toList) = x at hlines
  generalize CodeBuilder.empty.addLines 1 (Text.lines source'.toList) = y at hlines
  cases x with
  | error e =>
    cases y with
    | error e' => exact congrArg Except.error (Except.error.inj hlines)
    | ok b' => cases hlines
  | ok b =>
    cases y with
    | error e' => cases hlines
    | ok b' =>
      show Respelling.letterCase.code b.finish = Respelling.letterCase.code b'.finish
      rw [← CodeBuilder.finish_respelled, ← CodeBuilder.finish_respelled, Except.ok.inj hlines]

end Erl
