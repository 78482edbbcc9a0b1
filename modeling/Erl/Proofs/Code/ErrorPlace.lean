/-
  Erl.Proofs.Code.ErrorPlace

  Where an error points.

  The line of an error is the position of its line in the source text.  Its column counts the
  characters of the line without the blanks before it: what the error is about stands there, and in
  the line as it is written it stands behind these blanks as well.
-/

import Erl.Proofs.Code.Offence
import Erl.Proofs.Code.Rows
import Erl.Proofs.Token.Line

namespace Erl

/-- The keyword that a fault of the block structure is about. -/
def SyntaxFault.keyword? : SyntaxFault → Option Keyword
  | outsideBranch k => some k
  | afterElse k => some k
  | wrongCloser closing _ => some closing.closer
  | unopened closing => some closing.closer
  | unclosed block => some block.opener
  | _ => none

/-- The tokens of a text, if it can be cut into tokens. -/
def Text.tokens? (cs : List Char) : Option (List Token) :=
  (LexedLine.read cs 1).toOption.map LexedLine.tokens

/-- What a fault is about stands in a statement where the statement is cut in two. -/
inductive SyntaxFault.PointsAt : SyntaxFault → List Char → List Char → Prop where
  /-- What follows the tokens so far is no token. -/
  | lexical {f : LexicalFault} {before after : List Char} {ts : List Token} :
      Text.tokens? before = some ts → f.Arises after → PointsAt (.lexical f) before after
  /-- The next token is the first that is wrong. -/
  | token {fault : SyntaxFault} {before w rest : List Char} {ts : List Token} {t : Token} :
      Text.tokens? before = some ts → t.Spells w → Token.Ends w rest → Offends ts (some t) →
      fault.IsAbout t → PointsAt fault before (w ++ rest)
  /-- The statement ends too early: here, or where its comment starts. -/
  | ending {fault : SyntaxFault} {before after : List Char} {ts : List Token} :
      Text.tokens? before = some ts → (after = [] ∨ ∃ text, after = '!' :: text) →
      Offends ts none → fault.IsAbout .endOfLine → PointsAt fault before after
  /-- The statement starts with a keyword that has no place among the blocks. -/
  | block {fault : SyntaxFault} {w rest : List Char} {k : Keyword} :
      (Token.keyword k).Spells w → Token.Ends w rest → fault.keyword? = some k →
      PointsAt fault [] (w ++ rest)

/-- An error points into a row, at what its fault is about. -/
structure SyntaxError.PointsInto (e : SyntaxError) (row : List Char × Nat) : Prop where
  line : e.location.line = row.2
  place : ∃ before after, row.1 = before ++ after ∧ e.location.column = before.length + 1
    ∧ e.fault.PointsAt before after

/-! ## Tokens and their places -/

namespace LexedLine

theorem lexemesAt_append (line column : Nat) (items items' : List Item) :
    lexemesAt line column (items ++ items')
      = lexemesAt line column items
        ++ lexemesAt line (column + (written items).length) items' := by
  induction items generalizing column with
  | nil => rfl
  | cons i rest ih =>
    rw [List.cons_append, lexemesAt, lexemesAt, ih, written_cons, List.length_append,
      Nat.add_assoc]
    rfl

theorem written_append (items items' : List Item) :
    written (items ++ items') = written items ++ written items' :=
  List.flatMap_append

theorem tight_append {tail : List Char} {items items' : List Item}
    (h : Tight tail (items ++ items')) :
    Tight (written items' ++ tail) items ∧ Tight tail items' := by
  induction items with
  | nil => exact ⟨trivial, h⟩
  | cons i rest ih =>
    obtain ⟨hends, hrest⟩ := h
    obtain ⟨hfirst, hlast⟩ := ih hrest
    change Token.Ends _ (_ ++ (written (rest ++ items') ++ tail)) at hends
    rw [written_append, List.append_assoc] at hends
    exact ⟨⟨hends, hfirst⟩, hlast⟩

theorem length_lexemesAt (line column : Nat) (items : List Item) :
    (lexemesAt line column items).length = items.length := by
  have hmap := congrArg List.length (map_token_lexemesAt line column items)
  rwa [List.length_map, List.length_map] at hmap

/-- The tokens of items in a row come of items that are cut in the same place. -/
theorem exists_items_of_append {line column : Nat} {items : List Item} {used rest : List Lexeme}
    (h : lexemesAt line column items = used ++ rest) :
    ∃ first last, items = first ++ last ∧ used = lexemesAt line column first
      ∧ rest = lexemesAt line (column + (written first).length) last := by
  refine ⟨items.take used.length, items.drop used.length, (List.take_append_drop ..).symm, ?_⟩
  rw [← List.take_append_drop used.length items, lexemesAt_append] at h
  -- there is one token for each item
  have hlength : (lexemesAt line column (items.take used.length)).length = used.length := by
    have hle : used.length ≤ items.length := by
      have htotal := congrArg List.length h
      rw [← lexemesAt_append, length_lexemesAt, List.take_append_drop, List.length_append] at htotal
      omega
    rw [length_lexemesAt, List.length_take, Nat.min_eq_left hle]
  obtain ⟨hused, hrest⟩ := List.append_inj h hlength
  exact ⟨hused.symm, hrest.symm⟩

end LexedLine

open LexedLine Text

theorem tokens?_written {lead tail : List Char} {items : List Item}
    (hlead : ∀ c ∈ lead, isBlank c = true) (htight : Tight tail items) :
    Text.tokens? (lead ++ written items) = some (items.map Item.token) := by
  have hread := read_written hlead (htight.of_start List.nil_prefix) (.inl rfl) 1
  rw [List.append_nil] at hread
  rw [Text.tokens?, hread]
  exact congrArg some (map_token_lexemesAt ..)

/-- A line is blanks, tokens, and what is left: nothing or a comment, and then it is read as these
    tokens, or a fault at which it is refused. -/
theorem read_cases (text : List Char) (number : Nat) :
    ∃ (lead : List Char) (items : List Item) (tail : List Char),
      text = lead ++ (written items ++ tail) ∧ (∀ c ∈ lead, isBlank c = true) ∧ Tight tail items
        ∧ ((tail = [] ∨ ∃ comment, tail = '!' :: comment)
            ∧ read text number = .ok ⟨lexemesAt number (lead.length + 1) items,
                ⟨number, lead.length + (written items).length + 1⟩⟩
          ∨ ∃ f, LexicalFault.Arises f tail
            ∧ read text number
              = .error ⟨f, ⟨number, lead.length + (written items).length + 1⟩⟩) := by
  obtain ⟨lead, items, tail, rfl, hlead, htight, hrest⟩ := exists_items text
  refine ⟨lead, items, tail, rfl, hlead, htight, ?_⟩
  cases hrest with
  | nothing =>
    have hend : ([] : List Char) = [] ∨ ∃ comment, ([] : List Char) = '!' :: comment := .inl rfl
    exact .inl ⟨hend, read_written hlead htight hend number⟩
  | comment text =>
    have hend : '!' :: text = [] ∨ ∃ comment, '!' :: text = '!' :: comment := .inr ⟨text, rfl⟩
    exact .inl ⟨hend, read_written hlead htight hend number⟩
  | @fault c cs f hblank hmark hscan =>
    have hscans := Token.scans_scan c cs
    rw [hscan] at hscans
    cases hscans with
    | fault harises => exact .inr ⟨f, harises, read_fault hlead htight hblank hmark hscan number⟩

/-- A line that cannot be cut is refused at the first text that is no token. -/
theorem pointsInto_of_lexical {text : List Char} {number : Nat} {e : LexicalError}
    (h : read text number = .error e) : (SyntaxError.ofLexical e).PointsInto (text, number) := by
  obtain ⟨lead, items, tail, htext, hlead, htight, ⟨-, hread⟩ | ⟨f, harises, hread⟩⟩ :=
    read_cases text number
  · rw [hread] at h
    cases h
  · rw [hread] at h
    cases h
    refine ⟨rfl, lead ++ written items, tail, ?_, ?_, ?_⟩
    · rw [htext, List.append_assoc]
    · rw [List.length_append]
      rfl
    · exact .lexical (tokens?_written hlead htight) harises

/-- A line that goes wrong as a statement is refused at the token where it does, or at its end. -/
theorem pointsInto_of_offence {text : List Char} {number : Nat} {line : LexedLine}
    (h : read text number = .ok line) {used rest : List Lexeme} (hsplit : line.lexemes = used ++ rest)
    (hoffends : Offends (used.map Lexeme.token) (rest.head?.map Lexeme.token)) {e : SyntaxError}
    (hat : e.IsAt (Parser.peek line.stop rest)) : e.PointsInto (text, number) := by
  obtain ⟨lead, items, tail, htext, hlead, htight, ⟨hend, hread⟩ | ⟨f, harises, hread⟩⟩ :=
    read_cases text number
  · rw [hread] at h
    cases h
    obtain ⟨first, last, rfl, rfl, rfl⟩ := exists_items_of_append hsplit
    obtain ⟨hfirst, hlast⟩ := tight_append htight
    have htokens := tokens?_written hlead hfirst
    rw [map_token_lexemesAt] at hoffends
    cases last with
    | nil =>
      -- the line ends after the tokens that were taken
      rw [List.append_nil] at htext
      refine ⟨by rw [hat.location]; rfl, lead ++ written first, tail, ?_, ?_, ?_⟩
      · rw [htext, List.append_assoc]
      · rw [hat.location, List.length_append]
        show lead.length + (written (first ++ [])).length + 1 = _
        rw [List.append_nil]
      · exact .ending htokens hend hoffends hat.isAbout
    | cons i last =>
      refine ⟨by rw [hat.location]; rfl, lead ++ written first,
        i.chars ++ (i.gap ++ (written last ++ tail)), ?_, ?_, ?_⟩
      · rw [htext, written_append, written_cons, Item.text]
        simp only [List.append_assoc]
      · rw [hat.location, List.length_append]
        show lead.length + 1 + (written first).length = _
        omega
      · exact .token htokens i.spells hlast.1 hoffends hat.isAbout
  · rw [hread] at h
    cases h

/-- A line that starts with a keyword has it at its start. -/
theorem keyword_first {text : List Char} {number : Nat} {line : LexedLine}
    (h : read text number = .ok line) (hhead : ∀ c ∈ text.head?, isBlank c ≠ true) {k : Keyword}
    {location : Location} {others : List Lexeme}
    (hkeyword : line.lexemes = ⟨.keyword k, location⟩ :: others) :
    ∃ w rest, text = w ++ rest ∧ (Token.keyword k).Spells w ∧ Token.Ends w rest := by
  obtain ⟨lead, items, tail, htext, hlead, htight, ⟨-, hread⟩ | ⟨f, -, hread⟩⟩ :=
    read_cases text number
  · rw [hread] at h
    cases h
    cases items with
    | nil => cases hkeyword
    | cons i rest =>
      obtain ⟨hfirst, -⟩ := List.cons.inj hkeyword
      have htoken : i.token = .keyword k := congrArg Lexeme.token hfirst
      -- no blank stands before the keyword
      have hlead : lead = [] := by
        cases lead with
        | nil => rfl
        | cons c lead =>
          rw [htext] at hhead
          exact absurd (hlead c List.mem_cons_self) (hhead c rfl)
      subst hlead
      refine ⟨i.chars, i.gap ++ (written rest ++ tail), ?_, htoken ▸ i.spells, htight.1⟩
      rw [htext, written_cons, Item.text]
      simp only [List.append_assoc, List.nil_append]
  · rw [hread] at h
    cases h

/-! ## Blocks -/

namespace CodeBuilder

theorem eq_error_of_map {α β : Type} {f : α → β} {x : Except SyntaxError α} {e : SyntaxError}
    (h : x.map f = .error e) : x = .error e := by
  cases x with
  | error e' =>
    cases h
    rfl
  | ok a => cases h

theorem nextBranch_error {b : CodeBuilder} {index : Nat} {k : Keyword} {location : Location}
    {e : SyntaxError} (h : b.nextBranch index k location = .error e) :
    e.location = location ∧ e.fault.keyword? = some k := by
  unfold nextBranch at h
  split at h
  · split at h
    · cases h
      exact ⟨rfl, rfl⟩
    · cases h
  · cases h
    exact ⟨rfl, rfl⟩

theorem closeBranch_error {b : CodeBuilder} {index : Nat} {location : Location} {e : SyntaxError}
    (h : b.closeBranch index location = .error e) :
    e.location = location ∧ e.fault.keyword? = some .endIf := by
  unfold closeBranch at h
  split at h
  · cases h
  · cases h
    exact ⟨rfl, rfl⟩
  · cases h
    exact ⟨rfl, rfl⟩

theorem closeLoop_error {b : CodeBuilder} {index : Nat} {location : Location} {e : SyntaxError}
    (h : b.closeLoop index location = .error e) :
    e.location = location ∧ e.fault.keyword? = some .endWhile := by
  unfold closeLoop at h
  split at h
  · cases h
  · cases h
    exact ⟨rfl, rfl⟩
  · cases h
    exact ⟨rfl, rfl⟩

/-- A statement that does not fit the open blocks is refused at its keyword. -/
theorem add_error {b : CodeBuilder} {location : Location} {text : String} {s : Statement}
    {e : SyntaxError} (h : b.add location text s = .error e) :
    e.location = location ∧ e.fault.keyword? = some s.keyword := by
  cases s with
  | elseIf condition => exact nextBranch_error (eq_error_of_map h)
  | else_ => exact nextBranch_error (eq_error_of_map h)
  | endIf => exact closeBranch_error (eq_error_of_map h)
  | endWhile => exact closeLoop_error (eq_error_of_map h)
  | _ => cases h

/-- Where an open block starts does not change while it is open, and a new one starts at the
    statement that opens it. -/
theorem add_opened {b b' : CodeBuilder} {location : Location} {text : String} {s : Statement}
    (h : b.add location text s = .ok b') {block : OpenBlock} (hblock : block ∈ b'.blocks) :
    (∃ block' ∈ b.blocks, block'.kind = block.kind ∧ block'.opened = block.opened)
      ∨ block.opened = location ∧ s.keyword = block.kind.opener := by
  have hturns := add_turns h
  cases s with
  | if_ condition | while_ condition =>
    cases h
    rcases List.mem_cons.1 hblock with rfl | hold
    · exact .inr ⟨rfl, rfl⟩
    · exact .inl ⟨block, hold, rfl, rfl⟩
  | elseIf _ | else_ =>
    -- the branch that goes on is the same block
    obtain ⟨_, _, opened, _, _, outer, hbefore, hafter⟩ := hturns
    rw [hafter] at hblock
    rw [hbefore]
    rcases List.mem_cons.1 hblock with rfl | hold
    · exact .inl ⟨_, List.mem_cons_self, rfl, rfl⟩
    · exact .inl ⟨block, .tail _ hold, rfl, rfl⟩
  | endIf =>
    obtain ⟨_, _, _, _, hbefore⟩ := hturns
    rw [hbefore]
    exact .inl ⟨block, .tail _ hblock, rfl, rfl⟩
  | endWhile =>
    obtain ⟨_, _, hbefore⟩ := hturns
    rw [hbefore]
    exact .inl ⟨block, .tail _ hblock, rfl, rfl⟩
  | _ =>
    have hsame : b'.blocks = b.blocks := hturns
    exact .inl ⟨block, hsame ▸ hblock, rfl, rfl⟩

end CodeBuilder

/-! ## Rows -/

theorem pointsInto_of_keyword {text : List Char} {number : Nat} {line : LexedLine} {s : Statement}
    {rest : List Lexeme} (hhead : ∀ c ∈ text.head?, isBlank c ≠ true)
    (hline : read text number = .ok line)
    (hread : Statement.read line.stop line.lexemes = .ok (s, rest)) {e : SyntaxError}
    (hlocation : e.location = ⟨number, 1⟩) (hfault : e.fault.keyword? = some s.keyword) :
    e.PointsInto (text, number) := by
  obtain ⟨location, others, hkeyword⟩ := Statement.exists_keyword line.stop hread
  obtain ⟨w, after, rfl, hspells, hends⟩ := keyword_first hline hhead hkeyword
  refine ⟨by rw [hlocation], [], w ++ after, rfl, by rw [hlocation]; rfl, ?_⟩
  exact .block hspells hends hfault

namespace CodeBuilder

/-- A row is refused at a place in it. -/
theorem addLine_error {b : CodeBuilder} {number : Nat} {text : List Char} {e : SyntaxError}
    (hhead : ∀ c ∈ text.head?, isBlank c ≠ true) (h : b.addLine number text = .error e) :
    e.PointsInto (text, number) := by
  cases hline : LexedLine.read text number with
  | error e' =>
    rw [addLine, hline] at h
    cases h
    exact pointsInto_of_lexical hline
  | ok line =>
    rw [addLine_eq_addLexed b number hline] at h
    obtain ⟨used, rest, hsplit, hoffends, hat⟩ | ⟨s, rest, hread, hadd⟩ := addLexed_error h
    · exact pointsInto_of_offence hline hsplit hoffends hat
    · obtain ⟨hlocation, hfault⟩ := add_error hadd
      exact pointsInto_of_keyword hhead hline hread hlocation hfault

/-- A block that is open after a row was open before it, or starts in it. -/
theorem addLine_opened {b b' : CodeBuilder} {number : Nat} {text : List Char}
    (hhead : ∀ c ∈ text.head?, isBlank c ≠ true) (h : b.addLine number text = .ok b')
    {block : OpenBlock} (hblock : block ∈ b'.blocks) :
    (∃ block' ∈ b.blocks, block'.kind = block.kind ∧ block'.opened = block.opened)
      ∨ SyntaxError.PointsInto ⟨.unclosed block.kind, block.opened⟩ (text, number) := by
  obtain ⟨s, hs, hadd⟩ := addLine_eq_ok_iff.1 h
  refine (add_opened hadd hblock).imp_right fun ⟨hopened, hkeyword⟩ => ?_
  rw [Statement.ofLine?] at hs
  cases hline : LexedLine.read text number with
  | error e =>
    rw [hline] at hs
    cases hs
  | ok line =>
    rw [hline] at hs
    dsimp only at hs
    split at hs
    · next s' hread =>
      cases hs
      exact pointsInto_of_keyword hhead hline hread hopened (congrArg some hkeyword.symm)
    · cases hs

/-- Every open block starts in one of some rows. -/
def OpensIn (b : CodeBuilder) (rows : List (List Char × Nat)) : Prop :=
  ∀ block ∈ b.blocks, ∃ row ∈ rows, SyntaxError.PointsInto ⟨.unclosed block.kind, block.opened⟩ row

/-- Rows are refused at a place in one of them, and a block that they leave open starts in one of
    them. -/
theorem addRows_points {all rows : List (List Char × Nat)} (hsub : ∀ row ∈ rows, row ∈ all)
    (hhead : ∀ row ∈ all, ∀ c ∈ row.1.head?, isBlank c ≠ true) {b : CodeBuilder}
    (hb : b.OpensIn all) :
    (∀ e, b.addRows rows = .error e → ∃ row ∈ all, e.PointsInto row)
      ∧ ∀ b', b.addRows rows = .ok b' → b'.OpensIn all := by
  induction rows generalizing b with
  | nil =>
    rw [addRows]
    exact ⟨fun e he => (by cases he), fun b' hb' => (by cases hb'; exact hb)⟩
  | cons row rows ih =>
    obtain ⟨hrow, hrows⟩ := List.forall_mem_cons.1 hsub
    rw [addRows]
    cases hadd : b.addLine row.2 row.1 with
    | error e =>
      refine ⟨fun e' he' => ?_, fun b' hb' => (by cases hb')⟩
      cases he'
      exact ⟨row, hrow, addLine_error (hhead row hrow) hadd⟩
    | ok b₁ =>
      refine ih hrows fun block hblock => ?_
      obtain ⟨block', hold, hkind, hopened⟩ | hnew := addLine_opened (hhead row hrow) hadd hblock
      · rw [← hkind, ← hopened]
        exact hb block' hold
      · exact ⟨row, hrow, hnew⟩

end CodeBuilder

theorem head_statementRows {source : String} :
    ∀ row ∈ statementRows source, ∀ c ∈ row.1.head?, isBlank c ≠ true := by
  intro row hrow c hc
  obtain ⟨raw, -, htrim⟩ := exists_of_mem_statementRows hrow
  obtain ⟨rest, hrest⟩ := List.head?_eq_some_iff.1 hc
  exact trim_head (htrim.symm.trans hrest)

/-- An error of a source text points into one of its rows. -/
theorem exists_row_of_error {source : String} {e : SyntaxError} (h : parseCode source = .error e) :
    ∃ row ∈ statementRows source, e.PointsInto row := by
  have hempty : CodeBuilder.empty.OpensIn (statementRows source) := fun block hblock => by
    cases hblock
  obtain ⟨herror, hopen⟩ := CodeBuilder.addRows_points
    (fun row (hrow : row ∈ statementRows source) => hrow) head_statementRows hempty
  rw [parseCode, addLines_lines] at h
  cases hadd : CodeBuilder.empty.addRows (statementRows source) with
  | error e' =>
    rw [hadd] at h
    cases h
    exact herror e hadd
  | ok b =>
    rw [hadd] at h
    dsimp only [CodeBuilder.finish] at h
    split at h
    · cases h
    · next block outer hblocks =>
      cases h
      exact hopen b hadd block (hblocks ▸ List.mem_cons_self)

/-- An error points at what it is about.  Its line is the position of a line of the source text, and
    its column is the position, in that line without the blanks before it, of the text that is no
    token, of the first token that is wrong, of the end of a statement that ends too early or of its
    comment, or of a keyword that has no place among the blocks. -/
theorem parseCode_error_place {source : String} {e : SyntaxError} (h : parseCode source = .error e) :
    ∃ raw lead before after trail,
      (raw, e.location.line) ∈ (Text.lines source.toList).zipIdx 1
        ∧ raw = lead ++ (before ++ (after ++ trail))
        ∧ Text.trim raw = before ++ after
        ∧ (∀ c ∈ lead, isBlank c = true) ∧ (∀ c ∈ trail, isBlank c = true)
        ∧ (lead ++ before).length + 1 = lead.length + e.location.column
        ∧ e.fault.PointsAt before after := by
  obtain ⟨row, hrow, hline, before, after, hsplit, hcolumn, hpoints⟩ := exists_row_of_error h
  obtain ⟨raw, hraw, htrim⟩ := exists_of_mem_statementRows hrow
  obtain ⟨lead, trail, hparts, hlead, htrail⟩ := exists_trim raw
  have htext : Text.trim raw = before ++ after := htrim.symm.trans hsplit
  refine ⟨raw, lead, before, after, trail, hline ▸ hraw, ?_, htext, hlead, htrail, ?_, hpoints⟩
  · rw [htext, List.append_assoc] at hparts
    exact hparts
  · rw [List.length_append, hcolumn]
    omega

/-- Why a source text is no program, if it is none. -/
def syntaxError? (source : String) : Option SyntaxError :=
  match parseCode source with
  | .error e => some e
  | .ok _ => none

theorem syntaxError?_eq_some_iff {source : String} {e : SyntaxError} :
    syntaxError? source = some e ↔ parseCode source = .error e := by
  rw [syntaxError?]
  cases parseCode source with
  | error e' => simp
  | ok code => simp

/-- An indented statement that ends within parentheses, after a comment and within a block. -/
def unclosedGroup : String :=
  "! raise\nIF x > 0\n  SET x = (1 + 2 \nENDIF"

theorem parseCode_error_place_unclosedGroup :
    ∃ e, parseCode unclosedGroup = .error e ∧ e.location = ⟨3, 15⟩
      ∧ ∃ raw lead before after trail,
        (raw, e.location.line) ∈ (Text.lines unclosedGroup.toList).zipIdx 1
          ∧ raw = lead ++ (before ++ (after ++ trail))
          ∧ Text.trim raw = before ++ after
          ∧ (∀ c ∈ lead, isBlank c = true) ∧ (∀ c ∈ trail, isBlank c = true)
          ∧ (lead ++ before).length + 1 = lead.length + e.location.column
          ∧ e.fault.PointsAt before after := by
  have herror : parseCode unclosedGroup = .error ⟨.unclosedParen .endOfLine, ⟨3, 15⟩⟩ :=
    syntaxError?_eq_some_iff.1 (by decide +kernel)
  exact ⟨_, herror, rfl, parseCode_error_place herror⟩

/-- In an indented line the column of an error is not that of the line as it is written. -/
theorem parseCode_column_misses_indentation :
    parseCode "  SET x = $" = .error ⟨.lexical (.unexpected '$'), ⟨1, 9⟩⟩
      ∧ Text.lines "  SET x = $".toList = ["  SET x = $".toList]
      ∧ "  SET x = $".toList.idxOf '$' + 1 = 11 := by
  refine ⟨syntaxError?_eq_some_iff.1 ?_, ?_, ?_⟩ <;> decide +kernel

end Erl
