/-
  Erl.Proofs.Code.Offence

  Where a statement goes wrong.

  A token offends if the tokens before it are the start of some statement and with it they are not;
  the end of a line offends if the tokens before it are the start of a statement only.  That is where
  the reader refuses a line that is no statement.
-/

import Erl.Proofs.Code.Block
import Erl.Proofs.Code.Respelling
import Erl.Proofs.Expr.Lookahead

namespace Erl

/-! ## Statements and their starts -/

/-- Tokens are a statement; it does not matter where they stand. -/
def FormsStatement (ts : List Token) : Prop :=
  ∃ s, Statement.read ⟨1, 1⟩ (ts.map fun t => ⟨t, ⟨1, 1⟩⟩) = .ok (s, [])

/-- Tokens are the start of some statement. -/
def StartsStatement (ts : List Token) : Prop :=
  ∃ more, FormsStatement (ts ++ more)

/-- The next token, or the end of the line, is the first that is wrong after some tokens. -/
inductive Offends : List Token → Option Token → Prop where
  | token {before : List Token} {t : Token} : StartsStatement before →
      ¬ StartsStatement (before ++ [t]) → Offends before (some t)
  | ending {before : List Token} : StartsStatement before → ¬ FormsStatement before →
      Offends before none

theorem formsStatement_iff {ls : List Lexeme} (stop : Location) :
    FormsStatement (ls.map Lexeme.token) ↔ ∃ s, Statement.read stop ls = .ok (s, []) := by
  have hmap : (ls.map Lexeme.token).map (fun t => ⟨t, ⟨1, 1⟩⟩)
      = ls.map (Transcription.moved fun _ => ⟨1, 1⟩).lexeme := by
    rw [List.map_map]
    refine List.map_congr_left fun l _ => ?_
    exact congrArg (Lexeme.mk · _) (Transcription.moved_token _ l.token).symm
  have hread := Statement.read_respelled (Transcription.moved fun _ => ⟨1, 1⟩) stop ls
  rw [FormsStatement, hmap]
  change Statement.read ⟨1, 1⟩ _ = _ at hread
  rw [hread]
  cases Statement.read stop ls with
  | error e => simp [Transcription.outcome]
  | ok p =>
    obtain ⟨s, rest⟩ := p
    simp [Transcription.outcome]

namespace Statement

open Erl.Parser

variable (stop : Location)

/-! ## The statement reader, reader by reader -/

theorem name_hasExtent (after : Keyword) (ts : List Lexeme) :
    HasExtent stop (name stop after) (fun _ => True) (fun _ => True) ts := by
  cases ts with
  | nil => exact .fail_nil rfl (.inl rfl)
  | cons l rest =>
    obtain ⟨token, location⟩ := l
    cases token with
    | name s => exact .token (fun _ => rfl) trivial
    | _ => exact .fail_cons (fun _ => rfl) (.inl rfl)

/-- Reads the value of an assignment to a target. -/
def assigned (target : String) : Reader Statement
  | ⟨.assign, _⟩ :: rest => Reader.map (.set target) (expression stop) rest
  | rest => fail stop rest .expectedAssign

theorem assignment_eq (ts : List Lexeme) :
    assignment stop ts = Reader.andThen (name stop .set) (assigned stop) ts := by
  rw [assignment, Reader.andThen]
  cases name stop .set ts with
  | error e => rfl
  | ok p =>
    obtain ⟨target, rest⟩ := p
    cases rest with
    | nil => rfl
    | cons l rest =>
      obtain ⟨token, location⟩ := l
      cases token <;> rfl

/-- A name, to complete tokens with. -/
def nameFiller : Lexeme :=
  ⟨.name "x", ⟨1, 1⟩⟩

/-- An assignment sign, to complete tokens with. -/
def assignFiller : Lexeme :=
  ⟨.assign, ⟨1, 1⟩⟩

theorem assigned_filler (target : String) :
    assigned stop target [assignFiller, filler] = .ok (.set target (.literal (.number 0)), []) := by
  show Reader.map (Statement.set target) (expression stop) [filler] = _
  rw [Reader.map, expression_filler]
  rfl

theorem assigned_hasExtent (target : String) (ts : List Lexeme) :
    HasExtent stop (assigned stop target) (fun _ => True) (· = []) ts := by
  cases ts with
  | nil => exact .fail_nil rfl (.inl rfl)
  | cons l rest =>
    obtain ⟨token, location⟩ := l
    cases token with
    | assign =>
      refine .cons (g := .map (.set target) (expression stop)) (fun _ => rfl)
        ((expression_hasExtent stop rest).map fun _ _ => trivial) ⟨[filler], fun after hafter => ?_⟩
      subst hafter
      exact ⟨_, trivial, assigned_filler stop target⟩
    | _ => exact .fail_cons (fun _ => rfl) (.inl rfl)

theorem assignment_hasExtent (ts : List Lexeme) :
    HasExtent stop (assignment stop) (fun _ => True) (· = []) ts := by
  refine .congr (fun ts' _ => assignment_eq stop ts') ?_
  refine (name_hasExtent stop .set ts).andThen
    (fun target rest _ => assigned_hasExtent stop target rest)
    ⟨[assignFiller, filler], fun after hafter => ⟨trivial, fun target _ => ?_⟩⟩
  subst hafter
  exact ⟨_, trivial, assigned_filler stop target⟩

theorem guarded_hasExtent (make : Expr → Statement) (ts : List Lexeme) :
    HasExtent stop (guarded stop make) (fun _ => True) (· = []) ts :=
  (expression_hasExtent stop ts).map fun _ _ => trivial

theorem guarded_filler (make : Expr → Statement) :
    guarded stop make [filler] = .ok (make (.literal (.number 0)), []) := by
  rw [guarded, expression_filler]
  rfl

theorem read_hasExtent_of_guarded {l : Lexeme} {make : Expr → Statement}
    (h : ∀ ts, read stop (l :: ts) = guarded stop make ts) (ts : List Lexeme) :
    HasExtent stop (read stop) (fun _ => True) (· = []) (l :: ts) := by
  refine .cons (g := guarded stop make) h (guarded_hasExtent stop make ts)
    ⟨[filler], fun after hafter => ?_⟩
  subst hafter
  exact ⟨_, trivial, guarded_filler stop make⟩

/-- The statement reader takes tokens that can be completed to a statement, and what it does depends
    on no token but these and the next one. -/
theorem read_hasExtent (ts : List Lexeme) :
    HasExtent stop (read stop) (fun _ => True) (· = []) ts := by
  cases ts with
  | nil => exact .fail_nil rfl (.inl rfl)
  | cons l rest =>
    obtain ⟨token, location⟩ := l
    cases token with
    | keyword k =>
      cases k with
      | set =>
        refine .cons (g := assignment stop) (fun _ => rfl) (assignment_hasExtent stop rest)
          ⟨[nameFiller, assignFiller, filler], fun after hafter => ?_⟩
        subst hafter
        refine ⟨.set "x" (.literal (.number 0)), trivial, ?_⟩
        rw [assignment_eq]
        exact assigned_filler stop "x"
      | run =>
        refine .cons (g := .map .run (name stop .run)) (fun _ => rfl)
          (((name_hasExtent stop .run rest).mono fun _ _ => trivial).map fun _ _ => trivial)
          ⟨[nameFiller], fun after _ => ⟨.run "x", trivial, rfl⟩⟩
      | if_ => exact read_hasExtent_of_guarded stop (fun _ => rfl) rest
      | elseIf => exact read_hasExtent_of_guarded stop (fun _ => rfl) rest
      | while_ => exact read_hasExtent_of_guarded stop (fun _ => rfl) rest
      | return_ => exact .token (fun _ => rfl) trivial
      | else_ => exact .token (fun _ => rfl) trivial
      | endIf => exact .token (fun _ => rfl) trivial
      | endWhile => exact .token (fun _ => rfl) trivial
    | _ => exact .fail_cons (fun _ => rfl) (.inl rfl)

theorem startsStatement_nil : StartsStatement [] :=
  ⟨[.keyword .return_], .return_, rfl⟩

/-- Tokens that are no statement go wrong where the statement reader stops: there it fails, or there
    the statement that it reads ends. -/
theorem exists_offence {ts : List Lexeme} (h : ∀ s, read stop ts ≠ .ok (s, [])) :
    ∃ used rest, ts = used ++ rest
      ∧ Offends (used.map Lexeme.token) (rest.head?.map Lexeme.token)
      ∧ (∀ e, read stop ts = .error e → e.IsAt (peek stop rest))
      ∧ ∀ s left, read stop ts = .ok (s, left) → left = rest := by
  obtain ⟨used, rest, rfl, hstops, hcompletes⟩ := read_hasExtent stop ts
  have hstarts : StartsStatement (used.map Lexeme.token) := by
    by_cases hne : used = []
    · rw [hne]
      exact startsStatement_nil
    · obtain ⟨more, hmore⟩ := hcompletes hne
      obtain ⟨s, -, hs⟩ := hmore [] rfl
      refine ⟨more.map Lexeme.token, ?_⟩
      rw [← List.map_append, formsStatement_iff stop]
      rw [List.append_nil] at hs
      exact ⟨s, hs⟩
  -- whatever stands behind the next token, the line is no statement
  have hnever : ∀ rest', rest' ≠ [] → rest'.head? = rest.head? →
      ¬ FormsStatement ((used ++ rest').map Lexeme.token) := by
    intro rest' hne hhead hforms
    obtain ⟨s, hs⟩ := (formsStatement_iff stop).1 hforms
    cases hstops with
    | reads a hreads =>
      rw [hreads rest' hhead] at hs
      cases hs
      exact hne rfl
    | fails e hat hfails =>
      rw [hfails rest' hhead] at hs
      cases hs
  refine ⟨used, rest, rfl, ?_, ?_⟩
  · cases rest with
    | nil =>
      refine .ending hstarts fun hforms => ?_
      obtain ⟨s, hs⟩ := (formsStatement_iff stop).1 hforms
      rw [List.append_nil] at h
      exact h s hs
    | cons l others =>
      refine .token hstarts ?_
      rintro ⟨more, hmore⟩
      refine hnever (l :: more.map fun t => ⟨t, ⟨1, 1⟩⟩) (List.cons_ne_nil _ _) rfl ?_
      simpa [Function.comp_def] using hmore
  · cases hstops with
    | reads a hreads =>
      rw [hreads rest rfl]
      exact ⟨fun e he => (by cases he), fun s left hs => (by cases hs; rfl)⟩
    | fails e hat hfails =>
      rw [hfails rest rfl]
      exact ⟨fun e' he' => (by cases he'; exact hat), fun s left hs => (by cases hs)⟩

/-! ## Keywords -/

theorem keyword_of_map {α : Type} {f : Reader α} {make : α → Statement} {k : Keyword}
    (hmake : ∀ a, (make a).keyword = k) {ts rest : List Lexeme} {s : Statement}
    (h : Reader.map make f ts = .ok (s, rest)) : s.keyword = k := by
  rw [Reader.map] at h
  cases hf : f ts with
  | error e =>
    rw [hf] at h
    cases h
  | ok p =>
    rw [hf] at h
    cases h
    exact hmake p.1

theorem keyword_of_assignment {ts rest : List Lexeme} {s : Statement}
    (h : assignment stop ts = .ok (s, rest)) : s.keyword = .set := by
  rw [assignment_eq, Reader.andThen] at h
  cases hname : name stop .set ts with
  | error e =>
    rw [hname] at h
    cases h
  | ok p =>
    rw [hname] at h
    dsimp only at h
    unfold assigned at h
    split at h
    · refine keyword_of_map ?_ h
      exact fun _ => rfl
    · cases h

/-- A statement starts with its keyword. -/
theorem exists_keyword {ts rest : List Lexeme} {s : Statement}
    (h : read stop ts = .ok (s, rest)) :
    ∃ location others, ts = ⟨.keyword s.keyword, location⟩ :: others := by
  cases ts with
  | nil => cases h
  | cons l others =>
    obtain ⟨token, location⟩ := l
    cases token with
    | keyword k =>
      refine ⟨location, others, ?_⟩
      cases k with
      | set => rw [keyword_of_assignment stop h]
      | run => rw [keyword_of_map (k := .run) (fun _ => rfl) h]
      | if_ => rw [keyword_of_map (k := .if_) (fun _ => rfl) h]
      | elseIf => rw [keyword_of_map (k := .elseIf) (fun _ => rfl) h]
      | while_ => rw [keyword_of_map (k := .while_) (fun _ => rfl) h]
      | _ => cases h; rfl
    | _ => cases h

end Statement

/-- A line is refused at the place where it goes wrong as a statement, or because its statement
    does not fit the blocks that are open. -/
theorem CodeBuilder.addLexed_error {b : CodeBuilder} {location : Location} {text : String}
    {line : LexedLine} {e : SyntaxError} (h : b.addLexed location text line = .error e) :
    (∃ used rest, line.lexemes = used ++ rest
      ∧ Offends (used.map Lexeme.token) (rest.head?.map Lexeme.token)
      ∧ e.IsAt (Parser.peek line.stop rest))
    ∨ ∃ s rest, Statement.read line.stop line.lexemes = .ok (s, rest)
      ∧ b.add location text s = .error e := by
  rw [addLexed] at h
  cases hread : Statement.read line.stop line.lexemes with
  | error e' =>
    rw [hread] at h
    cases h
    obtain ⟨used, rest, hsplit, hoffends, hat, -⟩ :=
      Statement.exists_offence line.stop fun s hs => (by rw [hread] at hs; cases hs)
    exact .inl ⟨used, rest, hsplit, hoffends, hat e hread⟩
  | ok p =>
    obtain ⟨s, left⟩ := p
    rw [hread] at h
    dsimp only at h
    cases hadd : b.add location text s with
    | error e' =>
      rw [hadd] at h
      cases h
      exact .inr ⟨s, left, rfl, hadd⟩
    | ok b' =>
      rw [hadd] at h
      cases left with
      | nil => cases h
      | cons l others =>
        cases h
        obtain ⟨used, rest, hsplit, hoffends, -, hleft⟩ :=
          Statement.exists_offence line.stop fun s hs => (by rw [hread] at hs; cases hs)
        obtain rfl := hleft s _ hread
        exact .inl ⟨used, _, hsplit, hoffends, rfl, .inl rfl⟩

end Erl
