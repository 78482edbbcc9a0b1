/-
  Erl.Proofs.Code.Matching

  Block matching is exact.

  If each line of a text is a statement by itself, the text is a program exactly when the
  grammar of blocks generates its keywords, and every jump target is then the position of the
  partner that the grammar gives: the next arm of the same branch, the end of the branch, the
  other end of the loop.
-/

import Erl.Proofs.Code.Grammar
import Erl.Proofs.Code.Tree

namespace Erl

/-! ## Partners

Positions count from zero.  Between a keyword and its partner there is a whole body, so the
partner belongs to the same block. -/

/-- The body behind position `i` is followed by an arm, or by the end of the branch, at `j`. -/
def NextArm (ks : List Keyword) (i j : Nat) : Prop :=
  ∃ before opener body arm after, ks = before ++ opener :: (body ++ arm :: after)
    ∧ IsBlock body ∧ arm.IsArm ∧ i = before.length ∧ j = i + 1 + body.length

/-- The arms that start at position `i` end at `j`, with the end of the branch. -/
def LastArm (ks : List Keyword) (i j : Nat) : Prop :=
  ∃ before arms after, ks = before ++ (arms ++ after)
    ∧ IsArms arms ∧ i = before.length ∧ j + 1 = i + arms.length

/-- The loop at position `i` ends at `j`. -/
def LoopEnd (ks : List Keyword) (i j : Nat) : Prop :=
  ∃ before body after, ks = before ++ .while_ :: (body ++ .endWhile :: after)
    ∧ IsBlock body ∧ i = before.length ∧ j = i + 1 + body.length

theorem NextArm.unique {ks : List Keyword} {i j j' : Nat} (h : NextArm ks i j)
    (h' : NextArm ks i j') : j = j' := by
  obtain ⟨before, opener, body, arm, after, rfl, hbody, harm, rfl, rfl⟩ := h
  obtain ⟨before', opener', body', arm', after', hks, hbody', harm', hlen, rfl⟩ := h'
  obtain ⟨-, htail⟩ := List.append_inj hks hlen
  obtain ⟨-, hrest⟩ := List.cons.inj htail
  rw [hbody.eq_of_append hbody' (.inl harm) (.inl harm') hrest]

theorem LastArm.unique {ks : List Keyword} {i j j' : Nat} (h : LastArm ks i j)
    (h' : LastArm ks i j') : j = j' := by
  obtain ⟨before, arms, after, rfl, harms, rfl, hj⟩ := h
  obtain ⟨before', arms', after', hks, harms', hlen, hj'⟩ := h'
  obtain ⟨-, htail⟩ := List.append_inj hks hlen
  have heq : arms = arms' := harms.eq_of_append harms' htail
  rw [← heq] at hj'
  omega

theorem LoopEnd.unique {ks : List Keyword} {i j j' : Nat} (h : LoopEnd ks i j)
    (h' : LoopEnd ks i j') : j = j' := by
  obtain ⟨before, body, after, rfl, hbody, rfl, rfl⟩ := h
  obtain ⟨before', body', after', hks, hbody', hlen, rfl⟩ := h'
  obtain ⟨-, htail⟩ := List.append_inj hks hlen
  obtain ⟨-, hrest⟩ := List.cons.inj htail
  rw [hbody.eq_of_append hbody' Keyword.endsBody_endWhile Keyword.endsBody_endWhile hrest]

theorem LoopEnd.getElem?_start {ks : List Keyword} {i j : Nat} (h : LoopEnd ks i j) :
    ks[i]? = some .while_ := by
  obtain ⟨before, body, after, rfl, -, rfl, -⟩ := h
  simp

/-- The targets of an instruction are the partners of its line. -/
def Partners (ks : List Keyword) (i : Nat) : Instruction String Expr String → Prop
  | .if_ _ next => NextArm ks i next
  | .elseIf _ next stop => NextArm ks i next ∧ LastArm ks i stop
  | .else_ stop => LastArm ks i stop
  | .while_ _ stop => LoopEnd ks i stop
  | .endWhile start => LoopEnd ks start i
  | _ => True

/-! ## The targets of trees -/

/-- The keywords of a tree. -/
def Block.keywords (b : Block) : List Keyword := b.statements.map StatementLine.keyword

/-- The keywords of arms. -/
def Arms.keywords (arms : Arms) : List Keyword := arms.statements.map StatementLine.keyword

@[simp] theorem Block.length_keywords (b : Block) : b.keywords.length = b.size := by
  rw [keywords, List.length_map, length_statements]

@[simp] theorem Arms.length_keywords (arms : Arms) : arms.keywords.length = arms.size := by
  rw [keywords, List.length_map, length_statements]

@[simp] theorem Block.keywords_plain (mark : Mark) (s : Plain) (rest : Block) :
    (Block.plain mark s rest).keywords = s.statement.keyword :: rest.keywords := rfl

@[simp] theorem Block.keywords_branch (mark : Mark) (c : Expr) (body : Block) (arms : Arms)
    (rest : Block) : (Block.branch mark c body arms rest).keywords
      = .if_ :: (body.keywords ++ (arms.keywords ++ rest.keywords)) := by
  simp [keywords, Arms.keywords, StatementLine.keyword, Statement.keyword]

@[simp] theorem Block.keywords_loop (mark : Mark) (c : Expr) (body : Block) (close : Mark)
    (rest : Block) : (Block.loop mark c body close rest).keywords
      = .while_ :: (body.keywords ++ .endWhile :: rest.keywords) := by
  simp [keywords, StatementLine.keyword, Statement.keyword]

@[simp] theorem Arms.keywords_else (mark : Mark) (body : Block) (close : Mark) :
    (Arms.else_ mark body close).keywords = .else_ :: (body.keywords ++ [.endIf]) := by
  simp [keywords, Block.keywords, StatementLine.keyword, Statement.keyword]

@[simp] theorem Arms.keywords_elseIf (mark : Mark) (c : Expr) (body : Block) (more : Arms) :
    (Arms.elseIf mark c body more).keywords
      = .elseIf :: (body.keywords ++ more.keywords) := by
  simp [keywords, Block.keywords, StatementLine.keyword, Statement.keyword]

/-- A body that is followed by arms leads to the first of them. -/
theorem Block.nextArm {ks : List Keyword} {start : Nat} (body : Block) (opener : Keyword)
    (arms : Arms) (before after : List Keyword)
    (hks : ks = before ++ opener :: (body.keywords ++ (arms.keywords ++ after)))
    (hstart : start = before.length) : NextArm ks start (start + 1 + body.size) := by
  obtain ⟨k, rest, hcons, hk⟩ := arms.isArms.exists_cons
  refine ⟨before, opener, body.keywords, k, rest ++ after, ?_, body.isBlock, hk, hstart, ?_⟩
  · rw [hks, Arms.keywords, hcons, List.cons_append]
  · rw [length_keywords]

mutual

/-- In any surroundings, the targets of the code of a block are the partners of its lines. -/
theorem Block.code_partners (b : Block) {ks : List Keyword} {start : Nat}
    (before after : List Keyword) (hks : ks = before ++ (b.keywords ++ after))
    (hstart : start = before.length) :
    EachFrom (fun i l => Partners ks i l.instruction) start (b.code start) := by
  cases b with
  | done => exact .nil
  | plain mark s rest =>
    rw [Block.keywords_plain] at hks
    rw [Block.code, EachFrom.cons_iff]
    refine ⟨by cases s <;> trivial, ?_⟩
    exact rest.code_partners (before ++ [s.statement.keyword]) after (by simp [hks])
      (by simp [hstart])
  | branch mark c body arms rest =>
    rw [Block.keywords_branch] at hks
    rw [Block.code, EachFrom.cons_iff, EachFrom.append_iff, EachFrom.append_iff,
      Block.length_code, Arms.length_code]
    refine ⟨?_, ?_, ?_, ?_⟩
    · exact body.nextArm .if_ arms before (rest.keywords ++ after) (by simp [hks]) hstart
    · exact body.code_partners (before ++ [.if_]) (arms.keywords ++ (rest.keywords ++ after))
        (by simp [hks]) (by simp [hstart])
    · exact arms.code_partners (before ++ .if_ :: body.keywords) (rest.keywords ++ after)
        (by simp [hks]) (by simp [hstart]; omega)
    · exact rest.code_partners (before ++ .if_ :: (body.keywords ++ arms.keywords)) after
        (by simp [hks]) (by simp [hstart]; omega)
  | loop mark c body close rest =>
    rw [Block.keywords_loop] at hks
    have hloop : LoopEnd ks start (start + 1 + body.size) :=
      ⟨before, body.keywords, rest.keywords ++ after, by simp [hks], body.isBlock, hstart,
        by rw [Block.length_keywords]⟩
    rw [Block.code, EachFrom.cons_iff, EachFrom.append_iff, EachFrom.cons_iff,
      Block.length_code]
    refine ⟨hloop, ?_, hloop, ?_⟩
    · exact body.code_partners (before ++ [.while_]) (.endWhile :: (rest.keywords ++ after))
        (by simp [hks]) (by simp [hstart])
    · exact rest.code_partners (before ++ .while_ :: (body.keywords ++ [.endWhile])) after
        (by simp [hks]) (by simp [hstart]; omega)

theorem Arms.code_partners (arms : Arms) {ks : List Keyword} {start : Nat}
    (before after : List Keyword) (hks : ks = before ++ (arms.keywords ++ after))
    (hstart : start = before.length) :
    EachFrom (fun i l => Partners ks i l.instruction) start (arms.code start) := by
  have hlast : ∀ stop, stop + 1 = start + arms.size → LastArm ks start stop := by
    intro stop hstop
    exact ⟨before, arms.keywords, after, hks, arms.isArms, hstart,
      by rw [Arms.length_keywords, hstop]⟩
  cases arms with
  | endIf mark =>
    rw [Arms.code, EachFrom.cons_iff]
    exact ⟨trivial, .nil⟩
  | else_ mark body close =>
    rw [Arms.keywords_else] at hks
    rw [Arms.code, EachFrom.cons_iff, EachFrom.append_iff, EachFrom.cons_iff]
    refine ⟨hlast _ (by simp; omega), ?_, trivial, .nil⟩
    exact body.code_partners (before ++ [.else_]) (.endIf :: after) (by simp [hks])
      (by simp [hstart])
  | elseIf mark c body more =>
    rw [Arms.keywords_elseIf] at hks
    rw [Arms.code, EachFrom.cons_iff, EachFrom.append_iff, Block.length_code]
    refine ⟨⟨?_, hlast _ (by simp; omega)⟩, ?_, ?_⟩
    · exact body.nextArm .elseIf more before after (by simp [hks]) hstart
    · exact body.code_partners (before ++ [.elseIf]) (more.keywords ++ after) (by simp [hks])
        (by simp [hstart])
    · exact more.code_partners (before ++ .elseIf :: body.keywords) after (by simp [hks])
        (by simp [hstart]; omega)

end

theorem Block.partners (b : Block) {i : Nat} {l : SourceLine} (hl : (b.code 0)[i]? = some l) :
    Partners b.keywords i l.instruction := by
  have hks : b.keywords = [] ++ (b.keywords ++ []) := by simp
  have hpart : EachFrom (fun i l => Partners b.keywords i l.instruction) 0 (b.code 0) :=
    b.code_partners [] [] hks rfl
  simpa using hpart i l hl

/-! ## Programs -/

/-- The targets of the instruction at a position: each lies on the right side of it, and is
    the one position that can be its partner. -/
def Instruction.HasTargets (ks : List Keyword) (i : Nat) : Instruction String Expr String → Prop
  | .if_ _ next => i < next ∧ ∀ j, NextArm ks i j ↔ j = next
  | .elseIf _ next stop =>
    (i < next ∧ ∀ j, NextArm ks i j ↔ j = next) ∧ i < stop ∧ ∀ j, LastArm ks i j ↔ j = stop
  | .else_ stop => i < stop ∧ ∀ j, LastArm ks i j ↔ j = stop
  | .while_ _ stop => i < stop ∧ ∀ j, LoopEnd ks i j ↔ j = stop
  | .endWhile start => start < i ∧ ∀ j, LoopEnd ks j i ↔ j = start
  | _ => True

/-- A loop and the end of a loop point at each other. -/
theorem Block.code_paired (b : Block) (i j : Nat) :
    (∃ c, ((b.code 0)[i]?).map Line.instruction = some (.while_ c j)) ↔
      ((b.code 0)[j]?).map Line.instruction = some (.endWhile i) := by
  constructor
  · rintro ⟨c, hc⟩
    obtain ⟨l, hl, hi⟩ := Option.map_eq_some_iff.1 hc
    have hout : outlineAt? (b.code 0) i = some (.while_ () j) := by
      rw [outlineAt?, hl, Option.map_some, hi]
      rfl
    obtain ⟨-, hend⟩ := b.wellTargeted i _ hout
    obtain ⟨e, he, ho⟩ := Option.map_eq_some_iff.1 hend
    rw [he, Option.map_some]
    cases hk : e.instruction <;> simp_all [Instruction.outline]
  · intro hc
    obtain ⟨l, hl, hj⟩ := Option.map_eq_some_iff.1 hc
    have hout : outlineAt? (b.code 0) j = some (.endWhile i) := by
      rw [outlineAt?, hl, Option.map_some, hj]
      rfl
    obtain ⟨-, hstart⟩ := b.wellTargeted j _ hout
    obtain ⟨s, hs, ho⟩ := Option.map_eq_some_iff.1 hstart
    rw [hs, Option.map_some]
    cases hk : s.instruction <;> simp_all [Instruction.outline]

/-- The partner of the end of a loop is the start that its instruction names. -/
theorem Block.eq_start_of_loopEnd {b : Block} {i j start : Nat}
    (hend : ((b.code 0)[i]?).map Line.instruction = some (.endWhile start))
    (h : LoopEnd b.keywords j i) : j = start := by
  -- the line at `j` is a loop, whose own target can only be `i`
  have hwhile := h.getElem?_start
  rw [keywords, ← b.map_bare_code 0, List.map_map, List.getElem?_map] at hwhile
  obtain ⟨l, hl, hk⟩ := Option.map_eq_some_iff.1 hwhile
  obtain ⟨c, stop, hc⟩ : ∃ c stop, l.instruction = .while_ c stop := by
    cases hi : l.instruction <;>
      simp_all [Line.bare, StatementLine.keyword, Statement.keyword, Instruction.statement]
  have hpart := b.partners hl
  rw [hc] at hpart
  obtain rfl : stop = i := LoopEnd.unique hpart h
  have hpair := (b.code_paired j stop).1 ⟨c, by rw [hl, Option.map_some, hc]⟩
  rw [hend] at hpair
  simpa using hpair.symm

/-- The code of a tree has the targets that its keywords fix. -/
theorem Block.hasTargets (b : Block) {i : Nat} {l : SourceLine} (hl : (b.code 0)[i]? = some l) :
    l.instruction.HasTargets b.keywords i := by
  have hpart := b.partners hl
  have hjump := b.wellTargeted i l.instruction.outline (by rw [outlineAt?, hl]; rfl)
  cases hi : l.instruction with
  | if_ c next =>
    rw [hi] at hpart hjump
    exact ⟨hjump, fun j => ⟨fun hj => hj.unique hpart, fun hj => hj ▸ hpart⟩⟩
  | elseIf c next stop =>
    rw [hi] at hpart hjump
    exact ⟨⟨hjump.1, fun j => ⟨fun hj => hj.unique hpart.1, fun hj => hj ▸ hpart.1⟩⟩,
      hjump.2, fun j => ⟨fun hj => hj.unique hpart.2, fun hj => hj ▸ hpart.2⟩⟩
  | else_ stop =>
    rw [hi] at hpart hjump
    exact ⟨hjump, fun j => ⟨fun hj => hj.unique hpart, fun hj => hj ▸ hpart⟩⟩
  | while_ c stop =>
    rw [hi] at hpart hjump
    exact ⟨hjump.1, fun j => ⟨fun hj => hj.unique hpart, fun hj => hj ▸ hpart⟩⟩
  | endWhile start =>
    have hend : ((b.code 0)[i]?).map Line.instruction = some (.endWhile start) := by
      rw [hl, Option.map_some, hi]
    rw [hi] at hpart hjump
    exact ⟨hjump.1, fun j => ⟨eq_start_of_loopEnd hend, fun hj => hj ▸ hpart⟩⟩
  | set target value => trivial
  | run subroutine => trivial
  | return_ => trivial
  | endIf => trivial

/-- Block matching is exact: a text of statements is a program exactly when the grammar
    generates its keywords.  Its lines are then its statements, and every target is the
    partner that the keywords give. -/
theorem parseCode_matches_grammar {source : String} {ls : List StatementLine}
    (h : statementLines? source = some ls) :
    ((∃ lines, parseCode source = .ok lines) ↔ IsBlock (ls.map StatementLine.keyword))
      ∧ ∀ lines, parseCode source = .ok lines →
        lines.toList.map Line.bare = ls
          ∧ (∀ (i : Nat) (line : SourceLine), lines[i]? = some line →
              line.instruction.HasTargets (ls.map StatementLine.keyword) i)
          ∧ ∀ i j : Nat, (∃ c, (lines[i]?).map Line.instruction = some (.while_ c j)) ↔
              (lines[j]?).map Line.instruction = some (.endWhile i) := by
  refine ⟨?_, ?_⟩
  · rw [isBlock_map_keyword_iff]
    constructor
    · rintro ⟨lines, hlines⟩
      obtain ⟨b, htree, -⟩ := parseCode_eq_ok_iff.1 hlines
      exact ⟨b, Option.some.inj (h.symm.trans htree)⟩
    · rintro ⟨b, rfl⟩
      exact ⟨_, Block.IsTreeOf.parseCode h⟩
  · intro lines hlines
    obtain ⟨b, htree, rfl⟩ := parseCode_eq_ok_iff.1 hlines
    obtain rfl : ls = b.statements := Option.some.inj (h.symm.trans htree)
    refine ⟨b.map_bare_code 0, ?_, ?_⟩
    · intro i line hline
      exact b.hasTargets (by simpa using hline)
    · intro i j
      simpa using b.code_paired i j

/-- A program with a loop inside a branch that has all kinds of arms. -/
def nestedSource : String :=
  "IF a\n  WHILE b\n    SET c = d\n  ENDWHILE\n! comment\nELSEIF e\n  RETURN\n\nELSE\n  RUN s\nENDIF"

theorem parseCode_matches_grammar_nested :
    ∃ ls lines, statementLines? nestedSource = some ls
      ∧ ls.map StatementLine.keyword
        = [.if_, .while_, .set, .endWhile, .elseIf, .return_, .else_, .run, .endIf]
      ∧ parseCode nestedSource = .ok lines ∧ lines.toList.map Line.bare = ls
      ∧ ∀ (i : Nat) (line : SourceLine), lines[i]? = some line →
          line.instruction.HasTargets
            [.if_, .while_, .set, .endWhile, .elseIf, .return_, .else_, .run, .endIf] i := by
  have hkeys : (statementLines? nestedSource).map (List.map StatementLine.keyword)
      = some [.if_, .while_, .set, .endWhile, .elseIf, .return_, .else_, .run, .endIf] := by
    decide +kernel
  obtain ⟨ls, hls, hk⟩ := Option.map_eq_some_iff.1 hkeys
  obtain ⟨haccepts, hlines⟩ := parseCode_matches_grammar hls
  have hloop : IsBlock [.while_, .set, .endWhile] := .loop (.set .done) .done
  have harms : IsArms [.elseIf, .return_, .else_, .run, .endIf] :=
    .elseIf (.return_ .done) (.else_ (.run .done))
  rw [hk] at haccepts hlines
  obtain ⟨lines, hparse⟩ := haccepts.2 (.branch hloop harms .done)
  obtain ⟨hbare, htargets, -⟩ := hlines lines hparse
  exact ⟨ls, lines, hls, hk, hparse, hbare, htargets⟩

end Erl
