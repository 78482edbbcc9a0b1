/-
  Erl.Proofs.Code.Grammar

  The grammar of blocks, on keywords.

      block ::= (SET | RUN | RETURN | IF block arms | WHILE block ENDWHILE)*
      arms  ::= ENDIF | ELSE block ENDIF | ELSEIF block arms

  The lines of trees are exactly the lines whose keywords the grammar generates.  The grammar
  is unambiguous: where a body ends is fixed by where it starts, so the partner of a block
  keyword can be spoken of without a derivation at hand, and a text has at most one tree.
-/

import Erl.Proofs.Code.Target
import Erl.Proofs.Code.Tree

namespace Erl

mutual

/-- The keywords of statements one after another. -/
inductive IsBlock : List Keyword → Prop
  | done : IsBlock []
  | set {rest : List Keyword} : IsBlock rest → IsBlock (.set :: rest)
  | run {rest : List Keyword} : IsBlock rest → IsBlock (.run :: rest)
  | return_ {rest : List Keyword} : IsBlock rest → IsBlock (.return_ :: rest)
  | branch {body arms rest : List Keyword} :
      IsBlock body → IsArms arms → IsBlock rest → IsBlock (.if_ :: (body ++ (arms ++ rest)))
  | loop {body rest : List Keyword} :
      IsBlock body → IsBlock rest → IsBlock (.while_ :: (body ++ .endWhile :: rest))

/-- The keywords of what follows the first body of a branch. -/
inductive IsArms : List Keyword → Prop
  | endIf : IsArms [.endIf]
  | else_ {body : List Keyword} : IsBlock body → IsArms (.else_ :: (body ++ [.endIf]))
  | elseIf {body more : List Keyword} :
      IsBlock body → IsArms more → IsArms (.elseIf :: (body ++ more))

end

/-- Whether a keyword starts an arm or ends a branch. -/
def Keyword.IsArm (k : Keyword) : Prop :=
  k = .elseIf ∨ k = .else_ ∨ k = .endIf

/-- Whether a keyword can stand right behind the statements of a body. -/
def Keyword.EndsBody (k : Keyword) : Prop :=
  k.IsArm ∨ k = .endWhile

/-! ## Trees and keywords -/

mutual

/-- The grammar generates the keywords of a tree. -/
theorem Block.isBlock (b : Block) : IsBlock (b.statements.map StatementLine.keyword) := by
  cases b with
  | done => exact .done
  | plain mark s rest =>
    have hrest := rest.isBlock
    cases s with
    | set target value => exact .set hrest
    | run subroutine => exact .run hrest
    | return_ => exact .return_ hrest
  | branch mark c body arms rest =>
    have h := IsBlock.branch body.isBlock arms.isArms rest.isBlock
    simpa [StatementLine.keyword, Statement.keyword] using h
  | loop mark c body close rest =>
    have h := IsBlock.loop body.isBlock rest.isBlock
    simpa [StatementLine.keyword, Statement.keyword] using h

theorem Arms.isArms (arms : Arms) : IsArms (arms.statements.map StatementLine.keyword) := by
  cases arms with
  | endIf mark => exact .endIf
  | else_ mark body close =>
    have h := IsArms.else_ body.isBlock
    simpa [StatementLine.keyword, Statement.keyword] using h
  | elseIf mark c body more =>
    have h := IsArms.elseIf body.isBlock more.isArms
    simpa [StatementLine.keyword, Statement.keyword] using h

end

/-- The keywords of arms start with that of an arm. -/
theorem IsArms.exists_cons {ks : List Keyword} (h : IsArms ks) :
    ∃ k rest, ks = k :: rest ∧ k.IsArm := by
  cases h with
  | endIf => exact ⟨_, _, rfl, .inr (.inr rfl)⟩
  | else_ _ => exact ⟨_, _, rfl, .inr (.inl rfl)⟩
  | elseIf _ _ => exact ⟨_, _, rfl, .inl rfl⟩

/-- The statements that start with a keyword. -/
def Keyword.Form (s : Statement) : Keyword → Prop
  | .set => ∃ target value, s = .set target value
  | .run => ∃ subroutine, s = .run subroutine
  | .return_ => s = .return_
  | .if_ => ∃ c, s = .if_ c
  | .elseIf => ∃ c, s = .elseIf c
  | .else_ => s = .else_
  | .endIf => s = .endIf
  | .while_ => ∃ c, s = .while_ c
  | .endWhile => s = .endWhile

theorem Keyword.form_of_eq {k : Keyword} {l : StatementLine} (h : l.keyword = k) :
    k.Form l.statement := by
  subst h
  obtain ⟨mark, s⟩ := l
  cases s <;> simp [StatementLine.keyword, Statement.keyword, Form]

mutual

/-- Lines whose keywords the grammar generates are those of a tree. -/
theorem IsBlock.exists_tree : ∀ {ks : List Keyword}, IsBlock ks →
    ∀ ls : List StatementLine, ls.map StatementLine.keyword = ks →
      ∃ b : Block, ls = b.statements
  | _, .done, ls, hls => ⟨.done, by simpa using hls⟩
  | _, .set hrest, ls, hls => by
    obtain ⟨⟨mark, s⟩, ls', rfl, hl, hls'⟩ := List.map_eq_cons_iff.1 hls
    obtain ⟨target, value, rfl⟩ := Keyword.form_of_eq hl
    obtain ⟨rest, rfl⟩ := hrest.exists_tree ls' hls'
    exact ⟨.plain mark (.set target value) rest, rfl⟩
  | _, .run hrest, ls, hls => by
    obtain ⟨⟨mark, s⟩, ls', rfl, hl, hls'⟩ := List.map_eq_cons_iff.1 hls
    obtain ⟨subroutine, rfl⟩ := Keyword.form_of_eq hl
    obtain ⟨rest, rfl⟩ := hrest.exists_tree ls' hls'
    exact ⟨.plain mark (.run subroutine) rest, rfl⟩
  | _, .return_ hrest, ls, hls => by
    obtain ⟨⟨mark, s⟩, ls', rfl, hl, hls'⟩ := List.map_eq_cons_iff.1 hls
    obtain rfl : s = .return_ := Keyword.form_of_eq hl
    obtain ⟨rest, rfl⟩ := hrest.exists_tree ls' hls'
    exact ⟨.plain mark .return_ rest, rfl⟩
  | _, .branch hbody harms hrest, ls, hls => by
    obtain ⟨⟨mark, s⟩, ls', rfl, hl, hls'⟩ := List.map_eq_cons_iff.1 hls
    obtain ⟨bodyLines, ls'', rfl, hb, hls''⟩ := List.map_eq_append_iff.1 hls'
    obtain ⟨armLines, restLines, rfl, ha, hr⟩ := List.map_eq_append_iff.1 hls''
    obtain ⟨c, rfl⟩ := Keyword.form_of_eq hl
    obtain ⟨body, rfl⟩ := hbody.exists_tree bodyLines hb
    obtain ⟨arms, rfl⟩ := harms.exists_tree armLines ha
    obtain ⟨rest, rfl⟩ := hrest.exists_tree restLines hr
    exact ⟨.branch mark c body arms rest, rfl⟩
  | _, .loop hbody hrest, ls, hls => by
    obtain ⟨⟨mark, s⟩, ls', rfl, hl, hls'⟩ := List.map_eq_cons_iff.1 hls
    obtain ⟨bodyLines, ls'', rfl, hb, hls''⟩ := List.map_eq_append_iff.1 hls'
    obtain ⟨⟨close, e⟩, restLines, rfl, he, hr⟩ := List.map_eq_cons_iff.1 hls''
    obtain ⟨c, rfl⟩ := Keyword.form_of_eq hl
    obtain rfl : e = .endWhile := Keyword.form_of_eq he
    obtain ⟨body, rfl⟩ := hbody.exists_tree bodyLines hb
    obtain ⟨rest, rfl⟩ := hrest.exists_tree restLines hr
    exact ⟨.loop mark c body close rest, rfl⟩

theorem IsArms.exists_tree : ∀ {ks : List Keyword}, IsArms ks →
    ∀ ls : List StatementLine, ls.map StatementLine.keyword = ks →
      ∃ arms : Arms, ls = arms.statements
  | _, .endIf, ls, hls => by
    obtain ⟨⟨mark, s⟩, ls', rfl, hl, hls'⟩ := List.map_eq_cons_iff.1 hls
    obtain rfl : s = .endIf := Keyword.form_of_eq hl
    obtain rfl := List.map_eq_nil_iff.1 hls'
    exact ⟨.endIf mark, rfl⟩
  | _, .else_ hbody, ls, hls => by
    obtain ⟨⟨mark, s⟩, ls', rfl, hl, hls'⟩ := List.map_eq_cons_iff.1 hls
    obtain ⟨bodyLines, ls'', rfl, hb, hls''⟩ := List.map_eq_append_iff.1 hls'
    obtain ⟨⟨close, e⟩, none, rfl, he, hnone⟩ := List.map_eq_cons_iff.1 hls''
    obtain rfl : s = .else_ := Keyword.form_of_eq hl
    obtain rfl : e = .endIf := Keyword.form_of_eq he
    obtain rfl := List.map_eq_nil_iff.1 hnone
    obtain ⟨body, rfl⟩ := hbody.exists_tree bodyLines hb
    exact ⟨.else_ mark body close, rfl⟩
  | _, .elseIf hbody hmore, ls, hls => by
    obtain ⟨⟨mark, s⟩, ls', rfl, hl, hls'⟩ := List.map_eq_cons_iff.1 hls
    obtain ⟨bodyLines, moreLines, rfl, hb, hm⟩ := List.map_eq_append_iff.1 hls'
    obtain ⟨c, rfl⟩ := Keyword.form_of_eq hl
    obtain ⟨body, rfl⟩ := hbody.exists_tree bodyLines hb
    obtain ⟨more, rfl⟩ := hmore.exists_tree moreLines hm
    exact ⟨.elseIf mark c body more, rfl⟩

end

/-- The grammar generates the keywords of lines exactly when the lines have a tree. -/
theorem isBlock_map_keyword_iff {ls : List StatementLine} :
    IsBlock (ls.map StatementLine.keyword) ↔ ∃ b : Block, ls = b.statements :=
  ⟨fun h => h.exists_tree ls rfl, fun ⟨b, hb⟩ => hb ▸ b.isBlock⟩

/-! ## Unambiguity -/

theorem IsArms.exists_endsBody {ks : List Keyword} (h : IsArms ks) :
    ∃ k rest, ks = k :: rest ∧ k.EndsBody := by
  obtain ⟨k, rest, hks, hk⟩ := h.exists_cons
  exact ⟨k, rest, hks, .inl hk⟩

theorem Keyword.endsBody_endIf : Keyword.endIf.EndsBody := .inl (.inr (.inr rfl))

theorem Keyword.endsBody_endWhile : Keyword.endWhile.EndsBody := .inr rfl

/-- A keyword behind a body starts no statement. -/
theorem IsBlock.eq_nil_of_cons {k k' : Keyword} {v u' v' : List Keyword} (h : IsBlock u')
    (hk : k.EndsBody) (heq : k :: v = u' ++ k' :: v') : u' = [] := by
  cases h with
  | done => rfl
  | _ =>
    obtain ⟨rfl, -⟩ := List.cons.inj heq
    simp [Keyword.EndsBody, Keyword.IsArm] at hk

mutual

/-- Where a body ends is fixed by where it starts. -/
theorem IsBlock.eq_of_append : ∀ {u : List Keyword}, IsBlock u →
    ∀ {k k' : Keyword} {v u' v' : List Keyword}, IsBlock u' → k.EndsBody → k'.EndsBody →
      u ++ k :: v = u' ++ k' :: v' → u = u'
  | _, .done, k, k', v, u', v', h', hk, _, heq => (h'.eq_nil_of_cons hk heq).symm
  | _, .set hrest, k, k', v, u', v', h', hk, hk', heq => by
    cases h' with
    | done => exact absurd (IsBlock.set hrest |>.eq_nil_of_cons hk' heq.symm) (by simp)
    | set hrest' =>
      obtain ⟨-, htail⟩ := List.cons.inj heq
      rw [hrest.eq_of_append hrest' hk hk' htail]
    | _ => cases heq
  | _, .run hrest, k, k', v, u', v', h', hk, hk', heq => by
    cases h' with
    | done => exact absurd (IsBlock.run hrest |>.eq_nil_of_cons hk' heq.symm) (by simp)
    | run hrest' =>
      obtain ⟨-, htail⟩ := List.cons.inj heq
      rw [hrest.eq_of_append hrest' hk hk' htail]
    | _ => cases heq
  | _, .return_ hrest, k, k', v, u', v', h', hk, hk', heq => by
    cases h' with
    | done => exact absurd (IsBlock.return_ hrest |>.eq_nil_of_cons hk' heq.symm) (by simp)
    | return_ hrest' =>
      obtain ⟨-, htail⟩ := List.cons.inj heq
      rw [hrest.eq_of_append hrest' hk hk' htail]
    | _ => cases heq
  | _, .branch hbody harms hrest, k, k', v, u', v', h', hk, hk', heq => by
    cases h' with
    | done =>
      exact absurd (IsBlock.branch hbody harms hrest |>.eq_nil_of_cons hk' heq.symm) (by simp)
    | branch hbody' harms' hrest' =>
      obtain ⟨-, htail⟩ := List.cons.inj heq
      simp only [List.append_eq, List.append_assoc] at htail
      -- the bodies end before the first arm, the arms at their own end
      obtain ⟨a, as, hcons, ha⟩ := harms.exists_endsBody
      obtain ⟨a', as', hcons', ha'⟩ := harms'.exists_endsBody
      obtain rfl := hbody.eq_of_append hbody' ha ha'
        (by simpa [hcons, hcons'] using htail)
      have htail' := List.append_cancel_left htail
      obtain rfl := harms.eq_of_append harms' htail'
      rw [hrest.eq_of_append hrest' hk hk' (List.append_cancel_left htail')]
    | _ => cases heq
  | _, .loop hbody hrest, k, k', v, u', v', h', hk, hk', heq => by
    cases h' with
    | done => exact absurd (IsBlock.loop hbody hrest |>.eq_nil_of_cons hk' heq.symm) (by simp)
    | loop hbody' hrest' =>
      obtain ⟨-, htail⟩ := List.cons.inj heq
      simp only [List.append_eq, List.append_assoc, List.cons_append] at htail
      obtain rfl := hbody.eq_of_append hbody' Keyword.endsBody_endWhile
        Keyword.endsBody_endWhile htail
      obtain ⟨-, htail'⟩ := List.cons.inj (List.append_cancel_left htail)
      rw [hrest.eq_of_append hrest' hk hk' htail']
    | _ => cases heq

/-- Where arms end is fixed by where they start. -/
theorem IsArms.eq_of_append : ∀ {u : List Keyword}, IsArms u →
    ∀ {v u' v' : List Keyword}, IsArms u' → u ++ v = u' ++ v' → u = u'
  | _, .endIf, v, u', v', h', heq => by
    cases h' with
    | endIf => rfl
    | _ => cases heq
  | _, .else_ hbody, v, u', v', h', heq => by
    cases h' with
    | else_ hbody' =>
      obtain ⟨-, htail⟩ := List.cons.inj heq
      simp only [List.append_eq, List.append_assoc, List.cons_append] at htail
      rw [hbody.eq_of_append hbody' Keyword.endsBody_endIf Keyword.endsBody_endIf htail]
    | _ => cases heq
  | _, .elseIf hbody hmore, v, u', v', h', heq => by
    cases h' with
    | elseIf hbody' hmore' =>
      obtain ⟨-, htail⟩ := List.cons.inj heq
      simp only [List.append_eq, List.append_assoc] at htail
      obtain ⟨a, as, hcons, ha⟩ := hmore.exists_endsBody
      obtain ⟨a', as', hcons', ha'⟩ := hmore'.exists_endsBody
      obtain rfl := hbody.eq_of_append hbody' ha ha'
        (by simpa [hcons, hcons'] using htail)
      rw [hmore.eq_of_append hmore' (List.append_cancel_left htail)]
    | _ => cases heq

end

/-! ## One tree -/

/-- Arms start with a keyword that ends the body before them. -/
theorem Arms.exists_statements_cons (arms : Arms) :
    ∃ l ls, arms.statements = l :: ls ∧ l.keyword.EndsBody := by
  cases arms with
  | endIf mark => exact ⟨_, _, rfl, .inl (.inr (.inr rfl))⟩
  | else_ mark body close => exact ⟨_, _, rfl, .inl (.inr (.inl rfl))⟩
  | elseIf mark c body more => exact ⟨_, _, rfl, .inl (.inl rfl)⟩

/-- The lines of a body are fixed by what they stand in front of. -/
theorem Block.statements_eq_of_append {b b' : Block} {l l' : StatementLine}
    {ls ls' : List StatementLine} (h : b.statements ++ l :: ls = b'.statements ++ l' :: ls')
    (hl : l.keyword.EndsBody) (hl' : l'.keyword.EndsBody) :
    b.statements = b'.statements ∧ l :: ls = l' :: ls' := by
  have hkeys := congrArg (List.map StatementLine.keyword) h
  simp only [List.map_append, List.map_cons] at hkeys
  have hsame := b.isBlock.eq_of_append b'.isBlock hl hl' hkeys
  have hlength : b.statements.length = b'.statements.length := by
    simpa using congrArg List.length hsame
  exact List.append_inj h hlength

/-- The lines of arms are fixed by where they start. -/
theorem Arms.statements_eq_of_append {arms arms' : Arms} {ls ls' : List StatementLine}
    (h : arms.statements ++ ls = arms'.statements ++ ls') :
    arms.statements = arms'.statements ∧ ls = ls' := by
  have hkeys := congrArg (List.map StatementLine.keyword) h
  simp only [List.map_append] at hkeys
  have hsame := arms.isArms.eq_of_append arms'.isArms hkeys
  have hlength : arms.statements.length = arms'.statements.length := by
    simpa using congrArg List.length hsame
  exact List.append_inj h hlength

mutual

/-- A tree is fixed by its lines. -/
theorem Block.eq_of_statements_eq (b b' : Block) (h : b.statements = b'.statements) : b = b' := by
  cases b with
  | done =>
    cases b' with
    | done => rfl
    | _ => simp at h
  | plain mark s rest =>
    cases b' with
    | plain mark' s' rest' =>
      obtain ⟨hline, hrest⟩ := List.cons.inj h
      rw [rest.eq_of_statements_eq rest' hrest]
      cases s <;> cases s' <;> cases hline <;> rfl
    | done => simp at h
    | _ => cases s <;> simp [Plain.statement] at h
  | branch mark c body arms rest =>
    cases b' with
    | branch mark' c' body' arms' rest' =>
      obtain ⟨hline, htail⟩ := List.cons.inj h
      -- the arms show where the body ends, and end by themselves
      obtain ⟨l, ls, harms, hl⟩ := arms.exists_statements_cons
      obtain ⟨l', ls', harms', hl'⟩ := arms'.exists_statements_cons
      obtain ⟨hbody, htail'⟩ := Block.statements_eq_of_append
        (by simpa [harms, harms'] using htail) hl hl'
      have hends : arms.statements ++ rest.statements = arms'.statements ++ rest'.statements := by
        simpa [harms, harms'] using htail'
      obtain ⟨hsame, hrest⟩ := Arms.statements_eq_of_append hends
      rw [body.eq_of_statements_eq body' hbody, arms.eq_of_statements_eq arms' hsame,
        rest.eq_of_statements_eq rest' hrest]
      cases hline
      rfl
    | done => simp at h
    | plain mark' s rest' => cases s <;> simp [Plain.statement] at h
    | loop mark' c' body' close' rest' => simp at h
  | loop mark c body close rest =>
    cases b' with
    | loop mark' c' body' close' rest' =>
      obtain ⟨hline, htail⟩ := List.cons.inj h
      obtain ⟨hbody, htail'⟩ := Block.statements_eq_of_append htail Keyword.endsBody_endWhile
        Keyword.endsBody_endWhile
      obtain ⟨hclose, hrest⟩ := List.cons.inj htail'
      rw [body.eq_of_statements_eq body' hbody, rest.eq_of_statements_eq rest' hrest]
      cases hline
      cases hclose
      rfl
    | done => simp at h
    | plain mark' s rest' => cases s <;> simp [Plain.statement] at h
    | branch mark' c' body' arms' rest' => simp at h

theorem Arms.eq_of_statements_eq (arms arms' : Arms) (h : arms.statements = arms'.statements) :
    arms = arms' := by
  cases arms with
  | endIf mark =>
    cases arms' with
    | endIf mark' =>
      cases h
      rfl
    | _ => simp at h
  | else_ mark body close =>
    cases arms' with
    | else_ mark' body' close' =>
      obtain ⟨hline, htail⟩ := List.cons.inj h
      obtain ⟨hbody, htail'⟩ := Block.statements_eq_of_append htail Keyword.endsBody_endIf
        Keyword.endsBody_endIf
      rw [body.eq_of_statements_eq body' hbody]
      cases hline
      cases htail'
      rfl
    | _ => simp at h
  | elseIf mark c body more =>
    cases arms' with
    | elseIf mark' c' body' more' =>
      obtain ⟨hline, htail⟩ := List.cons.inj h
      obtain ⟨l, ls, hmore, hl⟩ := more.exists_statements_cons
      obtain ⟨l', ls', hmore', hl'⟩ := more'.exists_statements_cons
      obtain ⟨hbody, htail'⟩ := Block.statements_eq_of_append
        (by simpa [hmore, hmore'] using htail) hl hl'
      rw [← hmore, ← hmore'] at htail'
      rw [body.eq_of_statements_eq body' hbody, more.eq_of_statements_eq more' htail']
      cases hline
      rfl
    | _ => simp at h

end

/-- A text has at most one tree. -/
theorem Block.IsTreeOf.iff_eq {b b' : Block} {source : String} (h : b.IsTreeOf source) :
    b'.IsTreeOf source ↔ b' = b := by
  constructor
  · intro h'
    exact b'.eq_of_statements_eq b (Option.some.inj (h'.symm.trans h))
  · rintro rfl
    exact h

end Erl
