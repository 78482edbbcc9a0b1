/-
  Erl.Proofs.Expr.Progress

  Reading an expression makes progress.

  From every position of a line a walk follows the reader: it does with the tokens at the position
  what the reader does with them.  The reader leaves fewer tokens than it was given, so the walk
  goes forward, and what it leaves are the last of these tokens, so the walk stays on the line.
-/

import Erl.Proofs.Expr.Arity
import Erl.Proofs.Expr.Cursor
import Erl.Proofs.Expr.Lookahead

namespace Erl

/-- Every function takes an argument. -/
theorem Builtin.least_pos (f : Builtin) : 0 < f.arity.least := by
  cases f with
  | math f => cases f <;> decide
  | air f => cases f <;> decide
  | message f => cases f <;> decide
  | trend f => cases f <;> decide
  | curveValue => decide

namespace Parser

namespace Cursor

variable {α β : Type}

/-! ## Walks that follow a reader -/

/-- From a position on a line a walk does what a reader does with the tokens there: it finds the
    same value, at the position of the tokens that the reader leaves, or the same error.  It moves
    neither back nor behind the end of the line. -/
inductive Follows (line : LexedLine) (c : Cursor α) (f : Reader α) (p : Nat) : Prop where
  | reads (a : α) (q : Nat) (hge : p ≤ q) (hle : q ≤ line.lexemes.length)
      (hwalk : c.walk p = some (.ok a, q))
      (hread : f (line.lexemes.drop p) = .ok (a, line.lexemes.drop q))
  | fails (e : SyntaxError) (q : Nat) (hge : p ≤ q) (hle : q ≤ line.lexemes.length)
      (hwalk : c.walk p = some (.error e, q)) (hread : f (line.lexemes.drop p) = .error e)

section Following

variable {line : LexedLine} {p q : Nat}

theorem getElem?_withEnd (hp : p ≤ line.lexemes.length) :
    line.withEnd[p]? = some (Parser.peek line.stop (line.lexemes.drop p)) := by
  unfold LexedLine.withEnd
  rcases Nat.lt_or_eq_of_le hp with hlt | rfl
  · rw [List.getElem?_append_left hlt, List.getElem?_eq_getElem hlt, List.drop_eq_getElem_cons hlt]
    rfl
  · rw [List.getElem?_append_right (Nat.le_refl _), Nat.sub_self, List.drop_length]
    rfl

theorem drop_succ_of_cons {l : Lexeme} {rest : List Lexeme}
    (h : line.lexemes.drop p = l :: rest) :
    p < line.lexemes.length ∧ line.lexemes.drop (p + 1) = rest := by
  constructor
  · refine Nat.lt_of_not_le fun hge => ?_
    rw [List.drop_eq_nil_of_le hge] at h
    cases h
  · rw [← List.tail_drop, h, List.tail_cons]

/-- A position with fewer tokens left is further on. -/
theorem lt_of_drop_shorter
    (h : (line.lexemes.drop q).length < (line.lexemes.drop p).length) : p < q := by
  rw [List.length_drop, List.length_drop] at h
  omega

variable {f g : Reader α}

theorem Follows.congr {c : Cursor α} (h : f (line.lexemes.drop p) = g (line.lexemes.drop p))
    (hg : Follows line c g p) : Follows line c f p := by
  cases hg with
  | reads a q hge hle hwalk hread => exact .reads a q hge hle hwalk (h.trans hread)
  | fails e q hge hle hwalk hread => exact .fails e q hge hle hwalk (h.trans hread)

/-- A walk that goes on after it has found a value. -/
theorem Follows.step {c : Cursor β} {k : β → Cursor α} {b : β} (hge : p ≤ q)
    (hwalk : c.walk p = some (.ok b, q))
    (hread : f (line.lexemes.drop p) = g (line.lexemes.drop q)) (h : Follows line (k b) g q) :
    Follows line (c >>= k) f p := by
  cases h with
  | reads a q' hge' hle hwalk' hread' =>
    exact .reads a q' (Nat.le_trans hge hge') hle ((walk_bind_ok hwalk).trans hwalk')
      (hread.trans hread')
  | fails e q' hge' hle hwalk' hread' =>
    exact .fails e q' (Nat.le_trans hge hge') hle ((walk_bind_ok hwalk).trans hwalk')
      (hread.trans hread')

/-- One walk after the other, and one reader after the other. -/
theorem Follows.bind {c : Cursor α} {k : α → Cursor β} {next : α → Reader β}
    (h : Follows line c f p)
    (hk : ∀ a q, q ≤ line.lexemes.length → f (line.lexemes.drop p) = .ok (a, line.lexemes.drop q) →
      Follows line (k a) (next a) q) :
    Follows line (c >>= k) (f.andThen next) p := by
  cases h with
  | reads a q hge hle hwalk hread =>
    refine .step hge hwalk ?_ (hk a q hle hread)
    rw [Reader.andThen, hread]
  | fails e q hge hle hwalk hread =>
    refine .fails e q hge hle (walk_bind_error hwalk) ?_
    rw [Reader.andThen, hread]

theorem Follows.map {c : Cursor α} {h : α → β} (hc : Follows line c f p) :
    Follows line (c >>= fun a => pure (h a)) (f.map h) p := by
  cases hc with
  | reads a q hge hle hwalk hread =>
    refine .reads (h a) q hge hle (walk_bind_ok hwalk) ?_
    rw [Reader.map, hread]
    rfl
  | fails e q hge hle hwalk hread =>
    refine .fails e q hge hle (walk_bind_error hwalk) ?_
    rw [Reader.map, hread]
    rfl

/-- A walk that takes the next token. -/
theorem Follows.take {k : Cursor α} {l : Lexeme} {rest : List Lexeme}
    (hdrop : line.lexemes.drop p = l :: rest) (hl : l.token ≠ .endOfLine)
    (hread : ∀ ts, f (l :: ts) = g ts) (h : Follows line k g (p + 1)) :
    Follows line (advance line.withEnd >>= fun _ => k) f p := by
  obtain ⟨hlt, hrest⟩ := drop_succ_of_cons hdrop
  have htoken := getElem?_withEnd (Nat.le_of_lt hlt)
  rw [hdrop] at htoken
  refine .step (Nat.le_succ p) (walk_advance htoken hl) ?_ h
  rw [hdrop, hrest, hread]

variable (hp : p ≤ line.lexemes.length)
include hp

theorem Follows.leave {a : α} (hread : f (line.lexemes.drop p) = .ok (a, line.lexemes.drop p)) :
    Follows line (pure a) f p :=
  .reads a p (Nat.le_refl p) hp rfl hread

theorem Follows.fail {fault : Token → SyntaxFault}
    (hread : f (line.lexemes.drop p) = Parser.fail line.stop (line.lexemes.drop p) fault) :
    Follows line (Cursor.fail line.withEnd fault) f p :=
  .fails _ p (Nat.le_refl p) hp (walk_fail (getElem?_withEnd hp) fault) hread

/-- A walk that looks at the next token. -/
theorem Follows.peek {k : Lexeme → Cursor α}
    (h : Follows line (k (Parser.peek line.stop (line.lexemes.drop p))) f p) :
    Follows line (Cursor.peek line.withEnd >>= k) f p :=
  .step (Nat.le_refl p) (walk_peek (getElem?_withEnd hp)) rfl h

end Following

/-- A walk that takes the next token and has its value. -/
theorem Follows.token {line : LexedLine} {f : Reader α} {p : Nat} {l : Lexeme} {rest : List Lexeme}
    {a : α} (hdrop : line.lexemes.drop p = l :: rest) (hl : l.token ≠ .endOfLine)
    (hread : ∀ ts, f (l :: ts) = .ok (a, ts)) :
    Follows line (advance line.withEnd >>= fun _ => pure a) f p :=
  .take hdrop hl hread (.leave (drop_succ_of_cons hdrop).1 rfl)

/-! ## The walks, one by one -/

/-- Reads the arguments of a function as a call. -/
def callReader (stop : Location) (f : Builtin) (location : Location) : Reader Expr :=
  Reader.andThen
    (fun ts => view (Parser.arguments stop (negatesArgument f.arity) f.arity.most ts))
    (calling stop f location)

variable (line : LexedLine) {p : Nat}

theorem closing_follows (e : Expr) (hp : p ≤ line.lexemes.length) :
    Follows line
      (do
        if (← peek line.withEnd).token = .rightParen then
          advance line.withEnd
          return e
        else fail line.withEnd .unclosedParen)
      (closing line.stop e) p := by
  refine .peek hp ?_
  cases hdrop : line.lexemes.drop p with
  | nil =>
    refine .fail hp ?_
    rw [hdrop, closing]
  | cons next rest =>
    rw [Parser.peek]
    by_cases hparen : next.token = .rightParen
    · rw [if_pos hparen]
      refine .token hdrop (by simp [hparen]) fun ts => ?_
      rw [closing, if_pos hparen]
    · rw [if_neg hparen]
      refine .fail hp ?_
      rw [hdrop, closing, if_neg hparen]

theorem calling_follows (f : Builtin) (location : Location) (args : List Expr)
    (hp : p ≤ line.lexemes.length) :
    Follows line
      (if args.length < f.arity.least then
        fail line.withEnd fun _ => .tooFewArguments f args.length
      else return .call f args location)
      (calling line.stop f location args) p := by
  by_cases hleast : args.length < f.arity.least
  · rw [if_pos hleast]
    refine .fail hp ?_
    rw [calling, if_pos hleast]
  · rw [if_neg hleast]
    refine .leave hp ?_
    rw [calling, if_neg hleast]

theorem canStartArgument_peek (stop : Location) (negation : Bool) (ts : List Lexeme) :
    canStartArgument negation [Parser.peek stop ts]
      = canStartArgument negation ts := by
  cases ts <;> rfl

/-- With calls open up to a depth, the walks follow their readers from every position for which the
    depth is enough.  Before a token is taken at most four functions call each other, so four open
    calls for each token from the position on are enough. -/
structure AllFollow (line : LexedLine) (depth : Nat) : Prop where
  chain : ∀ (limit : Nat) {p : Nat}, p ≤ line.lexemes.length →
    4 * (line.lexemes.length - p) + 2 < depth →
    Follows line (Cursor.chain line.withEnd depth limit)
      (fun ts => view (Parser.chain line.stop limit ts)) p
  climb : ∀ (limit : Nat) (left : Expr) {p : Nat}, p ≤ line.lexemes.length →
    4 * (line.lexemes.length - p) < depth →
    Follows line (Cursor.climb line.withEnd depth limit left)
      (fun ts => view (Parser.climb line.stop limit left ts)) p
  operand : ∀ {p : Nat}, p ≤ line.lexemes.length →
    4 * (line.lexemes.length - p) + 1 < depth →
    Follows line (Cursor.operand line.withEnd depth)
      (fun ts => view (Parser.operand line.stop ts)) p
  primary : ∀ {p : Nat}, p ≤ line.lexemes.length →
    4 * (line.lexemes.length - p) < depth →
    Follows line (Cursor.primary line.withEnd depth)
      (fun ts => view (Parser.primary line.stop ts)) p
  call : ∀ (f : Builtin) (location : Location) {p : Nat}, p ≤ line.lexemes.length →
    4 * (line.lexemes.length - p) + 3 < depth →
    Follows line (Cursor.call line.withEnd depth f location) (callReader line.stop f location) p
  arguments : ∀ (negation : Bool) (room : Nat) {p : Nat}, p ≤ line.lexemes.length →
    4 * (line.lexemes.length - p) + 2 < depth →
    Follows line (Cursor.arguments line.withEnd depth negation room)
      (fun ts => view (Parser.arguments line.stop negation room ts)) p

-- One call more.  Where a walk goes on after an operand, the operand has taken a token: the reader
-- that it follows leaves fewer.

section OneCallMore

variable {line} {depth : Nat} (ih : AllFollow line depth)
include ih

theorem chain_follows (limit : Nat) (hp : p ≤ line.lexemes.length)
    (hdepth : 4 * (line.lexemes.length - p) + 2 < depth + 1) :
    Follows line (chain line.withEnd (depth + 1) limit)
      (fun ts => view (Parser.chain line.stop limit ts)) p := by
  rw [chain]
  refine .congr (view_chain line.stop limit _) ?_
  refine (ih.operand hp (by omega)).bind fun left q hq hleft => ?_
  have hlt : p < q := lt_of_drop_shorter (shorter_of_view hleft)
  exact ih.climb limit left hq (by omega)

theorem climb_follows (limit : Nat) (left : Expr)
    (hp : p ≤ line.lexemes.length) (hdepth : 4 * (line.lexemes.length - p) < depth + 1) :
    Follows line (climb line.withEnd (depth + 1) limit left)
      (fun ts => view (Parser.climb line.stop limit left ts)) p := by
  rw [climb]
  refine .peek hp ?_
  by_cases hop : ∃ op location rest,
      line.lexemes.drop p = ⟨.operator op, location⟩ :: rest ∧ op.precedence ≤ limit
  · obtain ⟨op, location, rest, hdrop, hop⟩ := hop
    have hnext : p + 1 ≤ line.lexemes.length := (drop_succ_of_cons hdrop).1
    rw [hdrop]
    dsimp only [Parser.peek]
    rw [if_pos hop]
    refine .take hdrop Token.noConfusion (view_climb line.stop hop left location) ?_
    refine .step (Nat.le_refl _) (walk_tighter op _) rfl ?_
    refine (ih.chain (op.precedence - 1) hnext (by omega)).bind fun right q hq hright => ?_
    have hlt : p + 1 < q := lt_of_drop_shorter (shorter_of_view hright)
    exact ih.climb limit (.binary op left right) hq (by omega)
  · have hends : EndsChain limit (line.lexemes.drop p) := fun op location rest hdrop =>
      Nat.lt_of_not_le fun hle => hop ⟨op, location, rest, hdrop, hle⟩
    have hleave : Follows line (pure left)
        (fun ts => view (Parser.climb line.stop limit left ts)) p :=
      .leave hp (view_eq_ok_iff.2 (climb_stops hends))
    cases hdrop : line.lexemes.drop p with
    | nil => exact hleave
    | cons l rest =>
      obtain ⟨token, location⟩ := l
      cases token with
      | operator op =>
        dsimp only [Parser.peek]
        rw [if_neg (Nat.not_le_of_lt (hends op location rest hdrop))]
        exact hleave
      | _ => exact hleave

theorem operand_follows (hp : p ≤ line.lexemes.length)
    (hdepth : 4 * (line.lexemes.length - p) + 1 < depth + 1) :
    Follows line (operand line.withEnd (depth + 1))
      (fun ts => view (Parser.operand line.stop ts)) p := by
  rw [operand]
  refine .peek hp ?_
  split
  · next htoken =>
    cases hdrop : line.lexemes.drop p with
    | nil =>
      rw [hdrop] at htoken
      cases htoken
    | cons l rest =>
      obtain ⟨token, location⟩ := l
      rw [hdrop] at htoken
      cases htoken
      have hnext : p + 1 ≤ line.lexemes.length := (drop_succ_of_cons hdrop).1
      exact .take hdrop Token.noConfusion (view_operand_minus line.stop location)
        (ih.operand hnext (by omega)).map
  · next hother =>
    refine .congr ?_ (ih.primary hp (by omega))
    rw [operand_eq_primary fun location rest hdrop => ?_]
    exact hother (by rw [hdrop]; rfl)

theorem primary_follows (hp : p ≤ line.lexemes.length)
    (hdepth : 4 * (line.lexemes.length - p) < depth + 1) :
    Follows line (primary line.withEnd (depth + 1))
      (fun ts => view (Parser.primary line.stop ts)) p := by
  rw [primary]
  refine .peek hp ?_
  cases hdrop : line.lexemes.drop p with
  | nil =>
    refine .fail hp ?_
    rw [hdrop]
    unfold Parser.primary
    rfl
  | cons l rest =>
    obtain ⟨token, location⟩ := l
    have hnext : p + 1 ≤ line.lexemes.length := (drop_succ_of_cons hdrop).1
    cases token with
    | number x =>
      exact .token hdrop Token.noConfusion fun ts =>
        view_eq_ok_iff.2 (primary_reads_number x location)
    | text s =>
      exact .token hdrop Token.noConfusion fun ts =>
        view_eq_ok_iff.2 (primary_reads_text s location)
    | name s =>
      exact .token hdrop Token.noConfusion fun ts =>
        view_eq_ok_iff.2 (primary_reads_name s location)
    | leftParen =>
      refine .take hdrop Token.noConfusion (view_primary_paren line.stop location) ?_
      exact (ih.chain BinaryOp.or.precedence hnext (by omega)).bind fun e q hq _ =>
        closing_follows line e hq
    | function s =>
      cases hf : Builtin.find? s with
      | none =>
        -- the name of the function is behind the position when it turns out to be unknown
        have hread : ∀ ts, view (Parser.primary line.stop (⟨.function s, location⟩ :: ts))
            = .error ⟨.unknownFunction s, location⟩ := by
          intro ts
          rw [Parser.primary, hf]
          rfl
        refine .take hdrop Token.noConfusion hread ?_
        rw [hf]
        exact .fails _ (p + 1) (Nat.le_refl _) hnext rfl rfl
      | some f =>
        refine .take hdrop Token.noConfusion (view_primary_function line.stop hf location) ?_
        rw [hf]
        exact ih.call f location hnext (by omega)
    | _ =>
      refine .fail hp ?_
      rw [hdrop]
      unfold Parser.primary
      rfl

theorem call_follows (f : Builtin) (location : Location)
    (hp : p ≤ line.lexemes.length) (hdepth : 4 * (line.lexemes.length - p) + 3 < depth + 1) :
    Follows line (call line.withEnd (depth + 1) f location)
      (callReader line.stop f location) p := by
  rw [call]
  exact (ih.arguments (negatesArgument f.arity) f.arity.most hp (by omega)).bind
    fun args q hq _ => calling_follows line f location args hq

theorem arguments_follows (negation : Bool) (room : Nat)
    (hp : p ≤ line.lexemes.length) (hdepth : 4 * (line.lexemes.length - p) + 2 < depth + 1) :
    Follows line (arguments line.withEnd (depth + 1) negation room)
      (fun ts => view (Parser.arguments line.stop negation room ts)) p := by
  cases room with
  | zero =>
    rw [arguments]
    exact .leave hp (view_eq_ok_iff.2 (arguments_reads_none (.inl rfl)))
  | succ room =>
    rw [arguments]
    refine .peek hp ?_
    rw [canStartArgument_peek]
    by_cases hstart : canStartArgument negation (line.lexemes.drop p) = true
    · rw [if_pos hstart]
      refine .congr (view_arguments_succ line.stop hstart room) ?_
      refine (ih.operand hp (by omega)).bind fun arg q hq harg => ?_
      have hlt : p < q := lt_of_drop_shorter (shorter_of_view harg)
      exact (ih.arguments negation room hq (by omega)).map
    · rw [if_neg hstart]
      refine .leave hp (view_eq_ok_iff.2 (arguments_reads_none (.inr ?_)))
      exact Bool.eq_false_iff.2 hstart

end OneCallMore

/-- The walks follow their readers. -/
theorem allFollow (depth : Nat) : AllFollow line depth := by
  induction depth with
  | zero => constructor <;> intros <;> omega
  | succ depth ih =>
    exact ⟨fun limit _ => chain_follows ih limit, fun limit left _ => climb_follows ih limit left,
      operand_follows ih, primary_follows ih, fun f location _ => call_follows ih f location,
      fun negation room _ => arguments_follows ih negation room⟩

/-! ## Calls -/

/-- Where arguments are read, tokens are taken. -/
theorem arguments_shorter {stop : Location} {negation : Bool} {room : Nat} {ts : List Lexeme}
    {r : Parsed (List Expr) (ts.length + 1)}
    (h : Parser.arguments stop negation room ts = .ok r) (hargs : r.value ≠ []) :
    r.rest.length < ts.length := by
  unfold Parser.arguments at h
  split at h
  · cases h
    exact absurd rfl hargs
  · split at h
    · split at h
      · cases h
      · next arg rest shorter harg =>
        split at h
        · cases h
        · next args rest' shorter' hrest =>
          cases h
          exact Nat.lt_of_lt_of_le shorter' (Nat.succ_le_of_lt shorter)
    · cases h
      exact absurd rfl hargs

/-- A call that was read has taken a token and fits the arity of its function. -/
theorem callReader_ok {stop : Location} {f : Builtin} {location : Location}
    {ts rest : List Lexeme} {e : Expr} (h : callReader stop f location ts = .ok (e, rest)) :
    rest.length < ts.length ∧ e.FitsArity := by
  unfold callReader Reader.andThen at h
  split at h
  · cases h
  · next r hview =>
    obtain ⟨args, rest'⟩ := r
    obtain ⟨hshort, hread⟩ := view_eq_ok_iff.1 hview
    obtain ⟨hall, hmost⟩ := arguments_fit stop _ _ ts hread
    unfold calling at h
    split at h
    · cases h
    · next hleast =>
      cases h
      have hpos := f.least_pos
      have hnonempty : args ≠ [] := by
        rintro rfl
        exact hleast hpos
      exact ⟨arguments_shorter hread hnonempty,
        .call (Arity.accepts_iff.2 ⟨Nat.le_of_not_lt hleast, hmost⟩) hall⟩

/-! ## Progress -/

/-- What a reader has read took a token, and fits the arities if all that it reads does. -/
theorem view_ok {f : (ts : List Lexeme) → Except SyntaxError (Parsed Expr ts.length)}
    (hfits : ∀ ts {r : Parsed Expr ts.length}, f ts = .ok r → r.value.FitsArity)
    {ts rest : List Lexeme} {e : Expr} (h : view (f ts) = .ok (e, rest)) :
    rest.length < ts.length ∧ e.FitsArity := by
  obtain ⟨hshorter, hread⟩ := view_eq_ok_iff.1 h
  exact ⟨hshorter, hfits ts hread⟩

/-- A walk makes progress from a position: it has a result, which is what a reader makes of the
    tokens there.  A depth of four open calls for each of these tokens, and four more, is enough.
    The position moves neither back nor behind the end of the line.  If an expression is found the
    position has moved, and every call in the expression fits the arity of its function. -/
inductive MakesProgress (line : LexedLine) (c : Nat → Cursor Expr) (f : Reader Expr) (p : Nat) :
    Prop where
  | reads (e : Expr) (q : Nat) (hlt : p < q) (hle : q ≤ line.lexemes.length)
      (hwalk : ∀ depth, 4 * (line.lexemes.length - p) + 4 ≤ depth →
        (c depth).walk p = some (.ok e, q))
      (hread : f (line.lexemes.drop p) = .ok (e, line.lexemes.drop q)) (hfits : e.FitsArity)
  | fails (e : SyntaxError) (q : Nat) (hge : p ≤ q) (hle : q ≤ line.lexemes.length)
      (hwalk : ∀ depth, 4 * (line.lexemes.length - p) + 4 ≤ depth →
        (c depth).walk p = some (.error e, q))
      (hread : f (line.lexemes.drop p) = .error e)

theorem Follows.makesProgress {line : LexedLine} {c : Nat → Cursor Expr} {f : Reader Expr}
    {p : Nat} (h : Follows line (c (4 * (line.lexemes.length - p) + 4)) f p)
    (hgrows : ∀ depth, Extends (c depth) (c (depth + 1)))
    (hf : ∀ {ts rest e}, f ts = .ok (e, rest) → rest.length < ts.length ∧ e.FitsArity) :
    MakesProgress line c f p := by
  cases h with
  | reads e q _ hle hwalk hread =>
    obtain ⟨hshorter, hfits⟩ := hf hread
    exact .reads e q (lt_of_drop_shorter hshorter) hle
      (fun _ hdepth => walk_of_le hgrows hdepth hwalk) hread hfits
  | fails e q hge hle hwalk hread =>
    exact .fails e q hge hle (fun _ hdepth => walk_of_le hgrows hdepth hwalk) hread

/-- Reading an expression makes progress and stays on the line.  From every position of a line, its
    end included, the walks for chains of operators, for operands, for operands without a sign and
    for calls have a result.  So they end; they never look behind the end of the line or step over
    it, and they never lower a precedence of zero.  The position does not move back, an expression
    takes at least one token, and every call in it has a number of arguments that its function
    takes.  The result is that of the reader on the tokens from the position on. -/
theorem reading_makes_progress (line : LexedLine) {p : Nat} (hp : p ≤ line.lexemes.length) :
    (∀ limit, MakesProgress line (fun depth => chain line.withEnd depth limit)
        (fun ts => view (Parser.chain line.stop limit ts)) p)
      ∧ MakesProgress line (operand line.withEnd)
          (fun ts => view (Parser.operand line.stop ts)) p
      ∧ MakesProgress line (primary line.withEnd)
          (fun ts => view (Parser.primary line.stop ts)) p
      ∧ (∀ f location, MakesProgress line (fun depth => call line.withEnd depth f location)
          (callReader line.stop f location) p)
      ∧ ∀ op : BinaryOp, 0 < op.precedence := by
  have hfollow := allFollow line (4 * (line.lexemes.length - p) + 4)
  have hgrows := allExtend line.withEnd
  refine ⟨fun limit => ?_, ?_, ?_, fun f location => ?_, fun op => ?_⟩
  · exact (hfollow.chain limit hp (by omega)).makesProgress (fun d => (hgrows d).chain limit)
      (view_ok (chain_fits line.stop limit))
  · exact (hfollow.operand hp (by omega)).makesProgress (fun d => (hgrows d).operand)
      (view_ok (operand_fits line.stop))
  · exact (hfollow.primary hp (by omega)).makesProgress (fun d => (hgrows d).primary)
      (view_ok (primary_fits line.stop))
  · exact (hfollow.call f location hp (Nat.lt_succ_self _)).makesProgress
      (fun d => (hgrows d).call f location) callReader_ok
  · cases op <;> decide

/-- A minus sign, a number and an opening parenthesis. -/
def unclosedLine : LexedLine :=
  ⟨[⟨.operator .subtract, ⟨1, 1⟩⟩, ⟨.number 2, ⟨1, 2⟩⟩, ⟨.leftParen, ⟨1, 4⟩⟩], ⟨1, 5⟩⟩

/-- The walk for an operand takes the first two tokens; at the end of the line there is none. -/
theorem reading_makes_progress_unclosedLine :
    (operand unclosedLine.withEnd 16).walk 0 = some (.ok (.negate (.literal (.number 2))), 2)
      ∧ ∃ e, (operand unclosedLine.withEnd 4).walk 3 = some (.error e, 3) := by
  constructor
  · have hreads : Reads (Parser.operand unclosedLine.stop unclosedLine.lexemes)
        (.negate (.literal (.number 2))) [⟨.leftParen, ⟨1, 4⟩⟩] :=
      operand_reads_minus (operand_reads_primary (fun _ _ h => by cases h)
        (primary_reads_number 2 _))
    obtain ⟨-, hoperand, -, -, -⟩ := reading_makes_progress unclosedLine (Nat.zero_le 3)
    cases hoperand with
    | reads e q hlt hle hwalk hread _ =>
      rw [List.drop_zero, view_eq_ok_iff.2 hreads] at hread
      obtain ⟨rfl, hleft⟩ := Prod.mk.inj (Except.ok.inj hread)
      have hlength : 1 = 3 - q := (congrArg List.length hleft).trans List.length_drop
      have hq : q = 2 := by omega
      rw [hq] at hwalk
      exact hwalk 16 (Nat.le_refl 16)
    | fails e q _ _ _ hread =>
      rw [List.drop_zero, view_eq_ok_iff.2 hreads] at hread
      cases hread
  · obtain ⟨-, hoperand, -, -, -⟩ := reading_makes_progress unclosedLine (Nat.le_refl 3)
    cases hoperand with
    | reads e q hlt hle _ _ _ => exact absurd hle (Nat.not_le_of_lt hlt)
    | fails e q hge hle hwalk _ =>
      have hq : q = 3 := Nat.le_antisymm hle hge
      rw [hq] at hwalk
      exact ⟨e, hwalk 4 (Nat.le_refl 4)⟩

end Cursor

end Parser

end Erl
