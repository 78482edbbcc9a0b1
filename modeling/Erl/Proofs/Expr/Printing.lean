/-
  Erl.Proofs.Expr.Printing

  Printing expressions.

  A printed expression has parentheses around every negation, every operator with its operands,
  every call and every argument of a call.  It is read back as what it was, apart from the places
  of its names and calls: each part ends at its own parenthesis, so no call takes what belongs to
  another one, whether it takes a fixed number of arguments or as many as there are.
-/

import Erl.Proofs.Expr.Arity

namespace Erl

/-! ## Printing -/

namespace Expr

/-- An expression without places. -/
def unplaced (e : Expr) : Expr :=
  e.map id fun _ => ⟨0, 0⟩

/-- A token list in parentheses. -/
def wrap (ts : List Token) : List Token :=
  .leftParen :: (ts ++ [.rightParen])

/-- Whether an expression is printed without parentheses. -/
def isPlain : Expr → Bool
  | literal _ => true
  | name _ _ => true
  | _ => false

mutual

/-- The tokens of an expression.  An argument of a call that is in parentheses by itself gets a
    second pair of them if `twice`. -/
def print (twice : Bool) : Expr → List Token
  | .literal (.number x) => [.number x]
  | .literal (.text s) => [.text s]
  | .literal .null => [.name "NULL"]
  | .name s _ => [.name s]
  | .negate e => wrap (.operator .subtract :: e.print twice)
  | .binary op a b => wrap (a.print twice ++ .operator op :: b.print twice)
  | .call f args _ => wrap (.function f.name :: printArguments twice args)

/-- The tokens of the arguments of a call, one after another. -/
def printArguments (twice : Bool) : List Expr → List Token
  | [] => []
  | a :: rest =>
    (if twice || a.isPlain then wrap (a.print twice) else a.print twice)
      ++ printArguments twice rest

end

/-- An expression that can be written: no name in it is that of a constant, and every call has a
    number of arguments that its function takes. -/
inductive Printable : Expr → Prop where
  | literal (l : Literal) : Printable (.literal l)
  | name {s : String} (location : Location) : Literal.named? s = none →
      Printable (.name s location)
  | negate {e : Expr} : Printable e → Printable (.negate e)
  | binary (op : BinaryOp) {a b : Expr} : Printable a → Printable b → Printable (.binary op a b)
  | call {f : Builtin} {args : List Expr} (location : Location) :
      f.arity.accepts args.length = true → (∀ a ∈ args, Printable a) →
        Printable (.call f args location)

end Expr

/-! ## Tokens with places -/

section Places

variable {ts : List Lexeme}

theorem exists_cons_of_map_token {t : Token} {tokens : List Token}
    (h : ts.map Lexeme.token = t :: tokens) :
    ∃ location rest, ts = ⟨t, location⟩ :: rest ∧ rest.map Lexeme.token = tokens := by
  obtain ⟨⟨t, location⟩, rest, rfl, rfl, hrest⟩ := List.map_eq_cons_iff.1 h
  exact ⟨location, rest, rfl, hrest⟩

theorem exists_wrap_of_map_token {tokens : List Token}
    (h : ts.map Lexeme.token = Expr.wrap tokens) :
    ∃ opening inner closing, ts = ⟨.leftParen, opening⟩ :: (inner ++ [⟨.rightParen, closing⟩])
      ∧ inner.map Lexeme.token = tokens := by
  obtain ⟨opening, after, rfl, hafter⟩ := exists_cons_of_map_token h
  obtain ⟨inner, last, rfl, hinner, hlast⟩ := List.map_eq_append_iff.1 hafter
  obtain ⟨closing, rest, rfl, hrest⟩ := exists_cons_of_map_token hlast
  obtain rfl := List.map_eq_nil_iff.1 hrest
  exact ⟨opening, inner, closing, rfl, hinner⟩

end Places

/-! ## Reading back -/

namespace Builtin

theorem mem_all (f : Builtin) : f ∈ all := by
  cases f with
  | math f => cases f <;> decide
  | air f => cases f <;> decide
  | message f => cases f <;> decide
  | trend f => cases f <;> decide
  | curveValue => decide

/-- A function is found by its own name. -/
theorem find?_name (f : Builtin) : find? f.name = some f := by
  have hall : ∀ f ∈ all, find? f.name = some f := by decide +kernel
  exact hall f f.mem_all

end Builtin

namespace Parser

variable {stop : Location} {twice : Bool}

/-- What is printed in parentheses is an operand, if it is read inside them. -/
theorem operand_reads_wrap {tokens : List Token} {e : Expr}
    (hin : ∀ inner : List Lexeme, inner.map Lexeme.token = tokens → ∀ (closing : Location)
      (rest : List Lexeme), ∃ e', Reads (chain stop BinaryOp.or.precedence
        (inner ++ ⟨.rightParen, closing⟩ :: rest)) e' (⟨.rightParen, closing⟩ :: rest)
        ∧ e'.unplaced = e.unplaced)
    {ts : List Lexeme} (hts : ts.map Lexeme.token = Expr.wrap tokens) (rest : List Lexeme) :
    ∃ e', Reads (operand stop (ts ++ rest)) e' rest ∧ e'.unplaced = e.unplaced := by
  obtain ⟨opening, inner, closing, rfl, hinner⟩ := exists_wrap_of_map_token hts
  obtain ⟨e', hreads, hsame⟩ := hin inner hinner closing rest
  refine ⟨e', operand_reads_primary (fun location others heq => by cases heq) ?_, hsame⟩
  show Reads (primary stop (⟨.leftParen, opening⟩ :: ((inner ++ [⟨.rightParen, closing⟩]) ++ rest)))
    e' rest
  rw [List.append_assoc]
  exact primary_reads_paren hreads

/-- An argument starts with a parenthesis. -/
theorem canStartArgument_print {a : Expr} {ts : List Lexeme}
    (hts : ts.map Lexeme.token
      = if twice || a.isPlain then Expr.wrap (a.print twice) else a.print twice)
    (negation : Bool) (rest : List Lexeme) : canStartArgument negation (ts ++ rest) = true := by
  have hwrap : ∃ tokens, ts.map Lexeme.token = Expr.wrap tokens := by
    split at hts
    · exact ⟨_, hts⟩
    · next hcompound =>
      cases a with
      | literal l => simp [Expr.isPlain] at hcompound
      | name s location => simp [Expr.isPlain] at hcompound
      | negate e =>
        rw [Expr.print] at hts
        exact ⟨_, hts⟩
      | binary op a b =>
        rw [Expr.print] at hts
        exact ⟨_, hts⟩
      | call f args location =>
        rw [Expr.print] at hts
        exact ⟨_, hts⟩
  obtain ⟨tokens, hwrap⟩ := hwrap
  obtain ⟨opening, inner, closing, rfl, -⟩ := exists_wrap_of_map_token hwrap
  rfl

-- What is printed is an operand whatever follows it; the arguments of a call end at the
-- parenthesis of the call.

mutual

theorem operand_reads_print : ∀ {e : Expr}, e.Printable → ∀ {ts : List Lexeme},
    ts.map Lexeme.token = e.print twice → ∀ rest : List Lexeme,
    ∃ e', Reads (operand stop (ts ++ rest)) e' rest ∧ e'.unplaced = e.unplaced
  | .literal (.number x), _, ts, hts, rest => by
    rw [Expr.print] at hts
    obtain ⟨location, others, rfl, hothers⟩ := exists_cons_of_map_token hts
    obtain rfl := List.map_eq_nil_iff.1 hothers
    exact ⟨_, operand_reads_primary (fun _ _ heq => by cases heq)
      (primary_reads_number x location), rfl⟩
  | .literal (.text s), _, ts, hts, rest => by
    rw [Expr.print] at hts
    obtain ⟨location, others, rfl, hothers⟩ := exists_cons_of_map_token hts
    obtain rfl := List.map_eq_nil_iff.1 hothers
    exact ⟨_, operand_reads_primary (fun _ _ heq => by cases heq)
      (primary_reads_text s location), rfl⟩
  | .literal .null, _, ts, hts, rest => by
    rw [Expr.print] at hts
    obtain ⟨location, others, rfl, hothers⟩ := exists_cons_of_map_token hts
    obtain rfl := List.map_eq_nil_iff.1 hothers
    exact ⟨_, operand_reads_primary (fun _ _ heq => by cases heq)
      (primary_reads_name "NULL" location), rfl⟩
  | .name s place, hname, ts, hts, rest => by
    rw [Expr.print] at hts
    obtain ⟨location, others, rfl, hothers⟩ := exists_cons_of_map_token hts
    obtain rfl := List.map_eq_nil_iff.1 hothers
    cases hname with
    | name _ hfree =>
      refine ⟨_, operand_reads_primary (fun _ _ heq => by cases heq)
        (primary_reads_name s location), ?_⟩
      rw [word, hfree]
      rfl
  | .negate e, hneg, ts, hts, rest => by
    rw [Expr.print] at hts
    cases hneg with
    | negate he =>
      refine operand_reads_wrap (fun inner hinner closing rest => ?_) hts rest
      obtain ⟨location, others, rfl, hothers⟩ := exists_cons_of_map_token hinner
      obtain ⟨e', hreads, hsame⟩ :=
        operand_reads_print he hothers (⟨.rightParen, closing⟩ :: rest)
      refine ⟨.negate e', chain_reads (operand_reads_minus hreads) (climb_stops_paren _ _), ?_⟩
      exact congrArg Expr.negate hsame
  | .binary op a b, hbin, ts, hts, rest => by
    rw [Expr.print] at hts
    cases hbin with
    | binary _ ha hb =>
      refine operand_reads_wrap (fun inner hinner closing rest => ?_) hts rest
      obtain ⟨left, others, rfl, hleft, hothers⟩ := List.map_eq_append_iff.1 hinner
      obtain ⟨location, right, rfl, hright⟩ := exists_cons_of_map_token hothers
      obtain ⟨a', hreadsA, hsameA⟩ := operand_reads_print ha hleft
        (⟨.operator op, location⟩ :: (right ++ ⟨.rightParen, closing⟩ :: rest))
      obtain ⟨b', hreadsB, hsameB⟩ :=
        operand_reads_print hb hright (⟨.rightParen, closing⟩ :: rest)
      have hop : op.precedence ≤ BinaryOp.or.precedence := by cases op <;> decide
      refine ⟨.binary op a' b', ?_, ?_⟩
      · rw [List.append_assoc, List.cons_append]
        exact chain_reads hreadsA (climb_reads hop
          (chain_reads hreadsB (climb_stops_paren _ _)) (climb_stops_paren _ _))
      · show Expr.binary op a'.unplaced b'.unplaced = Expr.binary op a.unplaced b.unplaced
        rw [hsameA, hsameB]
  | .call f args place, hcall, ts, hts, rest => by
    rw [Expr.print] at hts
    cases hcall with
    | call _ haccepts hargs =>
      obtain ⟨hleast, hmost⟩ := Arity.accepts_iff.1 haccepts
      refine operand_reads_wrap (fun inner hinner closing rest => ?_) hts rest
      obtain ⟨location, others, rfl, hothers⟩ := exists_cons_of_map_token hinner
      obtain ⟨args', hreads, hsame⟩ :=
        arguments_reads_print hargs hothers (negatesArgument f.arity) hmost closing rest
      have hlength : args'.length = args.length := by
        have heq := congrArg List.length hsame
        rwa [Expr.length_mapAll, Expr.length_mapAll] at heq
      refine ⟨.call f args' location, chain_reads (operand_reads_primary
        (fun _ _ heq => by cases heq) (primary_reads_call f.find?_name hreads ?_))
        (climb_stops_paren _ _), ?_⟩
      · rw [hlength]
        exact hleast
      · show Expr.call f _ _ = Expr.call f _ _
        rw [hsame]

theorem arguments_reads_print : ∀ {args : List Expr}, (∀ a ∈ args, a.Printable) →
    ∀ {ts : List Lexeme}, ts.map Lexeme.token = Expr.printArguments twice args →
    ∀ (negation : Bool) {room : Nat}, args.length ≤ room → ∀ (closing : Location)
      (rest : List Lexeme), ∃ args', Reads (arguments stop negation room
        (ts ++ ⟨.rightParen, closing⟩ :: rest)) args' (⟨.rightParen, closing⟩ :: rest)
        ∧ Expr.mapAll id (fun _ => ⟨0, 0⟩) args' = Expr.mapAll id (fun _ => ⟨0, 0⟩) args
  | [], _, ts, hts, negation, room, _, closing, rest => by
    rw [Expr.printArguments] at hts
    obtain rfl := List.map_eq_nil_iff.1 hts
    exact ⟨[], arguments_reads_none (.inr rfl), rfl⟩
  | a :: args, hall, ts, hts, negation, room, hroom, closing, rest => by
    rw [Expr.printArguments] at hts
    obtain ⟨first, others, rfl, hfirst, hothers⟩ := List.map_eq_append_iff.1 hts
    obtain ⟨room, rfl⟩ : ∃ r, room = r + 1 := ⟨room - 1, by simp at hroom; omega⟩
    have ha : a.Printable := hall a (List.mem_cons_self ..)
    -- an argument is in parentheses, by itself or because it is one
    have hread : ∃ a', Reads (operand stop (first ++ (others ++ ⟨.rightParen, closing⟩ :: rest))) a'
        (others ++ ⟨.rightParen, closing⟩ :: rest) ∧ a'.unplaced = a.unplaced := by
      split at hfirst
      · refine operand_reads_wrap (fun inner hinner closing rest => ?_) hfirst _
        obtain ⟨a', hreads, hsame⟩ :=
          operand_reads_print ha hinner (⟨.rightParen, closing⟩ :: rest)
        exact ⟨a', chain_reads hreads (climb_stops_paren _ _), hsame⟩
      · exact operand_reads_print ha hfirst _
    obtain ⟨a', hreads, hsame⟩ := hread
    obtain ⟨args', hreads', hsame'⟩ := arguments_reads_print
      (fun b hb => hall b (List.mem_cons_of_mem a hb)) hothers negation
      (Nat.le_of_succ_le_succ hroom) closing rest
    refine ⟨a' :: args', ?_, ?_⟩
    · rw [List.append_assoc]
      refine arguments_reads_cons ?_ hreads hreads'
      exact canStartArgument_print hfirst negation _
    · show a'.unplaced :: _ = a.unplaced :: _
      rw [hsame, hsame']

end

/-- A printed expression is read to its end and as what it was, apart from places. -/
theorem expression_reads_print (stop : Location) (twice : Bool) {e : Expr} (h : e.Printable)
    {ts : List Lexeme} (hts : ts.map Lexeme.token = e.print twice) :
    ∃ e', expression stop ts = .ok (e', []) ∧ e'.unplaced = e.unplaced := by
  have hread : ∃ e', Reads (operand stop (ts ++ [])) e' [] ∧ e'.unplaced = e.unplaced :=
    operand_reads_print h hts []
  rw [List.append_nil] at hread
  obtain ⟨e', hreads, hsame⟩ := hread
  refine ⟨e', expression_eq_ok_iff.2 (chain_reads hreads (climb_stops ?_)), hsame⟩
  intro op location rest heq
  cases heq

end Parser

/-- A call with a range of arguments, the last of which it takes only because of the parentheses
    around it, inside one with a fixed number of them. -/
def nestedCalls : Expr :=
  .call (.math .max)
    [.call (.trend .average) [.name "T" ⟨1, 1⟩, .negate (.literal (.number 4.0))] ⟨1, 1⟩,
      .binary .power (.literal .null) (.literal (.text "a"))] ⟨1, 1⟩

theorem nestedCalls_printable : nestedCalls.Printable := by
  refine .call _ rfl fun a ha => ?_
  simp only [List.mem_cons, List.not_mem_nil, or_false] at ha
  rcases ha with rfl | rfl
  · refine .call _ rfl fun a ha => ?_
    simp only [List.mem_cons, List.not_mem_nil, or_false] at ha
    rcases ha with rfl | rfl
    · exact .name _ (by decide +kernel)
    · exact .negate (.literal _)
  · exact .binary _ (.literal _) (.literal _)

theorem expression_reads_print_nestedCalls :
    ∃ ts : List Lexeme, ts.map Lexeme.token = nestedCalls.print false
      ∧ ∃ e', Parser.expression ⟨1, 9⟩ ts = .ok (e', []) ∧ e'.unplaced = nestedCalls.unplaced := by
  have hts : ((nestedCalls.print false).map fun t => (⟨t, ⟨1, 1⟩⟩ : Lexeme)).map Lexeme.token
      = nestedCalls.print false := by
    rw [List.map_map]
    exact List.map_id _
  exact ⟨_, hts, Parser.expression_reads_print ⟨1, 9⟩ false nestedCalls_printable hts⟩

end Erl
