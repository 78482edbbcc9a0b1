/-
  Erl.Proofs.Expr.Precedence

  How the operators of a chain group.

  A chain is operands with operators between them.  It can be grouped in many ways; in one of them
  every operator binds its operands before all operators of a higher number do, and operators of
  the same number group from the left.  There is only one such grouping, because its outermost
  operator has to be the last one with the highest number, and that is the one that is read.

  The operands of a chain are numbers, texts, names and parenthesised expressions, each with any
  number of minus signs.  The signs belong to the operand, so they never come between operators.
-/

import Erl.Proofs.Expr.Reading

namespace Erl

/-! ## Groupings -/

/-- A way to group operands with operators between them. -/
inductive Grouping (α : Type) where
  | operand (u : α)
  | binary (op : BinaryOp) (left right : Grouping α)

namespace Grouping

variable {α : Type}

/-- The operands and operators from left to right. -/
def inorder : Grouping α → List (α ⊕ BinaryOp)
  | operand u => [.inl u]
  | binary op left right => left.inorder ++ .inr op :: right.inorder

/-- The outermost operator, if there is one. -/
def outermost? : Grouping α → Option BinaryOp
  | operand _ => none
  | binary op _ _ => some op

/-- Every operator has no looser one to its left and only tighter ones to its right. -/
def ByPrecedence : Grouping α → Prop
  | operand _ => True
  | binary op left right =>
    (∀ o ∈ left.outermost?, o.precedence ≤ op.precedence) ∧ left.ByPrecedence
      ∧ (∀ o ∈ right.outermost?, o.precedence < op.precedence) ∧ right.ByPrecedence

/-- The expression of a grouping. -/
def toExpr (value : α → Expr) : Grouping α → Expr
  | operand u => value u
  | binary op left right => .binary op (left.toExpr value) (right.toExpr value)

/-- Nothing inside binds looser than the outermost operator. -/
theorem ByPrecedence.le_of_mem {g : Grouping α} (h : g.ByPrecedence) {bound : Nat}
    (hbound : ∀ o ∈ g.outermost?, o.precedence ≤ bound) {o : BinaryOp} (ho : .inr o ∈ g.inorder) :
    o.precedence ≤ bound := by
  induction g generalizing bound with
  | operand u => simp [inorder] at ho
  | binary op left right ihl ihr =>
    obtain ⟨hleft, hgleft, hright, hgright⟩ := h
    have hop : op.precedence ≤ bound := hbound op rfl
    rw [inorder, List.mem_append, List.mem_cons] at ho
    rcases ho with ho | ho | ho
    · exact Nat.le_trans (ihl hgleft hleft ho) hop
    · cases ho
      exact hop
    · exact Nat.le_trans (ihr hgright (fun o h => Nat.le_of_lt (hright o h)) ho) hop

/-- What stands to the left of the outermost operator binds no looser. -/
theorem ByPrecedence.left_le {op : BinaryOp} {left right : Grouping α}
    (h : (binary op left right).ByPrecedence) {o : BinaryOp} (ho : .inr o ∈ left.inorder) :
    o.precedence ≤ op.precedence :=
  h.2.1.le_of_mem h.1 ho

/-- What stands to the right of the outermost operator binds tighter. -/
theorem ByPrecedence.right_lt {op : BinaryOp} {left right : Grouping α}
    (h : (binary op left right).ByPrecedence) {o : BinaryOp} (ho : .inr o ∈ right.inorder) :
    o.precedence < op.precedence := by
  obtain ⟨-, -, hright, hgright⟩ := h
  have hpos : ∀ o' ∈ right.outermost?, o'.precedence ≤ op.precedence - 1 :=
    fun o' ho' => Nat.le_sub_one_of_lt (hright o' ho')
  have hle := hgright.le_of_mem hpos ho
  have hop : 0 < op.precedence := by cases op <;> decide
  omega

/-- Two groupings of one sequence by precedence have the same outermost operator at the same
    place. -/
theorem ByPrecedence.split_eq {op op' : BinaryOp} {left right left' right' : Grouping α}
    (h : (binary op left right).ByPrecedence) (h' : (binary op' left' right').ByPrecedence)
    (heq : (binary op left right).inorder = (binary op' left' right').inorder) :
    op = op' ∧ left.inorder = left'.inorder ∧ right.inorder = right'.inorder := by
  rw [inorder, inorder] at heq
  -- if one operator stood further left, each would bind no looser and tighter than the other
  rcases List.append_eq_append_iff.1 heq with ⟨between, hl, hr⟩ | ⟨between, hl, hr⟩
  · cases between with
    | nil =>
      obtain ⟨hop, hright⟩ := List.cons.inj hr
      exact ⟨Sum.inr.inj hop, by simpa using hl.symm, hright⟩
    | cons x between =>
      obtain ⟨rfl, hright⟩ := List.cons.inj hr
      have hle : op.precedence ≤ op'.precedence := h'.left_le (by simp [hl])
      have hlt : op'.precedence < op.precedence := h.right_lt (by simp [hright])
      omega
  · cases between with
    | nil =>
      obtain ⟨hop, hright⟩ := List.cons.inj hr
      exact ⟨(Sum.inr.inj hop).symm, by simpa using hl, hright.symm⟩
    | cons x between =>
      obtain ⟨rfl, hright⟩ := List.cons.inj hr
      have hle : op'.precedence ≤ op.precedence := h.left_le (by simp [hl])
      have hlt : op.precedence < op'.precedence := h'.right_lt (by simp [hright])
      omega

theorem inorder_ne_nil (g : Grouping α) : g.inorder ≠ [] := by
  cases g <;> simp [inorder]

/-- One operand alone is not the sequence of two with an operator between them. -/
theorem inorder_operand_ne (u : α) (op : BinaryOp) (left right : Grouping α) :
    (operand u).inorder ≠ (binary op left right).inorder := by
  intro heq
  have hlength := congrArg List.length heq
  have hleft := List.length_pos_iff.2 left.inorder_ne_nil
  simp only [inorder, List.length_append, List.length_cons, List.length_nil] at hlength
  omega

/-- A sequence is grouped by precedence in at most one way. -/
theorem ByPrecedence.eq_of_inorder_eq {g g' : Grouping α} (h : g.ByPrecedence)
    (h' : g'.ByPrecedence) (heq : g.inorder = g'.inorder) : g = g' := by
  induction g generalizing g' with
  | operand u =>
    cases g' with
    | operand u' =>
      have hu : u = u' := by simpa [inorder] using heq
      rw [hu]
    | binary op' left' right' => exact absurd heq (inorder_operand_ne u op' left' right')
  | binary op left right ihl ihr =>
    cases g' with
    | operand u' => exact absurd heq.symm (inorder_operand_ne u' op left right)
    | binary op' left' right' =>
      obtain ⟨rfl, hleft, hright⟩ := h.split_eq h' heq
      obtain ⟨-, hgleft, -, hgright⟩ := h
      obtain ⟨-, hgleft', -, hgright'⟩ := h'
      rw [ihl hgleft hgleft' hleft, ihr hgright hgright' hright]

end Grouping

/-! ## Chains -/

namespace Chain

/-- What an operand is without its signs.  A group is what can be read as an expression by itself,
    in parentheses. -/
inductive Atom (stop : Location) where
  | number (x : Float) (location : Location)
  | text (s : String) (location : Location)
  | name (s : String) (location : Location)
  | group (opening : Location) (inner : List Lexeme) (e : Expr) (closing : Location)
      (reads : Parser.expression stop inner = .ok (e, []))

/-- An operand: any number of minus signs and what they negate. -/
structure Term (stop : Location) where
  signs : List Location
  atom : Atom stop

/-- An operator and the operand after it. -/
structure Link (stop : Location) where
  op : BinaryOp
  location : Location
  term : Term stop

variable {stop : Location}

def Atom.lexemes : Atom stop → List Lexeme
  | number x location => [⟨.number x, location⟩]
  | text s location => [⟨.text s, location⟩]
  | name s location => [⟨.name s, location⟩]
  | group opening inner _ closing _ =>
    ⟨.leftParen, opening⟩ :: (inner ++ [⟨.rightParen, closing⟩])

/-- What an operand without signs denotes; a name may be that of a constant. -/
def Atom.expr : Atom stop → Expr
  | number x _ => .literal (.number x)
  | text s _ => .literal (.text s)
  | name s location => Parser.word s location
  | group _ _ e _ _ => e

def Term.lexemes (u : Term stop) : List Lexeme :=
  u.signs.map (⟨.operator .subtract, ·⟩) ++ u.atom.lexemes

/-- What an operand denotes: each sign negates what stands after it, up to the next operator. -/
def Term.expr (u : Term stop) : Expr :=
  u.signs.foldr (fun _ e => .negate e) u.atom.expr

/-- The tokens of the operators after an operand, with their own operands. -/
def linkLexemes (links : List (Link stop)) : List Lexeme :=
  links.flatMap fun l => ⟨.operator l.op, l.location⟩ :: l.term.lexemes

/-- The operators after an operand, with their own operands. -/
def linkItems (links : List (Link stop)) : List (Term stop ⊕ BinaryOp) :=
  links.flatMap fun l => [.inr l.op, .inl l.term]

/-- The tokens of a chain. -/
def lexemes (first : Term stop) (links : List (Link stop)) : List Lexeme :=
  first.lexemes ++ linkLexemes links

/-- The operands and operators of a chain. -/
def items (first : Term stop) (links : List (Link stop)) : List (Term stop ⊕ BinaryOp) :=
  .inl first :: linkItems links

theorem Atom.primary_reads (u : Atom stop) (rest : List Lexeme) :
    Parser.Reads (Parser.primary stop (u.lexemes ++ rest)) u.expr rest := by
  cases u with
  | number x location => exact Parser.primary_reads_number x location
  | text s location => exact Parser.primary_reads_text s location
  | name s location => exact Parser.primary_reads_name s location
  | group opening inner e closing reads =>
    show Parser.Reads (Parser.primary stop
      (⟨.leftParen, opening⟩ :: ((inner ++ [⟨.rightParen, closing⟩]) ++ rest))) e rest
    rw [List.append_assoc]
    exact Parser.primary_reads_group reads opening closing rest

theorem Atom.lexemes_ne_minus (u : Atom stop) (rest : List Lexeme) (location : Location)
    (others : List Lexeme) : u.lexemes ++ rest ≠ ⟨.operator .subtract, location⟩ :: others := by
  intro heq
  cases u <;> cases heq

/-- An operand is read with its signs, whatever follows it. -/
theorem Term.operand_reads (u : Term stop) (rest : List Lexeme) :
    Parser.Reads (Parser.operand stop (u.lexemes ++ rest)) u.expr rest := by
  obtain ⟨signs, atom⟩ := u
  induction signs with
  | nil =>
    exact Parser.operand_reads_primary (atom.lexemes_ne_minus rest) (atom.primary_reads rest)
  | cons location signs ih => exact Parser.operand_reads_minus ih

/-! ## Reading a chain -/

/-- The part of a chain that is read up to an operator that binds looser than the limit: a grouping
    by precedence, with no operator in it that binds looser. -/
structure ReadUpTo (limit : Nat) (before : List (Term stop ⊕ BinaryOp)) (links : List (Link stop))
    (read : Expr → List Lexeme → Prop) (g : Grouping (Term stop)) (left : List (Link stop)) :
    Prop where
  reads : read (g.toExpr Term.expr) (linkLexemes left)
  items : g.inorder ++ linkItems left = before ++ linkItems links
  byPrecedence : g.ByPrecedence
  tight : ∀ o ∈ g.outermost?, o.precedence ≤ limit
  loose : ∀ l ∈ left.head?, limit < l.op.precedence
  shorter : left.length ≤ links.length

/-- A chain of `n` operators is read up to any limit. -/
def ChainReads (stop : Location) (n : Nat) : Prop :=
  ∀ (limit : Nat) (first : Term stop) (links : List (Link stop)), links.length = n →
    ∃ g left, ReadUpTo limit [.inl first] links
      (Parser.Reads (Parser.chain stop limit (lexemes first links))) g left

/-- A grouping goes on with `n` operators, up to any limit.  It can do so only with operators that
    bind no tighter than its own: all tighter ones were taken before. -/
def ClimbReads (stop : Location) (n : Nat) : Prop :=
  ∀ (limit : Nat) (g : Grouping (Term stop)) (links : List (Link stop)), links.length = n →
    g.ByPrecedence → (∀ o ∈ g.outermost?, o.precedence ≤ limit) →
    (∀ o ∈ g.outermost?, ∀ l ∈ links.head?, o.precedence ≤ l.op.precedence) →
    ∃ g' left, ReadUpTo limit g.inorder links
      (Parser.Reads (Parser.climb stop limit (g.toExpr Term.expr) (linkLexemes links))) g' left

/-- One operator is taken with a chain of tighter ones on its right, and then those after it. -/
theorem climbReads_step {n : Nat} (hchain : ∀ k < n, ChainReads stop k)
    (hclimb : ∀ k < n, ClimbReads stop k) : ClimbReads stop n := by
  intro limit g links hlength hg htight hnext
  cases links with
  | nil =>
    refine ⟨g, [], Parser.climb_stops ?_, rfl, hg, htight, by simp, Nat.le_refl _⟩
    intro op location rest heq
    cases heq
  | cons l links =>
    by_cases hop : l.op.precedence ≤ limit
    · have hshort : links.length < n := by
        rw [← hlength]
        exact Nat.lt_succ_self _
      obtain ⟨right, between, hright⟩ :=
        hchain links.length hshort (l.op.precedence - 1) l.term links rfl
      have hpos : 0 < l.op.precedence := by cases l.op <;> decide
      have hrightLt : ∀ o ∈ right.outermost?, o.precedence < l.op.precedence := by
        intro o ho
        have hle := hright.tight o ho
        omega
      have hgroup : (Grouping.binary l.op g right).ByPrecedence :=
        ⟨fun o ho => hnext o ho l rfl, hg, hrightLt, hright.byPrecedence⟩
      have hroot : ∀ o ∈ (Grouping.binary l.op g right).outermost?, o.precedence ≤ limit := by
        intro o ho
        cases ho
        exact hop
      -- the next operator was not taken on the right, so it binds no tighter
      have hafter : ∀ o ∈ (Grouping.binary l.op g right).outermost?,
          ∀ l' ∈ between.head?, o.precedence ≤ l'.op.precedence := by
        intro o ho l' hl'
        cases ho
        have hlt := hright.loose l' hl'
        omega
      have hfewer : between.length < n := Nat.lt_of_le_of_lt hright.shorter hshort
      obtain ⟨g', left, hrest⟩ :=
        hclimb between.length hfewer limit (.binary l.op g right) between rfl hgroup hroot hafter
      refine ⟨g', left, Parser.climb_reads hop hright.reads hrest.reads, ?_,
        hrest.byPrecedence, hrest.tight, hrest.loose, ?_⟩
      · rw [hrest.items, Grouping.inorder, List.append_assoc, List.cons_append, hright.items]
        rfl
      · exact Nat.le_trans hrest.shorter (Nat.le_trans hright.shorter (Nat.le_succ _))
    · refine ⟨g, l :: links, Parser.climb_stops ?_, rfl, hg, htight, ?_, Nat.le_refl _⟩
      · intro op location rest heq
        cases heq
        exact Nat.lt_of_not_le hop
      · intro l' hl'
        cases hl'
        exact Nat.lt_of_not_le hop

/-- A chain is its first operand, which then goes on with all operators. -/
theorem chainReads_of_climbReads {n : Nat} (h : ClimbReads stop n) : ChainReads stop n := by
  intro limit first links hlength
  obtain ⟨g, left, hread⟩ := h limit (.operand first) links hlength trivial
    (fun o ho => by cases ho) (fun o ho => by cases ho)
  exact ⟨g, left, Parser.chain_reads (first.operand_reads _) hread.reads, hread.items,
    hread.byPrecedence, hread.tight, hread.loose, hread.shorter⟩

theorem climbReads (n : Nat) : ClimbReads stop n := by
  -- on the number of operators, since those on the right of one are read as a chain again
  induction n using Nat.strongRecOn with
  | ind n ih => exact climbReads_step (fun k hk => chainReads_of_climbReads (ih k hk)) ih

/-- A chain of any length is read to its end, and as the one grouping by precedence that it has:
    the operands and operators of the grouping are those of the chain, and every other grouping of
    them breaks the precedence somewhere. -/
theorem expression_groups_by_precedence (first : Term stop) (links : List (Link stop)) :
    ∃ g : Grouping (Term stop),
      Parser.expression stop (lexemes first links) = .ok (g.toExpr Term.expr, [])
        ∧ g.inorder = items first links ∧ g.ByPrecedence
        ∧ ∀ g' : Grouping (Term stop), g'.inorder = items first links → g'.ByPrecedence →
            g' = g := by
  obtain ⟨g, left, hread⟩ :=
    chainReads_of_climbReads (climbReads links.length) BinaryOp.or.precedence first links rfl
  -- no operator binds looser than the limit of a whole expression, so none is left
  have hnone : left = [] := by
    cases left with
    | nil => rfl
    | cons l left =>
      have hlt := hread.loose l rfl
      have hle : l.op.precedence ≤ BinaryOp.or.precedence := by cases l.op <;> decide
      omega
  subst hnone
  have hitems : g.inorder = items first links := by
    have heq := hread.items
    rw [show linkItems ([] : List (Link stop)) = [] from rfl, List.append_nil] at heq
    exact heq
  refine ⟨g, Parser.expression_eq_ok_iff.2 hread.reads, hitems, hread.byPrecedence, ?_⟩
  intro g' hg' hprecedence
  exact hprecedence.eq_of_inorder_eq hread.byPrecedence (hg'.trans hitems.symm)

end Chain

end Erl
