/-
  Erl.Proofs.Expr.Lookahead

  How far the reader looks.

  The reader never looks past the token after those that it takes: what it reads off some tokens,
  and why it refuses the next one, stays the same whatever stands behind that token.  And it never
  takes a token too many: what it has taken can always be completed.  So it refuses a token as soon
  as no more tokens could mend the text.
-/

import Erl.Proofs.Expr.Reading

namespace Erl

/-- The token that a fault names. -/
def SyntaxFault.found? : SyntaxFault → Option Token
  | expectedExpression found => some found
  | unknownFunction name => some (.function name)
  | unclosedParen found => some found
  | afterExpression found => some found
  | expectedName _ found => some found
  | expectedAssign found => some found
  | expectedKeyword found => some found
  | afterStatement found => some found
  | _ => none

/-- A fault is about a token: it names the token, or misses an argument where the token stands. -/
def SyntaxFault.IsAbout (fault : SyntaxFault) (t : Token) : Prop :=
  fault.found? = some t ∨ ∃ f count, fault = .tooFewArguments f count

/-- An error is at a token: it is about the token and points at it. -/
structure SyntaxError.IsAt (e : SyntaxError) (l : Lexeme) : Prop where
  location : e.location = l.location
  isAbout : e.fault.IsAbout l.token

theorem Builtin.least_le_most (f : Builtin) : f.arity.least ≤ f.arity.most := by
  cases f with
  | math f => cases f <;> decide
  | air f => cases f <;> decide
  | message f => cases f <;> decide
  | trend f => cases f <;> decide
  | curveValue => decide

namespace Parser

variable {α β : Type}

/-! ## Readers -/

/-- Reads a value off the front of tokens. -/
abbrev Reader (α : Type) : Type :=
  List Lexeme → Except SyntaxError (α × List Lexeme)

/-- Reads with one reader, and then with another one that depends on the value. -/
def Reader.andThen (f : Reader α) (g : α → Reader β) : Reader β := fun ts =>
  match f ts with
  | .error e => .error e
  | .ok p => g p.1 p.2

/-- A reader with its value changed. -/
def Reader.map (h : α → β) (f : Reader α) : Reader β := fun ts =>
  (f ts).map fun p => (h p.1, p.2)

/-- The value of a reading and the tokens that it leaves. -/
def view {bound : Nat} (x : Except SyntaxError (Parsed α bound)) :
    Except SyntaxError (α × List Lexeme) :=
  x.map fun p => (p.value, p.rest)

theorem view_eq_ok_iff {bound : Nat} {x : Except SyntaxError (Parsed α bound)} {a : α}
    {rest : List Lexeme} : view x = .ok (a, rest) ↔ Reads x a rest := by
  cases x with
  | error e =>
    constructor
    · intro h
      cases h
    · rintro ⟨_, h⟩
      cases h
  | ok p =>
    obtain ⟨value, left, shorter⟩ := p
    constructor
    · intro h
      cases h
      exact ⟨shorter, rfl⟩
    · rintro ⟨_, h⟩
      cases h
      rfl

theorem shorter_of_view {bound : Nat} {x : Except SyntaxError (Parsed α bound)} {a : α}
    {rest : List Lexeme} (h : view x = .ok (a, rest)) : rest.length < bound :=
  (view_eq_ok_iff.1 h).1

/-! ## Extents -/

/-- With some tokens taken, a reader stops before the rest: it returns a value or fails at the next
    token, and it does so whatever stands behind the next token. -/
inductive Stops (stop : Location) (f : Reader α) (used rest : List Lexeme) : Prop where
  | reads (a : α) (h : ∀ rest', rest'.head? = rest.head? → f (used ++ rest') = .ok (a, rest'))
  | fails (e : SyntaxError) (hat : e.IsAt (peek stop rest))
      (h : ∀ rest', rest'.head? = rest.head? → f (used ++ rest') = .error e)

/-- Tokens can be completed: with more tokens they are read as a whole, before whatever may
    follow.  The value that is then read is full. -/
def Completable (f : Reader α) (Full : α → Prop) (Follows : List Lexeme → Prop)
    (used : List Lexeme) : Prop :=
  ∃ more, ∀ after, Follows after → ∃ a, Full a ∧ f (used ++ (more ++ after)) = .ok (a, after)

/-- A reader takes the first of some tokens, which can be completed, and stops before the others. -/
def HasExtent (stop : Location) (f : Reader α) (Full : α → Prop) (Follows : List Lexeme → Prop)
    (ts : List Lexeme) : Prop :=
  ∃ used rest, ts = used ++ rest ∧ Stops stop f used rest
    ∧ (used ≠ [] → Completable f Full Follows used)

theorem head?_append_congr {used rest rest' : List Lexeme} (h : rest'.head? = rest.head?) :
    (used ++ rest').head? = (used ++ rest).head? := by
  rw [List.head?_append, List.head?_append, h]

theorem head?_append_of_ne_nil {used : List Lexeme} (h : used ≠ []) (rest rest' : List Lexeme) :
    (used ++ rest').head? = (used ++ rest).head? := by
  obtain ⟨l, used, rfl⟩ := List.exists_cons_of_ne_nil h
  rfl

section Extents

variable {stop : Location} {f g : Reader α} {Full : α → Prop} {Follows : List Lexeme → Prop}
  {ts : List Lexeme} {l : Lexeme}

theorem Stops.congr {used used' rest : List Lexeme} (hg : Stops stop g used rest)
    (h : ∀ rest', rest'.head? = rest.head? → f (used' ++ rest') = g (used ++ rest')) :
    Stops stop f used' rest := by
  cases hg with
  | reads a hreads =>
    exact .reads a fun rest' hhead => (h rest' hhead).trans (hreads rest' hhead)
  | fails e hat hfails =>
    exact .fails e hat fun rest' hhead => (h rest' hhead).trans (hfails rest' hhead)

theorem Completable.congr {used used' : List Lexeme} (hg : Completable g Full Follows used)
    (h : ∀ rest, f (used' ++ rest) = g (used ++ rest)) : Completable f Full Follows used' := by
  obtain ⟨more, hmore⟩ := hg
  refine ⟨more, fun after hafter => ?_⟩
  obtain ⟨a, hfull, ha⟩ := hmore after hafter
  exact ⟨a, hfull, (h _).trans ha⟩

/-- A reader that goes by the next token does what the reader for that token does. -/
theorem HasExtent.congr (h : ∀ ts', ts'.head? = ts.head? → f ts' = g ts')
    (hg : HasExtent stop g Full Follows ts) : HasExtent stop f Full Follows ts := by
  obtain ⟨used, rest, rfl, hstops, hcompletes⟩ := hg
  refine ⟨used, rest, rfl, hstops.congr fun rest' hhead => ?_, fun hne => ?_⟩
  · exact h _ (head?_append_congr hhead)
  · exact (hcompletes hne).congr fun rest' => h _ (head?_append_of_ne_nil hne ..)

theorem HasExtent.mono {Follows' : List Lexeme → Prop} (hf : HasExtent stop f Full Follows ts)
    (h : ∀ after, Follows' after → Follows after) : HasExtent stop f Full Follows' ts := by
  obtain ⟨used, rest, rfl, hstops, hcompletes⟩ := hf
  refine ⟨used, rest, rfl, hstops, fun hne => ?_⟩
  obtain ⟨more, hmore⟩ := hcompletes hne
  exact ⟨more, fun after hafter => hmore after (h after hafter)⟩

/-- A reader takes nothing. -/
theorem HasExtent.leave {a : α} (h : ∀ ts', ts'.head? = ts.head? → f ts' = .ok (a, ts')) :
    HasExtent stop f Full Follows ts :=
  ⟨[], ts, rfl, .reads a h, fun hne => absurd rfl hne⟩

/-- A reader refuses the next token. -/
theorem HasExtent.fail {fault : Token → SyntaxFault}
    (h : ∀ ts', ts'.head? = ts.head? → f ts' = Parser.fail stop ts' fault)
    (habout : (fault (peek stop ts).token).IsAbout (peek stop ts).token) :
    HasExtent stop f Full Follows ts := by
  refine ⟨[], ts, rfl, .fails ⟨fault (peek stop ts).token, (peek stop ts).location⟩
    ⟨rfl, habout⟩ fun rest' hhead => ?_, fun hne => absurd rfl hne⟩
  have hpeek : peek stop rest' = peek stop ts := by
    cases rest' <;> cases ts <;> first | rfl | cases hhead
    rfl
  rw [List.nil_append, h rest' hhead, Parser.fail, hpeek]

theorem HasExtent.fail_nil {fault : Token → SyntaxFault} (h : f [] = Parser.fail stop [] fault)
    (habout : (fault .endOfLine).IsAbout .endOfLine) : HasExtent stop f Full Follows [] := by
  refine .fail (fun ts' hhead => ?_) habout
  rw [List.head?_eq_none_iff.1 hhead, h]

theorem HasExtent.fail_cons {fault : Token → SyntaxFault}
    (h : ∀ ts, f (l :: ts) = Parser.fail stop (l :: ts) fault)
    (habout : (fault l.token).IsAbout l.token) : HasExtent stop f Full Follows (l :: ts) := by
  refine .fail (fun ts' hhead => ?_) habout
  obtain ⟨rest, rfl⟩ := List.head?_eq_some_iff.1 hhead
  exact h rest

/-- A reader takes the next token, and goes on as another reader. -/
theorem HasExtent.cons (h : ∀ ts, f (l :: ts) = g ts) (hg : HasExtent stop g Full Follows ts)
    (hnil : Completable g Full Follows []) : HasExtent stop f Full Follows (l :: ts) := by
  obtain ⟨used, rest, rfl, hstops, hcompletes⟩ := hg
  have hused : Completable g Full Follows used := by
    by_cases hne : used = []
    · rw [hne]
      exact hnil
    · exact hcompletes hne
  exact ⟨l :: used, rest, rfl, hstops.congr fun rest' _ => h _, fun _ => hused.congr fun _ => h _⟩

/-- A reader takes the next token only. -/
theorem HasExtent.token {a : α} (h : ∀ ts, f (l :: ts) = .ok (a, ts)) (hfull : Full a) :
    HasExtent stop f Full Follows (l :: ts) :=
  .cons (g := fun ts => .ok (a, ts)) h (.leave fun _ _ => rfl) ⟨[], fun _ _ => ⟨a, hfull, rfl⟩⟩

theorem HasExtent.map {Full' : β → Prop} {h : α → β} (hf : HasExtent stop f Full Follows ts)
    (hfull : ∀ a, Full a → Full' (h a)) : HasExtent stop (f.map h) Full' Follows ts := by
  obtain ⟨used, rest, rfl, hstops, hcompletes⟩ := hf
  refine ⟨used, rest, rfl, ?_, fun hne => ?_⟩
  · cases hstops with
    | reads a hreads =>
      refine .reads (h a) fun rest' hhead => ?_
      rw [Reader.map, hreads rest' hhead]
      rfl
    | fails e hat hfails =>
      refine .fails e hat fun rest' hhead => ?_
      rw [Reader.map, hfails rest' hhead]
      rfl
  · obtain ⟨more, hmore⟩ := hcompletes hne
    refine ⟨more, fun after hafter => ?_⟩
    obtain ⟨a, ha, heq⟩ := hmore after hafter
    refine ⟨h a, hfull a ha, ?_⟩
    rw [Reader.map, heq]
    rfl

/-- Two readers, one after the other.  Where the second one takes nothing, what the first one has
    taken is completed first, and then by tokens that the second one takes in any case. -/
theorem HasExtent.andThen {k : α → Reader β} {Full' : β → Prop} {Follows' : List Lexeme → Prop}
    (hf : HasExtent stop f Full Follows ts)
    (hk : ∀ a rest, f ts = .ok (a, rest) → HasExtent stop (k a) Full' Follows' rest)
    (hlast : ∃ last, ∀ after, Follows' after → Follows (last ++ after)
      ∧ ∀ a, Full a → ∃ b, Full' b ∧ k a (last ++ after) = .ok (b, after)) :
    HasExtent stop (f.andThen k) Full' Follows' ts := by
  obtain ⟨used, rest, rfl, hstops, hcompletes⟩ := hf
  have hdone : used ≠ [] → Completable (f.andThen k) Full' Follows' used := by
    intro hne
    obtain ⟨more, hmore⟩ := hcompletes hne
    obtain ⟨last, hlast⟩ := hlast
    refine ⟨more ++ last, fun after hafter => ?_⟩
    obtain ⟨hfollows, hk⟩ := hlast after hafter
    obtain ⟨a, hfull, ha⟩ := hmore _ hfollows
    obtain ⟨b, hfull', hb⟩ := hk a hfull
    refine ⟨b, hfull', ?_⟩
    rw [List.append_assoc, Reader.andThen, ha]
    exact hb
  cases hstops with
  | fails e hat hfails =>
    refine ⟨used, rest, rfl, .fails e hat fun rest' hhead => ?_, hdone⟩
    rw [Reader.andThen, hfails rest' hhead]
  | reads a hreads =>
    obtain ⟨used', rest, rfl, hstops', hcompletes'⟩ := hk a rest (hreads rest rfl)
    -- the first reader does not see past the next token
    have hfirst : ∀ {ts : List Lexeme}, ts.head? = (used' ++ rest).head? →
        f.andThen k (used ++ ts) = k a ts := by
      intro ts hhead
      rw [Reader.andThen, hreads ts hhead]
    refine ⟨used ++ used', rest, (List.append_assoc ..).symm, ?_, fun hne => ?_⟩
    · refine hstops'.congr fun rest' hhead => ?_
      rw [List.append_assoc, hfirst (head?_append_congr hhead)]
    · by_cases hnil : used' = []
      · subst hnil
        rw [List.append_nil] at hne ⊢
        exact hdone hne
      · refine (hcompletes' hnil).congr fun rest' => ?_
        rw [List.append_assoc, hfirst (head?_append_of_ne_nil hnil ..)]

end Extents

/-! ## The expression reader, reader by reader -/

/-- A number, to complete tokens with. -/
def filler : Lexeme :=
  ⟨.number 0, ⟨1, 1⟩⟩

/-- A closing parenthesis, to complete tokens with. -/
def closer : Lexeme :=
  ⟨.rightParen, ⟨1, 1⟩⟩

/-- Whatever ends a chain of operators that bind no looser than `limit`. -/
def EndsChain (limit : Nat) (after : List Lexeme) : Prop :=
  ∀ op location rest, after = ⟨.operator op, location⟩ :: rest → limit < op.precedence

theorem endsChain_nil (limit : Nat) : EndsChain limit [] :=
  fun _ _ _ h => by cases h

theorem endsChain_closer (limit : Nat) (after : List Lexeme) : EndsChain limit (closer :: after) :=
  fun _ _ _ h => by cases h

theorem EndsChain.mono {limit limit' : Nat} {after : List Lexeme} (h : EndsChain limit after)
    (hle : limit' ≤ limit) : EndsChain limit' after := fun op location rest hafter =>
  Nat.lt_of_le_of_lt hle (h op location rest hafter)

variable (stop : Location)

theorem operand_reads_filler (after : List Lexeme) :
    Reads (operand stop (filler :: after)) (.literal (.number 0)) after :=
  operand_reads_primary (fun _ _ h => by cases h) (primary_reads_number 0 _)

theorem chain_reads_filler {limit : Nat} {after : List Lexeme} (h : EndsChain limit after) :
    Reads (chain stop limit (filler :: after)) (.literal (.number 0)) after :=
  chain_reads (operand_reads_filler stop after) (climb_stops h)

theorem arguments_reads_filler (negation : Bool) (room : Nat) (after : List Lexeme) :
    ∃ args, args.length = room
      ∧ Reads (arguments stop negation room (List.replicate room filler ++ after)) args after := by
  induction room with
  | zero => exact ⟨[], rfl, arguments_reads_none (.inl rfl)⟩
  | succ room ih =>
    obtain ⟨args, hlength, hargs⟩ := ih
    refine ⟨.literal (.number 0) :: args, by rw [List.length_cons, hlength], ?_⟩
    exact arguments_reads_cons rfl (operand_reads_filler stop _) hargs

/-- Reads a closing parenthesis after an expression. -/
def closing (e : Expr) : Reader Expr
  | [] => fail stop [] .unclosedParen
  | next :: rest =>
    if next.token = .rightParen then .ok (e, rest) else fail stop (next :: rest) .unclosedParen

/-- Makes a call of arguments, if they are enough. -/
def calling (f : Builtin) (location : Location) (args : List Expr) : Reader Expr := fun ts =>
  if args.length < f.arity.least then fail stop ts fun _ => .tooFewArguments f args.length
  else .ok (.call f args location, ts)

theorem closing_closer (e : Expr) (after : List Lexeme) :
    closing stop e (closer :: after) = .ok (e, after) := by
  rw [closing]
  exact if_pos rfl

theorem calling_of_length {f : Builtin} {args : List Expr} (h : args.length = f.arity.most)
    (location : Location) (ts : List Lexeme) :
    calling stop f location args ts = .ok (.call f args location, ts) := by
  have hleast := f.least_le_most
  rw [calling, if_neg (by omega)]

theorem view_chain (limit : Nat) (ts : List Lexeme) :
    view (chain stop limit ts)
      = Reader.andThen (fun ts => view (operand stop ts))
          (fun left ts => view (climb stop limit left ts)) ts := by
  rw [chain, Reader.andThen]
  cases operand stop ts with
  | error e => rfl
  | ok p =>
    obtain ⟨left, rest, shorter⟩ := p
    dsimp only [view, Except.map]
    cases climb stop limit left rest <;> rfl

theorem view_climb {limit : Nat} {op : BinaryOp} (hop : op.precedence ≤ limit) (left : Expr)
    (location : Location) (ts : List Lexeme) :
    view (climb stop limit left (⟨.operator op, location⟩ :: ts))
      = Reader.andThen (fun ts => view (chain stop (op.precedence - 1) ts))
          (fun right ts => view (climb stop limit (.binary op left right) ts)) ts := by
  rw [climb, if_pos hop, Reader.andThen]
  cases chain stop (op.precedence - 1) ts with
  | error e => rfl
  | ok p =>
    obtain ⟨right, rest, shorter⟩ := p
    dsimp only [view, Except.map]
    cases climb stop limit (.binary op left right) rest <;> rfl

theorem view_operand_minus (location : Location) (ts : List Lexeme) :
    view (operand stop (⟨.operator .subtract, location⟩ :: ts))
      = Reader.map Expr.negate (fun ts => view (operand stop ts)) ts := by
  rw [operand, Reader.map]
  cases operand stop ts <;> rfl

theorem view_primary_paren (location : Location) (ts : List Lexeme) :
    view (primary stop (⟨.leftParen, location⟩ :: ts))
      = Reader.andThen (fun ts => view (chain stop BinaryOp.or.precedence ts)) (closing stop) ts := by
  rw [primary, Reader.andThen]
  cases chain stop BinaryOp.or.precedence ts with
  | error e => rfl
  | ok p =>
    obtain ⟨e, rest, shorter⟩ := p
    cases rest with
    | nil => rfl
    | cons next rest =>
      dsimp only [view, Except.map, closing, closeParen]
      by_cases hparen : next.token = .rightParen
      · rw [if_pos hparen, if_pos hparen]
        rfl
      · rw [if_neg hparen, if_neg hparen]
        rfl

theorem view_primary_function {s : String} {f : Builtin} (hf : Builtin.find? s = some f)
    (location : Location) (ts : List Lexeme) :
    view (primary stop (⟨.function s, location⟩ :: ts))
      = Reader.andThen
          (fun ts => view (arguments stop (negatesArgument f.arity) f.arity.most ts))
          (calling stop f location) ts := by
  rw [primary, hf, Reader.andThen]
  dsimp only
  cases arguments stop (negatesArgument f.arity) f.arity.most ts with
  | error e => rfl
  | ok p =>
    obtain ⟨args, rest, shorter⟩ := p
    dsimp only [view, Except.map, calling]
    by_cases hleast : args.length < f.arity.least
    · rw [if_pos hleast, if_pos hleast]
      rfl
    · rw [if_neg hleast, if_neg hleast]

theorem view_arguments_succ {negation : Bool} {ts : List Lexeme}
    (hstart : canStartArgument negation ts = true) (room : Nat) :
    view (arguments stop negation (room + 1) ts)
      = Reader.andThen (fun ts => view (operand stop ts))
          (fun arg => .map (arg :: ·) fun ts => view (arguments stop negation room ts)) ts := by
  rw [arguments, if_pos hstart, Reader.andThen]
  cases operand stop ts with
  | error e => rfl
  | ok p =>
    obtain ⟨arg, rest, shorter⟩ := p
    dsimp only [view, Except.map, Reader.map]
    cases arguments stop negation room rest <;> rfl

theorem canStartArgument_congr {negation : Bool} {ts ts' : List Lexeme}
    (h : ts'.head? = ts.head?) : canStartArgument negation ts' = canStartArgument negation ts := by
  cases ts' <;> cases ts <;> first | rfl | cases h
  rfl

theorem closing_hasExtent {Follows : List Lexeme → Prop} (e : Expr) (ts : List Lexeme) :
    HasExtent stop (closing stop e) (fun _ => True) Follows ts := by
  cases ts with
  | nil => exact .fail_nil rfl (.inl rfl)
  | cons next rest =>
    by_cases hparen : next.token = .rightParen
    · exact .token (fun ts => by rw [closing, if_pos hparen]) trivial
    · exact .fail_cons (fun ts => by rw [closing, if_neg hparen]) (.inl rfl)

theorem calling_hasExtent {Follows : List Lexeme → Prop} (f : Builtin) (location : Location)
    (args : List Expr) (ts : List Lexeme) :
    HasExtent stop (calling stop f location args) (fun _ => True) Follows ts := by
  by_cases hleast : args.length < f.arity.least
  · exact .fail (fun ts' _ => by rw [calling, if_pos hleast]) (.inr ⟨f, args.length, rfl⟩)
  · exact .leave fun ts' _ => by rw [calling, if_neg hleast]

-- The proofs follow the recursion of the reader.  Each reader is one or two others, one after the
-- other, that are chosen by the next token.

mutual

theorem chain_hasExtent (limit : Nat) (ts : List Lexeme) :
    HasExtent stop (fun ts => view (chain stop limit ts)) (fun _ => True) (EndsChain limit) ts := by
  refine .congr (fun ts' _ => view_chain stop limit ts') ?_
  refine (operand_hasExtent ts).andThen (fun left rest hleft => ?_) ⟨[], fun after hafter => ?_⟩
  · have hshorter := shorter_of_view hleft
    exact climb_hasExtent limit left rest
  · exact ⟨trivial, fun left _ => ⟨left, trivial, view_eq_ok_iff.2 (climb_stops hafter)⟩⟩
termination_by 3 * ts.length + 2

theorem climb_hasExtent (limit : Nat) (left : Expr) (ts : List Lexeme) :
    HasExtent stop (fun ts => view (climb stop limit left ts)) (fun _ => True) (EndsChain limit)
      ts := by
  by_cases hop : ∃ op location rest, ts = ⟨.operator op, location⟩ :: rest ∧ op.precedence ≤ limit
  · obtain ⟨op, location, rest, rfl, hop⟩ := hop
    have htighter : op.precedence - 1 ≤ limit := by omega
    refine .cons (view_climb stop hop left location) ?_ ⟨[filler], fun after hafter => ?_⟩
    · refine (chain_hasExtent (op.precedence - 1) rest).andThen (fun right rest' hright => ?_)
        ⟨[], fun after hafter => ⟨hafter.mono htighter, fun right _ => ?_⟩⟩
      · have hshorter := shorter_of_view hright
        exact climb_hasExtent limit (.binary op left right) rest'
      · exact ⟨_, trivial, view_eq_ok_iff.2 (climb_stops hafter)⟩
    · have hright := chain_reads_filler stop (hafter.mono htighter)
      refine ⟨.binary op left (.literal (.number 0)), trivial, ?_⟩
      rw [List.nil_append, List.singleton_append, Reader.andThen, view_eq_ok_iff.2 hright]
      exact view_eq_ok_iff.2 (climb_stops hafter)
  · refine .leave fun ts' hhead => view_eq_ok_iff.2 (climb_stops fun op location rest hts' => ?_)
    subst hts'
    obtain ⟨rest, rfl⟩ := List.head?_eq_some_iff.1 hhead.symm
    exact Nat.lt_of_not_le fun hle => hop ⟨op, location, rest, rfl, hle⟩
termination_by 3 * ts.length
decreasing_by all_goals grind

theorem operand_hasExtent (ts : List Lexeme) :
    HasExtent stop (fun ts => view (operand stop ts)) (fun _ => True) (fun _ => True) ts := by
  by_cases hminus : ∃ location rest, ts = ⟨.operator .subtract, location⟩ :: rest
  · obtain ⟨location, rest, rfl⟩ := hminus
    refine .cons (view_operand_minus stop location)
      ((operand_hasExtent rest).map fun _ _ => trivial) ⟨[filler], fun after _ => ?_⟩
    refine ⟨.negate (.literal (.number 0)), trivial, ?_⟩
    rw [List.nil_append, List.singleton_append, Reader.map,
      view_eq_ok_iff.2 (operand_reads_filler stop after)]
    rfl
  · have hprimary := primary_hasExtent ts
    refine .congr (fun ts' hhead => ?_) hprimary
    rw [operand_eq_primary fun location rest hts' => ?_]
    subst hts'
    obtain ⟨rest, rfl⟩ := List.head?_eq_some_iff.1 hhead.symm
    exact hminus ⟨location, rest, rfl⟩
termination_by 3 * ts.length + 1

theorem primary_hasExtent (ts : List Lexeme) :
    HasExtent stop (fun ts => view (primary stop ts)) (fun _ => True) (fun _ => True) ts := by
  cases ts with
  | nil => exact .fail_nil (by unfold primary; rfl) (.inl rfl)
  | cons l rest =>
    obtain ⟨token, location⟩ := l
    cases token with
    | number x => exact .token (fun ts => by rw [primary]; rfl) trivial
    | text s => exact .token (fun ts => by rw [primary]; rfl) trivial
    | name s => exact .token (fun ts => by rw [primary]; rfl) trivial
    | leftParen =>
      refine .cons (view_primary_paren stop location) ?_ ⟨[filler, closer], fun after _ => ?_⟩
      · refine (chain_hasExtent BinaryOp.or.precedence rest).andThen
          (fun e rest' _ => closing_hasExtent stop e rest') ⟨[closer], fun after _ => ?_⟩
        exact ⟨endsChain_closer _ after, fun e _ => ⟨e, trivial, closing_closer stop e after⟩⟩
      · have hchain := chain_reads_filler stop (endsChain_closer BinaryOp.or.precedence after)
        refine ⟨.literal (.number 0), trivial, ?_⟩
        show Reader.andThen _ _ (filler :: closer :: after) = _
        rw [Reader.andThen, view_eq_ok_iff.2 hchain]
        exact closing_closer stop _ after
    | function s =>
      cases hf : Builtin.find? s with
      | none =>
        have hfail : ∀ ts, view (primary stop (⟨.function s, location⟩ :: ts))
            = fail stop (⟨.function s, location⟩ :: ts) fun _ => .unknownFunction s := by
          intro ts
          rw [primary, hf]
          rfl
        exact .fail_cons hfail (.inl rfl)
      | some f =>
        refine .cons (view_primary_function stop hf location) ?_
          ⟨List.replicate f.arity.most filler, fun after _ => ?_⟩
        · refine (arguments_hasExtent (negatesArgument f.arity) f.arity.most rest).andThen
            (fun args rest' _ => calling_hasExtent stop f location args rest') ⟨[], fun after _ => ?_⟩
          exact ⟨trivial, fun args hlength =>
            ⟨_, trivial, calling_of_length stop hlength location after⟩⟩
        · obtain ⟨args, hlength, hargs⟩ :=
            arguments_reads_filler stop (negatesArgument f.arity) f.arity.most after
          refine ⟨.call f args location, trivial, ?_⟩
          rw [List.nil_append, Reader.andThen, view_eq_ok_iff.2 hargs]
          exact calling_of_length stop hlength location after
    | _ => exact .fail_cons (fun ts => by unfold primary; rfl) (.inl rfl)
termination_by 3 * ts.length

theorem arguments_hasExtent (negation : Bool) (room : Nat) (ts : List Lexeme) :
    HasExtent stop (fun ts => view (arguments stop negation room ts))
      (fun args => args.length = room) (fun _ => True) ts := by
  cases room with
  | zero => exact .leave fun ts' _ => view_eq_ok_iff.2 (arguments_reads_none (.inl rfl))
  | succ room =>
    by_cases hstart : canStartArgument negation ts = true
    · refine .congr (fun ts' hhead => view_arguments_succ stop
        ((canStartArgument_congr hhead).trans hstart) room) ?_
      refine (operand_hasExtent ts).andThen (fun arg rest harg => ?_)
        ⟨List.replicate room filler, fun after _ => ⟨trivial, fun arg _ => ?_⟩⟩
      · have hshorter := shorter_of_view harg
        exact (arguments_hasExtent negation room rest).map fun args hlength =>
          congrArg (· + 1) hlength
      · obtain ⟨args, hlength, hargs⟩ := arguments_reads_filler stop negation room after
        refine ⟨arg :: args, congrArg (· + 1) hlength, ?_⟩
        rw [Reader.map, view_eq_ok_iff.2 hargs]
        rfl
    · refine .leave fun ts' hhead => view_eq_ok_iff.2 (arguments_reads_none (.inr ?_))
      rw [canStartArgument_congr hhead]
      exact Bool.eq_false_iff.2 hstart
termination_by 3 * ts.length + 2

end

/-- The expression reader takes tokens that can be completed to an expression, and what it does
    depends on no token but these and the next one. -/
theorem expression_hasExtent (ts : List Lexeme) :
    HasExtent stop (expression stop) (fun _ => True) (· = []) ts := by
  have hchain := chain_hasExtent stop BinaryOp.or.precedence ts
  refine .congr (fun ts' _ => ?_) (hchain.mono fun after hafter => hafter ▸ endsChain_nil _)
  rw [expression]
  cases chain stop BinaryOp.or.precedence ts' <;> rfl

theorem expression_filler : expression stop [filler] = .ok (.literal (.number 0), []) :=
  expression_eq_ok_iff.2 (chain_reads_filler stop (endsChain_nil _))

end Parser

end Erl
