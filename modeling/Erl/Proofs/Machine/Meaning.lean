/-
  Erl.Proofs.Machine.Meaning

  The meaning of expressions as they are written.

  A name stands for a local of the program, else for a global, else for a trend; the first
  argument of a function of trends stands for a trend before anything else.  Operands are
  evaluated from left to right, both operands of the logical operators included, and the first
  that is an error is the result.

  `Denotes` says that an operand of a table of nodes is a compiled expression.  The value of
  such an operand is the meaning of the expression.
-/

import Erl.Proofs.Expr.Arity
import Erl.Proofs.Machine.Exec
import Erl.Proofs.Machine.Forest
import Erl.Proofs.Machine.Search

namespace Erl

/-! ## Names -/

/-- What a name stands for. -/
inductive Referent where
  | variableAt (id : VariableId)
  | trendAt (id : TrendId)
  deriving Repr, DecidableEq

/-- The operand that reads a referent. -/
def Referent.operand : Referent → Operand
  | variableAt id => .variableRef id
  | trendAt id => .trendRef id

/-- The value of a referent. -/
def Referent.value : Referent → Exec Value
  | variableAt id => do return (← get).store.value id
  | trendAt id => pure (.trendRef id)

/-- What the names in a program are resolved against. -/
structure Naming where
  store : Store
  trends : Array Trend
  program : ProgramId

namespace Naming

/-- What a name stands for: a local of the program, else a global, else a trend. -/
def resolve? (names : Naming) (name : String) : Option Referent :=
  match names.store.find? (.local_ names.program) name with
  | some id => some (.variableAt id)
  | none =>
    match names.store.find? .global name with
    | some id => some (.variableAt id)
    | none => (trendNamed? names.trends name).map .trendAt

/-- What the first argument of a function of trends stands for: a trend before anything
    else. -/
def resolveTrend? (names : Naming) (name : String) : Option Referent :=
  match trendNamed? names.trends name with
  | some id => some (.trendAt id)
  | none => names.resolve? name

end Naming

/-- The value of what a name stands for; null for a name that stands for nothing. -/
def Referent.read (r : Option Referent) : Exec Value :=
  match r with
  | some r => r.value
  | none => pure .null

/-! ## Expressions -/

/-- The name that is the first argument of a function of trends. -/
def Builtin.trendName? (f : Builtin) (arg : Expr) : Option String :=
  match f, arg with
  | .trend _, .name s _ => some s
  | _, _ => none

mutual

/-- The value of an expression in a program; messages are recorded under the title of the
    program. -/
def Expr.meaning (img : Image) (names : Naming) (title : String) : Expr → Exec Value
  | .literal l => pure l.value
  | .name s _ => Referent.read (names.resolve? s)
  | .negate e => do
    let v ← e.meaning img names title
    if v.isError then return v
    return .ofExcept v.negate
  | .binary op a b => do
    let x ← a.meaning img names title
    if x.isError then return x
    let y ← b.meaning img names title
    if y.isError then return y
    return .ofExcept (op.apply x y)
  | .call f args _ => do
    match ← Expr.argumentValues img names title f args with
    | .error v => return v
    | .ok vs => applyBuiltin img title f vs

/-- The values of the arguments of a function, up to the first that is an error. -/
def Expr.argumentValues (img : Image) (names : Naming) (title : String) (f : Builtin) :
    List Expr → Exec (Except Value (List Value))
  | [] => return .ok []
  | arg :: rest => do
    let v ← match f.trendName? arg with
      | some s => Referent.read (names.resolveTrend? s)
      | none => arg.meaning img names title
    if v.isError then return .error v
    match ← Expr.allValues img names title rest with
    | .error e => return .error e
    | .ok vs => return .ok (v :: vs)

/-- The values of expressions, up to the first that is an error. -/
def Expr.allValues (img : Image) (names : Naming) (title : String) :
    List Expr → Exec (Except Value (List Value))
  | [] => return .ok []
  | e :: rest => do
    let v ← e.meaning img names title
    if v.isError then return .error v
    match ← Expr.allValues img names title rest with
    | .error e => return .error e
    | .ok vs => return .ok (v :: vs)

end

/-! ## Compiled expressions -/

mutual

/-- An operand is an expression, compiled to nodes that refer backwards. -/
inductive Denotes (names : Naming) (nodes : Array Node) : Expr → Operand → Prop where
  | literal {l : Literal} : Denotes names nodes (.literal l) (.constant l)
  | name {s : String} {location : Location} {r : Referent} :
      names.resolve? s = some r → Denotes names nodes (.name s location) r.operand
  | negate {e : Expr} {o : Operand} {id : NodeId} :
      Denotes names nodes e o →
      nodes[id]? = some ⟨.negate, [o]⟩ → (Node.mk .negate [o]).Below id →
      Denotes names nodes (.negate e) (.node id)
  | binary {op : BinaryOp} {a b : Expr} {left right : Operand} {id : NodeId} :
      Denotes names nodes a left → Denotes names nodes b right →
      nodes[id]? = some ⟨.binary op, [left, right]⟩ →
      (Node.mk (.binary op) [left, right]).Below id →
      Denotes names nodes (.binary op a b) (.node id)
  | call {f : Builtin} {args : List Expr} {location : Location} {os : List Operand}
      {id : NodeId} :
      DenotesArguments names nodes f args os →
      nodes[id]? = some ⟨.call f, os⟩ → (Node.mk (.call f) os).Below id →
      Denotes names nodes (.call f args location) (.node id)

/-- Operands are the arguments of a function. -/
inductive DenotesArguments (names : Naming) (nodes : Array Node) :
    Builtin → List Expr → List Operand → Prop where
  | nil {f : Builtin} : DenotesArguments names nodes f [] []
  | trend {f : Builtin} {arg : Expr} {rest : List Expr} {s : String} {r : Referent}
      {os : List Operand} :
      f.trendName? arg = some s → names.resolveTrend? s = some r →
      DenotesAll names nodes rest os →
      DenotesArguments names nodes f (arg :: rest) (r.operand :: os)
  | plain {f : Builtin} {arg : Expr} {rest : List Expr} {o : Operand} {os : List Operand} :
      f.trendName? arg = none → Denotes names nodes arg o → DenotesAll names nodes rest os →
      DenotesArguments names nodes f (arg :: rest) (o :: os)

/-- Operands are expressions, one for one. -/
inductive DenotesAll (names : Naming) (nodes : Array Node) : List Expr → List Operand → Prop where
  | nil : DenotesAll names nodes [] []
  | cons {e : Expr} {rest : List Expr} {o : Operand} {os : List Operand} :
      Denotes names nodes e o → DenotesAll names nodes rest os →
      DenotesAll names nodes (e :: rest) (o :: os)

end

/-- Names that stand for something keep what they stand for, and the trends are the same. -/
structure Naming.Le (names names' : Naming) : Prop where
  trends : names.trends = names'.trends
  resolve? : ∀ {s : String} {r : Referent},
    names.resolve? s = some r → names'.resolve? s = some r

/-- What a name stands for as an argument of a function of trends is kept as well. -/
theorem Naming.Le.resolveTrend? {names names' : Naming} (h : names.Le names') {s : String}
    {r : Referent} (hr : names.resolveTrend? s = some r) : names'.resolveTrend? s = some r := by
  unfold Naming.resolveTrend? at hr ⊢
  rw [← h.trends]
  split at hr
  · exact hr
  · exact h.resolve? hr

/-- Every node of a table stays where it is. -/
def NodesLe (nodes nodes' : Array Node) : Prop :=
  ∀ {id : NodeId} {n : Node}, nodes[id]? = some n → nodes'[id]? = some n

mutual

/-- A compiled expression stays one when names and nodes are added. -/
theorem Denotes.mono {names names' : Naming} {nodes nodes' : Array Node}
    (hnames : names.Le names') (hnodes : NodesLe nodes nodes') :
    ∀ {e : Expr} {o : Operand}, Denotes names nodes e o → Denotes names' nodes' e o
  | _, _, .literal => .literal
  | _, _, .name hr => .name (hnames.resolve? hr)
  | _, _, .negate he hn hb => .negate (he.mono hnames hnodes) (hnodes hn) hb
  | _, _, .binary ha hb hn hbelow =>
    .binary (ha.mono hnames hnodes) (hb.mono hnames hnodes) (hnodes hn) hbelow
  | _, _, .call hargs hn hb => .call (hargs.mono hnames hnodes) (hnodes hn) hb

theorem DenotesArguments.mono {names names' : Naming} {nodes nodes' : Array Node}
    (hnames : names.Le names') (hnodes : NodesLe nodes nodes') :
    ∀ {f : Builtin} {args : List Expr} {os : List Operand},
      DenotesArguments names nodes f args os → DenotesArguments names' nodes' f args os
  | _, _, _, .nil => .nil
  | _, _, _, .trend ht hr hrest =>
    .trend ht (hnames.resolveTrend? hr) (hrest.mono hnames hnodes)
  | _, _, _, .plain ht ha hrest =>
    .plain ht (ha.mono hnames hnodes) (hrest.mono hnames hnodes)

theorem DenotesAll.mono {names names' : Naming} {nodes nodes' : Array Node}
    (hnames : names.Le names') (hnodes : NodesLe nodes nodes') :
    ∀ {es : List Expr} {os : List Operand},
      DenotesAll names nodes es os → DenotesAll names' nodes' es os
  | _, _, .nil => .nil
  | _, _, .cons he hrest => .cons (he.mono hnames hnodes) (hrest.mono hnames hnodes)

end

/-- Arguments are compiled one for one. -/
theorem DenotesAll.length_eq {names : Naming} {nodes : Array Node} :
    ∀ {es : List Expr} {os : List Operand}, DenotesAll names nodes es os → os.length = es.length
  | _, _, .nil => rfl
  | _, _, .cons _ hrest => congrArg (· + 1) hrest.length_eq

theorem DenotesArguments.length_eq {names : Naming} {nodes : Array Node} {f : Builtin}
    {args : List Expr} {os : List Operand} (h : DenotesArguments names nodes f args os) :
    os.length = args.length := by
  cases h with
  | nil => rfl
  | trend _ _ hrest => exact congrArg (· + 1) hrest.length_eq
  | plain _ _ hrest => exact congrArg (· + 1) hrest.length_eq

/-! ## The value of a compiled expression -/

section Nodes

variable (img : Image) (program : String) (sub : NodeId → Exec Value)

/-- The value of a negation. -/
theorem Node.evaluate_negate (o : Operand) :
    (Node.mk .negate [o]).evaluate img program sub = (do
      let v ← o.read sub
      if v.isError then return v
      return .ofExcept v.negate) := by
  simp only [Node.evaluate, readOperands, bind_assoc]
  congr 1
  funext v
  split <;> simp [Operation.apply]

/-- The value of an operator between operands. -/
theorem Node.evaluate_binary (op : BinaryOp) (left right : Operand) :
    (Node.mk (.binary op) [left, right]).evaluate img program sub = (do
      let x ← left.read sub
      if x.isError then return x
      let y ← right.read sub
      if y.isError then return y
      return .ofExcept (op.apply x y)) := by
  simp only [Node.evaluate, readOperands, bind_assoc]
  congr 1
  funext x
  split
  · simp
  · simp only [bind_assoc]
    congr 1
    funext y
    split <;> simp [Operation.apply]

/-- Operands have values if the first has one that is no error, and the others have values after
    it. -/
theorem readOperands_cons_eq_ok_iff {o : Operand} {rest : List Operand} {vs : List Value}
    {m m' : Machine} :
    readOperands sub (o :: rest) m = .ok (.ok vs) m' ↔
      ∃ v vs' m₁, o.read sub m = .ok v m₁ ∧ v.isError = false
        ∧ readOperands sub rest m₁ = .ok (.ok vs') m' ∧ vs = v :: vs' := by
  constructor
  · intro h
    rw [readOperands] at h
    obtain ⟨v, m₁, hfirst, h⟩ := Exec.bind_eq_ok_iff.1 h
    split at h
    · cases h
    · next hvalue =>
      obtain ⟨r, m₂, hrest, h⟩ := Exec.bind_eq_ok_iff.1 h
      split at h
      · cases h
      · cases h
        exact ⟨v, _, m₁, hfirst, by simpa using hvalue, hrest, rfl⟩
  · rintro ⟨v, vs', m₁, hfirst, hvalue, hrest, rfl⟩
    rw [readOperands, Exec.bind_ok hfirst, hvalue, if_neg Bool.false_ne_true, Exec.bind_ok hrest]
    rfl

/-- Operands have one value each. -/
theorem length_of_readOperands {os : List Operand} {vs : List Value} {m m' : Machine}
    (h : readOperands sub os m = .ok (.ok vs) m') : vs.length = os.length := by
  induction os generalizing vs m with
  | nil =>
    cases h
    rfl
  | cons o rest ih =>
    obtain ⟨v, vs', m₁, -, -, hrest, rfl⟩ := (readOperands_cons_eq_ok_iff sub).1 h
    exact congrArg (· + 1) (ih hrest)

/-- The value of a call with a number of operands that its function takes. -/
theorem Node.evaluate_call {f : Builtin} {os : List Operand}
    (h : f.arity.accepts os.length = true) :
    (Node.mk (.call f) os).evaluate img program sub = (do
      match ← readOperands sub os with
      | .error v => return v
      | .ok vs => applyBuiltin img program f vs) := by
  funext m
  -- the arity is tested on the values, of which there is one for each operand
  apply Exec.bind_congr
  intro r m' hr
  cases r with
  | error v => rfl
  | ok vs =>
    show Operation.apply img program (.call f) vs m' = applyBuiltin img program f vs m'
    rw [Operation.apply, length_of_readOperands sub hr, if_pos h]

end Nodes

/-- The operand of a referent reads its value. -/
theorem Referent.read_operand (r : Referent) (sub : NodeId → Exec Value) :
    r.operand.read sub = r.value := by
  cases r <;> rfl

mutual

/-- The value of a compiled expression is its meaning. -/
theorem Denotes.read_eq {img : Image} {names : Naming} (title : String) :
    ∀ {e : Expr} {o : Operand}, Denotes names img.nodes e o → e.FitsArity →
      o.read (img.evaluate title) = e.meaning img names title
  | _, _, .literal, _ => by
    rw [Expr.meaning]
    rfl
  | _, _, .name hr, _ => by
    rw [Expr.meaning, hr, Referent.read_operand]
    rfl
  | _, _, .negate he hn hb, .negate hfit => by
    have ih := he.read_eq title hfit
    rw [Expr.meaning, ← ih]
    show img.evaluate title _ = _
    rw [img.evaluate_eq title hn hb, Node.evaluate_negate]
  | _, _, .binary ha hb hn hbelow, .binary hfita hfitb => by
    have iha := ha.read_eq title hfita
    have ihb := hb.read_eq title hfitb
    rw [Expr.meaning, ← iha, ← ihb]
    show img.evaluate title _ = _
    rw [img.evaluate_eq title hn hbelow, Node.evaluate_binary]
  | _, _, .call hargs hn hb, .call haccepts hfits => by
    have ih := hargs.read_eq title hfits
    rw [Expr.meaning, ← ih]
    show img.evaluate title _ = _
    rw [img.evaluate_eq title hn hb, Node.evaluate_call]
    rw [hargs.length_eq]
    exact haccepts

theorem DenotesArguments.read_eq {img : Image} {names : Naming} (title : String) :
    ∀ {f : Builtin} {args : List Expr} {os : List Operand},
      DenotesArguments names img.nodes f args os → (∀ a ∈ args, a.FitsArity) →
      readOperands (img.evaluate title) os = Expr.argumentValues img names title f args
  | _, _, _, .nil, _ => by
    rw [readOperands, Expr.argumentValues]
  | _, _, _, .trend ht hr hrest, hfits => by
    have ih := hrest.read_eq title fun a ha => hfits a (List.mem_cons_of_mem _ ha)
    have hread : Referent.read _ = Referent.value _ := congrArg Referent.read hr
    rewrite [readOperands, Expr.argumentValues, ht, ih, Referent.read_operand, ← hread]
    rfl
  | _, _, _, .plain ht ha hrest, hfits => by
    have iha := ha.read_eq title (hfits _ List.mem_cons_self)
    have ih := hrest.read_eq title fun a ha => hfits a (List.mem_cons_of_mem _ ha)
    rewrite [readOperands, Expr.argumentValues, ht, iha, ih]
    rfl

theorem DenotesAll.read_eq {img : Image} {names : Naming} (title : String) :
    ∀ {es : List Expr} {os : List Operand},
      DenotesAll names img.nodes es os → (∀ e ∈ es, e.FitsArity) →
      readOperands (img.evaluate title) os = Expr.allValues img names title es
  | _, _, .nil, _ => by
    rw [readOperands, Expr.allValues]
  | _, _, .cons he hrest, hfits => by
    have ihe := he.read_eq title (hfits _ List.mem_cons_self)
    have ih := hrest.read_eq title fun a ha => hfits a (List.mem_cons_of_mem _ ha)
    rewrite [readOperands, Expr.allValues, ihe, ih]
    rfl

end

/-- A node is an expression that stands alone: either the expression is compiled to it, or it
    reads the operand that the expression is. -/
def DenotesWhole (names : Naming) (nodes : Array Node) (e : Expr) (id : NodeId) : Prop :=
  Denotes names nodes e (.node id) ∨
    ∃ o, Denotes names nodes e o ∧ o.Below id ∧ nodes[id]? = some ⟨.literal, [o]⟩

theorem DenotesWhole.mono {names names' : Naming} {nodes nodes' : Array Node}
    (hnames : names.Le names') (hnodes : NodesLe nodes nodes') {e : Expr} {id : NodeId}
    (h : DenotesWhole names nodes e id) : DenotesWhole names' nodes' e id := by
  rcases h with h | ⟨o, h, hb, hn⟩
  · exact .inl (h.mono hnames hnodes)
  · exact .inr ⟨o, h.mono hnames hnodes, hb, hnodes hn⟩

/-- The value of the node of an expression is the meaning of the expression. -/
theorem DenotesWhole.evaluate_eq {img : Image} {names : Naming} {e : Expr} {id : NodeId}
    (h : DenotesWhole names img.nodes e id) (hfit : e.FitsArity) (title : String) :
    img.evaluate title id = e.meaning img names title := by
  rcases h with h | ⟨o, h, hb, hn⟩
  · exact h.read_eq title hfit
  · rw [img.evaluate_eq title hn (by simpa [Node.Below] using hb), ← h.read_eq title hfit]
    rfl

end Erl
