/-
  Erl.Toml.Basic

  The values of a TOML document, and reading records from them.

  A record is written as a table whose keys are its fields, or as an array of its fields in
  their order; a choice is written as its name, or as a table with this name as its only key
  and nothing below it.  Which date or time a value is makes no difference, because no record
  holds one.
-/

namespace Erl.Toml

/-- How a table came about, which decides what can still be added to it. -/
inductive TableKind where
  /-- Written in braces; nothing can be added. -/
  | closed
  /-- Opened by a header of its own. -/
  | header
  /-- Implied by the header of a table inside it. -/
  | implied
  /-- Made by a dotted key. -/
  | dotted
  deriving Repr, DecidableEq

/-- A value of a document. -/
inductive Value where
  | boolean (b : Bool)
  | integer (n : Int)
  | float (x : Float)
  | text (s : String)
  /-- A date, a time of day, or both. -/
  | moment
  | array (items : List Value)
  | table (kind : TableKind) (entries : List (String × Value))
  /-- An array whose elements are opened by headers. -/
  | tables (elements : List (List (String × Value)))
  deriving Repr

/-- The entries of a table. -/
abbrev Entries := List (String × Value)

namespace Value

/-! ## Scalars and arrays -/

/-- The truth value. -/
def boolean? : Value → Option Bool
  | boolean b => some b
  | _ => none

/-- The text. -/
def text? : Value → Option String
  | text s => some s
  | _ => none

/-- The number; an integer is one as well. -/
def number? : Value → Option Float
  | float x => some x
  | integer n => some (Float.ofInt n)
  | _ => none

/-- The integer, if it is not negative. -/
def count? : Value → Option Nat
  | integer (.ofNat n) => some n
  | _ => none

/-- The items of an array. -/
def items? : Value → Option (List Value)
  | array items => some items
  | tables elements => some (elements.map (table .header))
  | _ => none

/-- The items of an array, each read in the same way. -/
def list? {α : Type} (read : Value → Option α) (v : Value) : Option (List α) :=
  v.items?.bind (·.mapM read)

/-- Whether nothing is inside a table or array. -/
def isHollow : Value → Bool
  | array items => items.isEmpty
  | table _ entries => entries.isEmpty
  | tables elements => elements.isEmpty
  | _ => false

/-- One of some named choices. -/
def choice? {α : Type} (choices : List (String × α)) : Value → Option α
  | text s => choices.lookup s
  | table _ [(name, v)] => if v.isHollow then choices.lookup name else none
  | _ => none

/-! ## Records -/

/-- The fields of a record that are present, if there are no others. -/
def fields? (names : List String) (v : Value) : Option Entries :=
  match v with
  | table _ entries => if entries.all (names.contains ·.1) then some entries else none
  | v => v.items?.map names.zip

end Value

namespace Entries

/-- A field that has to be present. -/
def required {α : Type} (es : Entries) (name : String) (read : Value → Option α) : Option α :=
  (es.lookup name).bind read

/-- A field that may be missing. -/
def optional {α : Type} (es : Entries) (name : String) (read : Value → Option α) :
    Option (Option α) :=
  match es.lookup name with
  | none => some none
  | some v => (read v).map some

/-- A field with a value for when it is missing. -/
def getD {α : Type} (es : Entries) (name : String) (read : Value → Option α) (fallback : α) :
    Option α :=
  (es.optional name read).map (·.getD fallback)

end Entries

end Erl.Toml
