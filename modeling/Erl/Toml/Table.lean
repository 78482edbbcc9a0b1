/-
  Erl.Toml.Table

  Building tables.

  A key may be written once.  A dotted key makes the tables on its way; it can extend only
  tables that dotted keys made.  A header opens a table that is new or that was only implied
  so far, or adds an element to an array of tables; on its way it passes through the last
  elements of such arrays.
-/

import Erl.Toml.Basic

namespace Erl.Toml.Entries

/-- Replaces the value of a key. -/
def replace (es : Entries) (key : String) (v : Value) : Entries :=
  es.map fun (k, old) => if k == key then (k, v) else (k, old)

/-- Changes the table at the end of a path, whose tables are made where they are missing.  The
    flag says that the path belongs to a dotted key. -/
def update (dotted : Bool) (f : TableKind → Entries → Option Entries) :
    List String → TableKind → Entries → Option Entries
  | [], kind, es => f kind es
  | key :: path, _, es =>
    match es.lookup key with
    | none =>
      let kind := if dotted then .dotted else .implied
      (update dotted f path kind []).map fun inner => es ++ [(key, .table kind inner)]
    | some (.table kind inner) =>
      if kind = .closed ∨ (dotted ∧ kind = .header) then none
      else (update dotted f path kind inner).map fun inner => es.replace key (.table kind inner)
    | some (.tables elements) =>
      elements.getLast?.bind fun last =>
        (update dotted f path .header last).map fun last =>
          es.replace key (.tables (elements.dropLast ++ [last]))
    | some _ => none

/-- Adds a pair with a dotted key. -/
def insert (es : Entries) (path : List String) (key : String) (v : Value) : Option Entries :=
  update true
    (fun kind es =>
      if (path.isEmpty ∨ kind = .dotted) ∧ (es.lookup key).isNone then some (es ++ [(key, v)])
      else none)
    path .header es

/-- Opens a table. -/
def openTable (es : Entries) (path : List String) (key : String) : Option Entries :=
  update false
    (fun _ es =>
      match es.lookup key with
      | none => some (es ++ [(key, .table .header [])])
      | some (.table .implied inner) => some (es.replace key (.table .header inner))
      | some _ => none)
    path .header es

/-- Adds an element to an array of tables. -/
def openElement (es : Entries) (path : List String) (key : String) : Option Entries :=
  update false
    (fun _ es =>
      match es.lookup key with
      | none => some (es ++ [(key, .tables [[]])])
      | some (.tables elements) => some (es.replace key (.tables (elements ++ [[]])))
      | some _ => none)
    path .header es

/-- Adds a pair to the table that was opened last. -/
def insertAt (es : Entries) (opened path : List String) (key : String) (v : Value) :
    Option Entries :=
  update false (fun _ es => es.insert path key v) opened .header es

end Erl.Toml.Entries
