/-
  Erl.Toml.Document

  Reading documents.

  A document is a sequence of lines: headers, and pairs of a key and a value.  Arrays may run
  over several lines and end with a comma; tables in braces may not.  How deep arrays and
  tables in braces may be nested is limited, and so is the number of parts of a key.
-/

import Erl.Toml.Moment
import Erl.Toml.Table
import Erl.Toml.Text
import Erl.Toml.Word

namespace Erl.Toml

/-- How many arrays and tables in braces may stand inside one another, and how many parts a
    key may have. -/
def depthLimit : Nat := 79

/-! ## Keys -/

/-- A key: the tables on its way and its last part. -/
structure Key where
  path : List String
  last : String
  deriving Repr, DecidableEq

/-- A character of a key without quotes. -/
def isBare (c : Char) : Bool :=
  c.isAlphanum || c == '_' || c == '-'

/-- One part of a key, with the blanks around it. -/
def keyPart? (cs : List Char) : Option (String × List Char) :=
  let cs := skipBlanks cs
  let bare := cs.takeWhile isBare
  let part? := if bare.isEmpty then shortText? cs else some (bare, cs.dropWhile isBare)
  part?.map fun (part, rest) => (String.ofList part, skipBlanks rest)

/-- The parts of a key, with the blanks around them. -/
def keyParts? (cs : List Char) : Option (Key × List Char) := do
  let r ← Reading.ofPair? cs.length (← keyPart? cs)
  match r.rest with
  | '.' :: rest =>
    if _h : rest.length < cs.length then
      let (key, rest) ← keyParts? rest
      return (⟨r.value :: key.path, key.last⟩, rest)
    else none
  | rest => return (⟨[], r.value⟩, rest)
termination_by cs.length

/-- A key, with the blanks around it. -/
def key? (cs : List Char) : Option (Key × List Char) :=
  (keyParts? cs).filter fun (key, _) => key.path.length < depthLimit

/-- A key and the equals sign after it. -/
def keyAssign? (cs : List Char) : Option (Key × List Char) :=
  (key? cs).bind fun
    | (key, '=' :: rest) => some (key, skipBlanks rest)
    | _ => none

/-! ## Values -/

/-- A character of a number or truth value. -/
def isWordChar (c : Char) : Bool :=
  isBare c || c == '+' || c == '.'

/-- A value that holds no others. -/
def scalar? (cs : List Char) : Option (Value × List Char) :=
  match text? cs with
  | some (text, rest) => some (.text (String.ofList text), rest)
  | none =>
    match afterMoment? cs with
    | some rest => some (.moment, rest)
    | none => (word? (cs.takeWhile isWordChar)).map fun v => (v, cs.dropWhile isWordChar)

/-- A table in braces with some pairs. -/
def braced? (pairs : List (Key × Value)) : Option Value :=
  (pairs.foldlM (fun (es : Entries) (p : Key × Value) => es.insert p.1.path p.1.last p.2) []).map
    (.table .closed)

mutual

/-- A value; `room` is how many arrays and tables in braces may be nested in it, itself
    included. -/
def value? (room : Nat) (cs : List Char) : Option (Reading Value cs.length) :=
  match room, cs with
  | room + 1, '[' :: rest => do
    let r ← items? room rest
    return ⟨.array r.value, r.rest, Nat.lt_succ_of_lt r.shorter⟩
  | room + 1, '\x7b' :: rest =>
    match hr : skipBlanks rest with
    | '\x7d' :: after =>
      some ⟨.table .closed [], after, by
        have := length_skipBlanks_le rest
        simp [hr] at this
        simp
        omega⟩
    | _ => do
      let r ← pairs? room rest
      return ⟨← braced? r.value, r.rest, Nat.lt_succ_of_lt r.shorter⟩
  | _, cs => (scalar? cs).bind (Reading.ofPair? cs.length)
termination_by 2 * cs.length

/-- The items of an array, up to the bracket that closes it. -/
def items? (room : Nat) (cs : List Char) : Option (Reading (List Value) cs.length) :=
  match hs : skipFiller false cs with
  | ']' :: rest => Reading.ofPair? cs.length ([], rest)
  | start => do
    have := hs ▸ length_skipFiller_le false cs
    let v ← value? room start
    match skipFiller false v.rest with
    | ']' :: rest => Reading.ofPair? cs.length ([v.value], rest)
    | ',' :: rest =>
      if h : rest.length < cs.length then do
        let r ← items? room rest
        return ⟨v.value :: r.value, r.rest, Nat.lt_trans r.shorter h⟩
      else none
    | _ => none
termination_by 2 * cs.length + 1

/-- The pairs of a table in braces, at least one, up to the brace that closes it. -/
def pairs? (room : Nat) (cs : List Char) : Option (Reading (List (Key × Value)) cs.length) := do
  let k ← Reading.ofPair? cs.length (← keyAssign? cs)
  have := k.shorter
  let v ← value? room k.rest
  match skipBlanks v.rest with
  | '\x7d' :: rest => Reading.ofPair? cs.length ([(k.value, v.value)], rest)
  | ',' :: rest =>
    if h : rest.length < cs.length then do
      let r ← pairs? room rest
      return ⟨(k.value, v.value) :: r.value, r.rest, Nat.lt_trans r.shorter h⟩
    else none
  | _ => none
termination_by 2 * cs.length + 1

end

/-! ## Lines -/

/-- A line of a document. -/
inductive Line where
  | empty
  | table (key : Key)
  | element (key : Key)
  | pair (key : Key) (v : Value)
  deriving Repr

/-- The first line up to its end, and what is left from there on. -/
def statement? (cs : List Char) : Option (Line × List Char) :=
  match skipBlanks cs with
  | [] => some (.empty, [])
  | '#' :: rest => some (.empty, '#' :: rest)
  | '\n' :: rest => some (.empty, '\n' :: rest)
  | '\r' :: rest => some (.empty, '\r' :: rest)
  | '[' :: '[' :: rest =>
    (key? rest).bind fun
      | (key, ']' :: ']' :: rest) => some (.element key, rest)
      | _ => none
  | '[' :: rest =>
    (key? rest).bind fun
      | (key, ']' :: rest) => some (.table key, rest)
      | _ => none
  | rest => do
    let (key, rest) ← keyAssign? rest
    let v ← value? depthLimit rest
    return (.pair key v.value, v.rest)

/-- The lines of a text. -/
def lines? (cs : List Char) : Option (List Line) :=
  if cs.isEmpty then some []
  else do
    let (line, rest) ← statement? cs
    let r ← Reading.ofPair? cs.length (line, ← afterLine? rest)
    return r.value :: (← lines? r.rest)
termination_by cs.length
decreasing_by exact r.shorter

/-! ## Documents -/

/-- A document that is being built: what it holds, and the path of the table that was opened
    last. -/
structure Draft where
  entries : Entries
  opened : List String

/-- Adds a line. -/
def Draft.add (d : Draft) : Line → Option Draft
  | .empty => some d
  | .table key =>
    (d.entries.openTable key.path key.last).map (⟨·, key.path ++ [key.last]⟩)
  | .element key =>
    (d.entries.openElement key.path key.last).map (⟨·, key.path ++ [key.last]⟩)
  | .pair key v =>
    (d.entries.insertAt d.opened key.path key.last v).map (⟨·, d.opened⟩)

/-- The entries of a document.  A byte order mark at its start is dropped. -/
def document? (s : String) : Option Entries := do
  let cs := match s.toList with
    | '\ufeff' :: cs => cs
    | cs => cs
  let draft ← (← lines? cs).foldlM Draft.add ⟨[], []⟩
  return draft.entries

end Erl.Toml
