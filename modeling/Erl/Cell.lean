/-
  Erl.Cell

  The quantities of the host that programs read and control.

  A cell holds a number, an integer of 32 bits or a truth value.  Every value is read and
  written as a number; a write is coerced to what the cell can hold.
-/

import Erl.Number.Integral

namespace Erl

/-- What a controlled quantity can hold. -/
inductive Storage where
  | real
  | integer
  | logical
  deriving Repr, DecidableEq

/-- The nearest integer that a cell can hold, a half away from zero. -/
def nearestInteger (x : Float) : Int :=
  Number.toInt32 (Number.round x)

/-- A number as the storage would hold it. -/
def Storage.coerce : Storage → Float → Float
  | real, x => x
  | integer, x => Float.ofInt (nearestInteger x)
  | logical, x => if x != 0.0 then 1.0 else 0.0

/-- A quantity of the host. -/
inductive Cell where
  | real (x : Float)
  | integer (n : Int)
  | logical (b : Bool)
  deriving Repr, DecidableEq, Inhabited

namespace Cell

/-- The quantity as a number. -/
def read : Cell → Float
  | real x => x
  | integer n => Float.ofInt n
  | logical b => if b then 1.0 else 0.0

/-- Writes a number; an integer cell takes the nearest integer. -/
def write : Cell → Float → Cell
  | real _, x => real x
  | integer _, x => integer (nearestInteger x)
  | logical _, x => logical (x != 0.0)

/-- Lets the host change the quantity; an integer cell drops the fraction. -/
def assign : Cell → Float → Cell
  | real _, x => real x
  | integer _, x => integer (Number.toInt32 x)
  | logical _, x => logical (x != 0.0)

/-- A cell of a storage that starts with a number. -/
def ofStorage (storage : Storage) (x : Float) : Cell :=
  match storage with
  | .real => real x
  | .integer => (integer 0).assign x
  | .logical => (logical false).assign x

end Cell

/-- Position of a cell among those of the host. -/
abbrev CellId := Nat

/-- The cells of a host. -/
abbrev Cells := Array Cell

/-- The number in a cell. -/
def Cells.read (cells : Cells) (id : CellId) : Float :=
  match cells[id]? with
  | some cell => cell.read
  | none => 0.0

end Erl
