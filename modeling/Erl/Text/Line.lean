/-
  Erl.Text.Line

  Blanks, and the lines of a text.

  A blank is a character with the Unicode property `White_Space`.  A text is cut into
  lines at line feeds; a carriage return right before a line feed belongs to the line end,
  and a last line without a line feed counts when it holds a character.
-/

namespace Erl.Text

/-- A blank: a character with the property `White_Space`. -/
def isBlank (c : Char) : Bool :=
  let code := c.toNat
  (0x9 ≤ code && code ≤ 0xD) || code == 0x20 || code == 0x85 || code == 0xA0 || code == 0x1680
    || (0x2000 ≤ code && code ≤ 0x200A) || code == 0x2028 || code == 0x2029 || code == 0x202F
    || code == 0x205F || code == 0x3000

/-- Drops the blanks at the start. -/
def trimStart (cs : List Char) : List Char :=
  cs.dropWhile isBlank

/-- Drops the blanks at both ends. -/
def trim (cs : List Char) : List Char :=
  (trimStart (trimStart cs).reverse).reverse

/-- A string without the blanks at its ends. -/
def trimmed (s : String) : String :=
  String.ofList (trim s.toList)

/-- Drops one carriage return at the end. -/
def dropReturn (cs : List Char) : List Char :=
  if cs.getLast? = some '\r' then cs.dropLast else cs

/-- The pieces between the line feeds of a text: one more than it has line feeds. -/
def cutAtFeeds : List Char → List (List Char)
  | [] => [[]]
  | c :: cs =>
    if c = '\n' then [] :: cutAtFeeds cs
    else match cutAtFeeds cs with
      | [] => [[c]]
      | piece :: pieces => (c :: piece) :: pieces

/-- The lines of a text, without their line ends. -/
def lines (cs : List Char) : List (List Char) :=
  let pieces := cutAtFeeds cs
  pieces.dropLast.map dropReturn ++ (pieces.getLast?.toList.filter (· ≠ []))

end Erl.Text
