/-
  Erl.Toml.Reading

  Characters of a document, and what is common to all readers of it.

  A reader takes something from the front of the text and returns the rest, which is shorter.
-/

namespace Erl.Toml

/-- Something read, and the fewer than `bound` characters left. -/
structure Reading (α : Type) (bound : Nat) where
  value : α
  rest : List Char
  shorter : rest.length < bound

/-- A result whose rest is shorter than a bound. -/
def Reading.ofPair? {α : Type} (bound : Nat) (p : α × List Char) : Option (Reading α bound) :=
  if h : p.2.length < bound then some ⟨p.1, p.2, h⟩ else none

/-- A space or tab. -/
def isBlank (c : Char) : Bool :=
  c == ' ' || c == '\t'

/-- A character that comments and texts on one line may hold: a tab, or any that is not a
    control character of ASCII. -/
def isPlain (c : Char) : Bool :=
  c == '\t' || (0x20 ≤ c.toNat && c.toNat != 0x7F)

/-- Drops spaces and tabs. -/
def skipBlanks (cs : List Char) : List Char :=
  cs.dropWhile isBlank

/-- The text after a line end. -/
def afterBreak? : List Char → Option (List Char)
  | '\n' :: cs => some cs
  | '\r' :: '\n' :: cs => some cs
  | _ => none

/-- Drops spaces, tabs and line ends. -/
def skipBreaks : List Char → List Char
  | '\r' :: '\n' :: cs => skipBreaks cs
  | c :: cs => if isBlank c || c == '\n' then skipBreaks cs else c :: cs
  | [] => []

/-- Drops spaces, tabs, line ends and comments; `comment` says whether the text starts inside
    a comment. -/
def skipFiller : (comment : Bool) → List Char → List Char
  | _, '\r' :: '\n' :: cs => skipFiller false cs
  | _, '\n' :: cs => skipFiller false cs
  | true, c :: cs => if isPlain c then skipFiller true cs else c :: cs
  | false, c :: cs =>
    if isBlank c then skipFiller false cs
    else if c == '#' then skipFiller true cs
    else c :: cs
  | _, [] => []

/-- The text after the end of a line, which may be preceded by blanks and a comment.  The end
    of the text ends the last line. -/
def afterLine? (cs : List Char) : Option (List Char) :=
  let rest := match skipBlanks cs with
    | '#' :: cs => cs.dropWhile isPlain
    | cs => cs
  if rest.isEmpty then some [] else afterBreak? rest

theorem length_skipBlanks_le (cs : List Char) : (skipBlanks cs).length ≤ cs.length :=
  (List.dropWhile_sublist isBlank).length_le

theorem length_skipFiller_le (comment : Bool) (cs : List Char) :
    (skipFiller comment cs).length ≤ cs.length := by
  fun_induction skipFiller comment cs <;> grind

end Erl.Toml
