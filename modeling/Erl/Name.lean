/-
  Erl.Name

  Which names a model may declare.

  A name is not blank and holds no space and no sign.  A variable's name also holds no period
  and does not start with a digit; the name of a program or subroutine may.  Of several flaws
  the first in this order is reported.
-/

namespace Erl

/-- Why a name is refused. -/
inductive NameFlaw where
  | empty
  | space
  | minus
  | plus
  | period
  | leadingDigit
  deriving Repr, DecidableEq

namespace NameFlaw

/-- The wording of a flaw. -/
def message : NameFlaw → String
  | empty => "name is blank"
  | space => "name contains a space"
  | minus => "name contains a minus sign"
  | plus => "name contains a plus sign"
  | period => "name contains a period"
  | leadingDigit => "name starts with a digit"

/-- The flaw of a program's or subroutine's name, if it has one. -/
def ofProgram? (name : String) : Option NameFlaw :=
  let cs := name.toList
  if cs.isEmpty then some empty
  else if cs.contains ' ' then some space
  else if cs.contains '-' then some minus
  else if cs.contains '+' then some plus
  else none

/-- The flaw of a variable's, trend's or tie's name, if it has one. -/
def ofVariable? (name : String) : Option NameFlaw :=
  let cs := name.toList
  match ofProgram? name with
  | some flaw => some flaw
  | none =>
    if cs.contains '.' then some period
    else if (cs.take 1).any Char.isDigit then some leadingDigit
    else none

end NameFlaw

end Erl
