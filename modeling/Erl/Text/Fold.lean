/-
  Erl.Text.Fold

  Letter case in names.

  Names, keywords and function names are told apart without regard to the case of the
  letters `a` to `z`.  Two spellings name the same thing when they fold to the same text;
  letters outside ASCII keep their case.
-/

namespace Erl.Text

/-- The text with its ASCII letters in upper case. -/
def fold (s : String) : String :=
  String.ofList (s.toList.map Char.toUpper)

/-- Whether two spellings agree up to the case of ASCII letters. -/
def sameName (a b : String) : Bool :=
  fold a == fold b

end Erl.Text
