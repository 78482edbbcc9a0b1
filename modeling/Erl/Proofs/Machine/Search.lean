/-
  Erl.Proofs.Machine.Search

  Trends and programs by name.

  Running code finds trends and programs by way of the indexes of their catalogs.  Each index finds
  what a search of the entries finds, so that names can be reasoned about without the indexes.
-/

import Erl.Machine.Basic

namespace Erl

/-- The trend with a name, in any letter case. -/
def trendNamed? (trends : Array Trend) (name : String) : Option TrendId :=
  trends.findIdx? fun t => Text.sameName t.name name

/-- The program with a name, in any letter case. -/
def programNamed? (programs : Array Program) (name : String) : Option ProgramId :=
  programs.findIdx? fun p => Text.sameName p.name name

variable {a b : String}

theorem trendNamed?_congr (trends : Array Trend) (h : Text.sameName a b = true) :
    trendNamed? trends a = trendNamed? trends b := by
  have hfold : Text.fold a = Text.fold b := beq_iff_eq.1 h
  simp only [trendNamed?, Text.sameName, hfold]

theorem programNamed?_congr (programs : Array Program) (h : Text.sameName a b = true) :
    programNamed? programs a = programNamed? programs b := by
  have hfold : Text.fold a = Text.fold b := beq_iff_eq.1 h
  simp only [programNamed?, Text.sameName, hfold]

theorem lt_size_of_trendNamed? {trends : Array Trend} {name : String} {id : TrendId}
    (h : trendNamed? trends name = some id) : id < trends.size :=
  (Array.findIdx?_eq_some_iff_getElem.1 h).1

/-! ## Indexes -/

/-- The index of trends finds what a search finds. -/
theorem find?_eq_trendNamed? (t : Catalog Trend.foldedName) (name : String) :
    t.find? (Text.fold name) = trendNamed? t.entries name :=
  t.find?_eq fun _ => beq_iff_eq

/-- The index of programs finds what a search finds. -/
theorem find?_eq_programNamed? (t : Catalog Program.foldedName) (name : String) :
    t.find? (Text.fold name) = programNamed? t.entries name :=
  t.find?_eq fun _ => beq_iff_eq

namespace Image

theorem findTrend?_eq (img : Image) (name : String) :
    img.findTrend? name = trendNamed? img.trends name :=
  find?_eq_trendNamed? img.trendCatalog name

theorem findProgram?_eq (img : Image) (name : String) :
    img.findProgram? name = programNamed? img.programs name :=
  find?_eq_programNamed? img.programCatalog name

end Image

end Erl
