/-
  Erl.Proofs.Text.Line

  Blanks around a text, and its lines.

  Trimming leaves a text without blanks at its ends, and it does not see blanks that are put there.
  A text is cut at its line feeds, so what stands before a line feed and what stands after it are
  cut by themselves.
-/

import Mathlib.Data.List.DropRight
import Erl.Text.Line

namespace Erl.Text

/-! ## Trimming -/

theorem trim_eq_rdropWhile (cs : List Char) : trim cs = (trimStart cs).rdropWhile isBlank :=
  rfl

theorem mem_of_mem_trim {c : Char} {cs : List Char} (h : c ∈ trim cs) : c ∈ cs := by
  have hstart := (List.rdropWhile_prefix isBlank (trimStart cs)).mem h
  exact (List.dropWhile_sublist isBlank).mem hstart

/-- A text is what is left of it by trimming, with blanks before and after it. -/
theorem exists_trim (cs : List Char) :
    ∃ lead trail, cs = lead ++ (trim cs ++ trail) ∧ (∀ c ∈ lead, isBlank c = true)
      ∧ ∀ c ∈ trail, isBlank c = true := by
  refine ⟨cs.takeWhile isBlank, (trimStart cs).rtakeWhile isBlank, ?_, ?_, ?_⟩
  · rw [trim_eq_rdropWhile, List.rdropWhile_append_rtakeWhile, trimStart,
      List.takeWhile_append_dropWhile]
  · exact fun c hc => List.mem_takeWhile_imp hc
  · exact fun c hc => List.mem_rtakeWhile_imp hc

/-- Trimming does not see blanks before a text. -/
theorem trim_append_left {blanks : List Char} (h : ∀ c ∈ blanks, isBlank c = true)
    (cs : List Char) : trim (blanks ++ cs) = trim cs := by
  rw [trim_eq_rdropWhile, trimStart, List.dropWhile_append_of_pos h]
  rfl

theorem rdropWhile_append_blanks {blanks : List Char} (h : ∀ c ∈ blanks, isBlank c = true)
    (cs : List Char) : (cs ++ blanks).rdropWhile isBlank = cs.rdropWhile isBlank := by
  have hreverse : ∀ c ∈ blanks.reverse, isBlank c = true := fun c hc =>
    h c (List.mem_reverse.1 hc)
  rw [List.rdropWhile, List.reverse_append, List.dropWhile_append_of_pos hreverse]
  rfl

/-- Trimming does not see blanks after a text. -/
theorem trim_append_right {blanks : List Char} (h : ∀ c ∈ blanks, isBlank c = true)
    (cs : List Char) : trim (cs ++ blanks) = trim cs := by
  rw [trim_eq_rdropWhile, trim_eq_rdropWhile, trimStart, trimStart, List.dropWhile_append]
  split
  · next hempty =>
    -- the text itself is blank, so nothing is left on either side
    have hnone : blanks.dropWhile isBlank = [] := List.dropWhile_eq_nil_iff.2 h
    rw [hnone, List.isEmpty_iff.1 hempty]
  · exact rdropWhile_append_blanks h _

theorem trimStart_head {cs rest : List Char} {c : Char} (h : trimStart cs = c :: rest) :
    isBlank c ≠ true := by
  have hnot := List.head?_dropWhile_not isBlank cs
  rw [show cs.dropWhile isBlank = c :: rest from h] at hnot
  simpa using hnot

/-- What a text starts with, blanks aside, it starts with when it is trimmed. -/
theorem head?_trim (cs : List Char) : (trim cs).head? = (trimStart cs).head? := by
  cases hstart : trimStart cs with
  | nil => rw [trim_eq_rdropWhile, hstart, List.rdropWhile_nil]
  | cons c rest =>
    -- the first character ends the blanks at the end, if nothing else does
    have hne : trim cs ≠ [] := by
      rw [trim_eq_rdropWhile, hstart, ne_eq, List.rdropWhile_eq_nil_iff]
      exact fun hall => trimStart_head hstart (hall c List.mem_cons_self)
    obtain ⟨d, kept, hkept⟩ := List.exists_cons_of_ne_nil hne
    have hprefix : trim cs <+: c :: rest := hstart ▸ List.rdropWhile_prefix isBlank (trimStart cs)
    rw [hkept] at hprefix ⊢
    rw [(List.cons_prefix_cons.1 hprefix).1]
    rfl

/-- A trimmed text does not start with a blank. -/
theorem trim_head {raw rest : List Char} {c : Char} (h : trim raw = c :: rest) :
    isBlank c ≠ true := by
  have hhead := head?_trim raw
  rw [h] at hhead
  cases hstart : trimStart raw with
  | nil => rw [hstart] at hhead; cases hhead
  | cons d kept =>
    rw [hstart] at hhead
    cases hhead
    exact trimStart_head hstart

theorem trim_dropReturn (cs : List Char) : trim (dropReturn cs) = trim cs := by
  unfold dropReturn
  split
  · next hlast =>
    obtain ⟨before, rfl⟩ := List.getLast?_eq_some_iff.1 hlast
    rw [List.dropLast_concat, trim_append_right (List.forall_mem_singleton.2 rfl)]
  · rfl

/-! ## Lines -/

theorem cutAtFeeds_eq_splitOn (cs : List Char) : cutAtFeeds cs = cs.splitOn '\n' := by
  induction cs with
  | nil => rfl
  | cons c rest ih =>
    rw [cutAtFeeds, ih, List.splitOn_cons_eq_if_modifyHead]
    by_cases hc : c = '\n'
    · rw [if_pos hc, if_pos (beq_iff_eq.2 hc)]
    · rw [if_neg hc, if_neg (by simpa using hc)]
      cases hsplit : rest.splitOn '\n' with
      | nil => exact absurd hsplit (List.splitOn_ne_nil _ _)
      | cons piece pieces => rfl

theorem cutAtFeeds_ne_nil (cs : List Char) : cutAtFeeds cs ≠ [] := by
  rw [cutAtFeeds_eq_splitOn]
  exact List.splitOn_ne_nil _ _

/-- What stands before a line feed and what stands after it are cut by themselves. -/
theorem cutAtFeeds_append (before after : List Char) :
    cutAtFeeds (before ++ '\n' :: after) = cutAtFeeds before ++ cutAtFeeds after := by
  rw [cutAtFeeds_eq_splitOn, List.splitOn_append_cons_self, cutAtFeeds_eq_splitOn,
    cutAtFeeds_eq_splitOn]

theorem cutAtFeeds_of_not_mem {cs : List Char} (h : '\n' ∉ cs) : cutAtFeeds cs = [cs] := by
  rw [cutAtFeeds_eq_splitOn, List.splitOn_eq_singleton h]

/-- A line starts after the text. -/
def AtLineStart (before : List Char) : Prop :=
  before = [] ∨ ∃ text, before = text ++ ['\n']

/-- A line ends before the text. -/
def AtLineEnd (after : List Char) : Prop :=
  after = [] ∨ ∃ text, after = '\n' :: text

/-- What stands before the start of a line is cut in the same way whatever comes after it. -/
theorem AtLineStart.cutAtFeeds {before : List Char} (h : AtLineStart before) :
    ∃ pieces, ∀ after, cutAtFeeds (before ++ after) = pieces ++ Text.cutAtFeeds after := by
  obtain rfl | ⟨text, rfl⟩ := h
  · exact ⟨[], fun _ => rfl⟩
  · refine ⟨Text.cutAtFeeds text, fun after => ?_⟩
    rw [List.append_assoc]
    exact cutAtFeeds_append text after

/-- A text is its last line, which may be empty, after the start of a line. -/
theorem exists_lastLine (cs : List Char) :
    ∃ before last, cs = before ++ last ∧ AtLineStart before ∧ '\n' ∉ last := by
  refine ⟨cs.rdropWhile (· ≠ '\n'), cs.rtakeWhile (· ≠ '\n'), ?_, ?_, ?_⟩
  · exact (List.rdropWhile_append_rtakeWhile ..).symm
  · by_cases hnil : cs.rdropWhile (· ≠ '\n') = []
    · exact .inl hnil
    · have hlast := List.rdropWhile_last_not (· ≠ '\n') cs hnil
      refine .inr ⟨(cs.rdropWhile (· ≠ '\n')).dropLast, ?_⟩
      have hsplit := List.dropLast_append_getLast hnil
      rw [show (cs.rdropWhile (· ≠ '\n')).getLast hnil = '\n' by simpa using hlast] at hsplit
      exact hsplit.symm
  · intro hmem
    simpa using List.mem_rtakeWhile_imp hmem

/-- Blanks at the start of the first line are not seen when the lines are trimmed. -/
theorem map_trim_cutAtFeeds_left {blanks : List Char} (hblank : ∀ c ∈ blanks, isBlank c = true)
    (hfeed : '\n' ∉ blanks) (after : List Char) :
    (cutAtFeeds (blanks ++ after)).map trim = (cutAtFeeds after).map trim := by
  induction blanks with
  | nil => rfl
  | cons c rest ih =>
    obtain ⟨hc, hrest⟩ := List.forall_mem_cons.1 hblank
    obtain ⟨hne, hfeed⟩ : '\n' ≠ c ∧ '\n' ∉ rest := by simpa using hfeed
    rw [List.cons_append, cutAtFeeds, if_neg (Ne.symm hne), ← ih hrest hfeed]
    cases hcut : cutAtFeeds (rest ++ after) with
    | nil => exact absurd hcut (cutAtFeeds_ne_nil _)
    | cons piece pieces =>
      have hpiece := trim_append_left (List.forall_mem_singleton.2 hc) piece
      exact congrArg (· :: pieces.map trim) hpiece

/-- Blanks at the end of the last line are not seen when the lines are trimmed. -/
theorem map_trim_cutAtFeeds_right {blanks : List Char} (hblank : ∀ c ∈ blanks, isBlank c = true)
    (hfeed : '\n' ∉ blanks) (before : List Char) :
    (cutAtFeeds (before ++ blanks)).map trim = (cutAtFeeds before).map trim := by
  obtain ⟨start, last, rfl, hstart, hlast⟩ := exists_lastLine before
  obtain ⟨pieces, hpieces⟩ := hstart.cutAtFeeds
  have hall : '\n' ∉ last ++ blanks := by simp [hlast, hfeed]
  rw [List.append_assoc, hpieces, hpieces, cutAtFeeds_of_not_mem hall, cutAtFeeds_of_not_mem hlast,
    List.map_append, List.map_append, List.map_singleton, List.map_singleton,
    trim_append_right hblank]

/-- Without the empty ones, the trimmed lines of a text are its trimmed pieces between line
    feeds. -/
theorem filter_trim_lines (keep : List Char → Bool) (hnil : keep [] = false) (cs : List Char) :
    ((lines cs).map trim).filter keep = ((cutAtFeeds cs).map trim).filter keep := by
  obtain ⟨init, last, hcut⟩ : ∃ init last, cutAtFeeds cs = init ++ [last] :=
    ⟨_, _, (List.dropLast_append_getLast (cutAtFeeds_ne_nil cs)).symm⟩
  have hinit : (init.map dropReturn).map trim = init.map trim := by
    rw [List.map_map]
    exact List.map_congr_left fun piece _ => trim_dropReturn piece
  unfold lines
  dsimp only
  rw [hcut, List.dropLast_concat, List.getLast?_concat, List.map_append, List.map_append, hinit,
    List.filter_append, List.filter_append]
  congr 1
  -- the last piece is a line only if it holds a character
  by_cases hlast : last = []
  · subst hlast
    simp [trim, trimStart, hnil]
  · simp [hlast]

end Erl.Text
