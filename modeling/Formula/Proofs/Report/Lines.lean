import Mathlib.Data.List.Forall2
import Mathlib.Data.List.TakeWhile
import Formula.Report.Rows

/-!
# Lines of a text

A text is put together from its lines, each with the line feed behind it, but for the last one,
which may lack it. Carriage returns and line feeds behind a line do not belong to it, and nothing
else is taken away: a line of blanks is not empty. These properties determine the lines, and those
before the first empty one are what a report is about (`beforeEmpty_iff`).
-/

namespace Formula.Report

/-! ## Line feeds -/

/-- The lines that a text is put together from, with their line feeds. -/
inductive SplitInto : List Char → List (List Char) → Prop where
  | nil : SplitInto [] []
  | last {line : List Char} (hne : line ≠ []) (hline : '\n' ∉ line) : SplitInto line [line]
  | cons {line rest : List Char} {raws : List (List Char)} (hline : '\n' ∉ line)
    (h : SplitInto rest raws) : SplitInto (line ++ '\n' :: rest) ((line ++ ['\n']) :: raws)

/-- Characters that are no line feeds belong to the line so far. -/
theorem splitLines_append {line : List Char} (hline : '\n' ∉ line) (before rest : List Char) :
    splitLines before (line ++ rest) = splitLines (line.reverse ++ before) rest := by
  induction line generalizing before with
  | nil => rfl
  | cons c line ih =>
    have hc : ¬ c = '\n' := fun h => hline (h ▸ List.mem_cons_self)
    rw [List.cons_append, splitLines, if_neg hc, ih fun h => hline (List.mem_cons_of_mem c h)]
    simp

/-- With a line so far that has no line feed. -/
theorem splitInto_splitLines {before : List Char} (hbefore : '\n' ∉ before) (cs : List Char) :
    SplitInto (before.reverse ++ cs) (splitLines before cs) := by
  induction cs generalizing before with
  | nil =>
    rw [splitLines, List.append_nil]
    split
    · next h =>
      rw [h]
      exact .nil
    · next h => exact .last (mt List.reverse_eq_nil_iff.mp h) (mt List.mem_reverse.mp hbefore)
  | cons c rest ih =>
    rw [splitLines]
    split
    · next hc =>
      rw [hc, List.reverse_cons]
      exact .cons (mt List.mem_reverse.mp hbefore) (ih List.not_mem_nil)
    · next hc =>
      have hmem : '\n' ∉ c :: before := List.not_mem_cons_of_ne_of_not_mem (Ne.symm hc) hbefore
      simpa using ih hmem

/-- **There is one way to split a text into lines.** -/
theorem splitInto_iff {cs : List Char} {raws : List (List Char)} :
    SplitInto cs raws ↔ raws = splitLines [] cs := by
  constructor
  · intro h
    induction h with
    | nil => rfl
    | @last line hne hline =>
      have hsplit := splitLines_append hline [] []
      rw [List.append_nil, List.append_nil] at hsplit
      rw [hsplit, splitLines, if_neg (mt List.reverse_eq_nil_iff.mp hne), List.reverse_reverse]
    | @cons line rest raws hline h ih =>
      rw [splitLines_append hline, splitLines, if_pos rfl, ← ih]
      simp
  · rintro rfl
    exact splitInto_splitLines List.not_mem_nil cs

/-! ## Line ends -/

/-- A line without the line ends behind it. -/
structure Stripped (raw line : List Char) : Prop where
  ends : ∃ ends, raw = line ++ ends ∧ ∀ c ∈ ends, c = '\r' ∨ c = '\n'
  last : ∀ c ∈ line.getLast?, c ≠ '\r' ∧ c ≠ '\n'

/-- **There is one way to take the line ends away.** -/
theorem stripped_iff {raw line : List Char} : Stripped raw line ↔ stripLineEnd raw = line := by
  constructor
  · rintro ⟨⟨ends, rfl, hends⟩, hlast⟩
    have hdrop : line.reverse.dropWhile (fun c => c = '\r' || c = '\n') = line.reverse := by
      cases hline : line.reverse with
      | nil => rfl
      | cons c rest =>
        obtain ⟨hcr, hlf⟩ := hlast c (by rw [← List.head?_reverse, hline]; rfl)
        exact List.dropWhile_cons_of_neg (by simp [hcr, hlf])
    rw [stripLineEnd, List.reverse_append, List.dropWhile_append_of_pos, hdrop,
      List.reverse_reverse]
    intro c hc
    simpa using hends c (List.mem_reverse.mp hc)
  · rintro rfl
    refine ⟨⟨(raw.reverse.takeWhile fun c => c = '\r' || c = '\n').reverse, ?_, ?_⟩, ?_⟩
    · rw [stripLineEnd, ← List.reverse_append, List.takeWhile_append_dropWhile,
        List.reverse_reverse]
    · intro c hc
      simpa using List.mem_takeWhile_imp (List.mem_reverse.mp hc)
    · intro c hc
      rw [stripLineEnd, List.getLast?_reverse] at hc
      have hhead := List.head?_dropWhile_not (fun c => c = '\r' || c = '\n') raw.reverse
      rw [hc] at hhead
      simpa using hhead

/-! ## Up to the first empty line -/

/-- The lines of a text without their ends, up to the first one that is empty. -/
def BeforeEmpty (text : String) (lines : List String) : Prop :=
  ∃ raws behind, SplitInto text.toList raws ∧
    List.Forall₂ Stripped raws (lines.map String.toList ++ behind) ∧
    "" ∉ lines ∧ ∀ line ∈ behind.head?, line = []

/-- **These are the lines of a report.** -/
theorem beforeEmpty_iff {text : String} {lines : List String} :
    BeforeEmpty text lines ↔ lines = formulas text := by
  have hstripped : ∀ {raws stripped}, List.Forall₂ Stripped raws stripped ↔
      raws.map stripLineEnd = stripped := by
    intro raws stripped
    have heq : Stripped = fun raw line => stripLineEnd raw = line :=
      funext fun _ => funext fun _ => propext stripped_iff
    rw [heq, ← List.forall₂_map_left_iff (R := Eq), List.forall₂_eq_eq_eq]
  constructor
  · rintro ⟨raws, behind, hraws, hlines, hne, hempty⟩
    have hbehind : behind.takeWhile (· ≠ []) = [] := by
      cases behind with
      | nil => rfl
      | cons line rest => simp [hempty line rfl]
    have hlines' : ∀ line ∈ lines.map String.toList, (decide (line ≠ [])) = true := by
      intro line hmem
      obtain ⟨s, hs, rfl⟩ := List.mem_map.mp hmem
      refine decide_eq_true fun h => hne ?_
      rwa [← String.toList_eq_nil_iff.mp h]
    rw [formulas, ← splitInto_iff.mp hraws, hstripped.mp hlines,
      List.takeWhile_append_of_pos hlines', hbehind, List.append_nil, List.map_map]
    simp [Function.comp_def]
  · rintro rfl
    obtain ⟨stripped, hs⟩ : ∃ stripped, (splitLines [] text.toList).map stripLineEnd = stripped :=
      ⟨_, rfl⟩
    have htext : (formulas text).map String.toList = stripped.takeWhile (· ≠ []) := by
      rw [formulas, hs, List.map_map]
      simp [Function.comp_def]
    refine ⟨_, stripped.dropWhile (· ≠ []), splitInto_iff.mpr rfl, ?_, ?_, ?_⟩
    · rw [htext, List.takeWhile_append_dropWhile]
      exact hstripped.mpr hs
    · intro hmem
      have hnil : [] ∈ stripped.takeWhile (· ≠ []) := htext ▸ List.mem_map_of_mem hmem
      simpa using List.mem_takeWhile_imp hnil
    · intro line hline
      have hhead := List.head?_dropWhile_not (· ≠ []) stripped
      rw [hline] at hhead
      simpa using hhead

/-- A line of blanks is not empty. -/
example : formulas "a\r\n \n\r\r\nb" = ["a", " "] := by decide +kernel

end Formula.Report
