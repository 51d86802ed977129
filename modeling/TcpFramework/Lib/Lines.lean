/-
  TcpFramework.Lib.Lines — std::getline over a list, and joined text.

  `getline` takes what is before the next delimiter, and the delimiter with it; it fails
  only when nothing is left.  `lines` is what a loop over it sees.  It inverts the joining
  of nonempty pieces without delimiters (`lines_intercalate`), and of no others: an empty
  last piece is lost.
-/
import Mathlib.Tactic.Common
import Mathlib.Data.List.TakeWhile

namespace Lines

variable {α : Type*} [DecidableEq α]

/-- One call of getline: the line, and what is left. -/
def getline (d : α) (s : List α) : Option (List α × List α) :=
  if s = [] then none
  else some (s.takeWhile fun c => c ≠ d, (s.dropWhile fun c => c ≠ d).tail)

/-- A call leaves less than there was. -/
theorem getline_length {d : α} {s line rest : List α} (h : getline d s = some (line, rest)) :
    rest.length < s.length := by
  unfold getline at h
  split at h
  next => exact absurd h (by simp)
  next hs =>
    have hrest : (s.dropWhile fun c => c ≠ d).tail = rest := (Prod.mk.inj (Option.some.inj h)).2
    have hdrop : (s.dropWhile fun c => c ≠ d).length ≤ s.length :=
      (List.dropWhile_suffix _).length_le
    have hpos := List.length_pos_iff.mpr hs
    rw [← hrest, List.length_tail]
    omega

/-- The lines that `while (getline(..))` goes through. -/
def lines (d : α) (s : List α) : List (List α) :=
  match _h : getline d s with
  | none => []
  | some (line, rest) => line :: lines d rest
termination_by s.length
decreasing_by exact getline_length (by assumption)

theorem lines_of_getline {d : α} {s line rest : List α} (h : getline d s = some (line, rest)) :
    lines d s = line :: lines d rest := by
  rw [lines]
  split
  next hnone => exact absurd (h.symm.trans hnone) (by simp)
  next line' rest' hsome =>
    obtain ⟨rfl, rfl⟩ := Prod.mk.inj (Option.some.inj (h.symm.trans hsome))
    rfl

theorem lines_nil (d : α) : lines d [] = [] := by
  rw [lines]
  rfl

theorem keeps_of_not_mem {d : α} {piece : List α} (h : d ∉ piece) :
    ∀ c ∈ piece, decide (c ≠ d) = true := by
  intro c hc
  rw [decide_eq_true_eq]
  intro heq
  exact h (heq ▸ hc)

/-- A piece that the delimiter ends. -/
theorem lines_delimited {d : α} {piece : List α} (h : d ∉ piece) (rest : List α) :
    lines d (piece ++ d :: rest) = piece :: lines d rest := by
  have hpiece := keeps_of_not_mem h
  refine lines_of_getline ?_
  unfold getline
  rw [if_neg (by simp), List.takeWhile_append_of_pos hpiece, List.dropWhile_append_of_pos hpiece]
  simp

/-- A piece that the end of the text ends. -/
theorem lines_last {d : α} {piece : List α} (h : d ∉ piece) (hne : piece ≠ []) :
    lines d piece = [piece] := by
  have hpiece := keeps_of_not_mem h
  have hline : getline d piece = some (piece, []) := by
    unfold getline
    rw [if_neg hne, List.takeWhile_eq_self_iff.mpr hpiece, List.dropWhile_eq_nil_iff.mpr hpiece]
    rfl
  rw [lines_of_getline hline, lines_nil]

/-- Only the empty text has no lines. -/
theorem lines_eq_nil_iff {d : α} {s : List α} : lines d s = [] ↔ s = [] := by
  constructor
  · intro h
    by_contra hs
    have hline : getline d s
        = some (s.takeWhile fun c => c ≠ d, (s.dropWhile fun c => c ≠ d).tail) := if_neg hs
    rw [lines_of_getline hline] at h
    exact absurd h (by simp)
  · intro h
    rw [h]
    exact lines_nil d

/-- A line has no delimiter. -/
theorem not_mem_of_mem_lines {d : α} {s line : List α} (h : line ∈ lines d s) : d ∉ line := by
  fun_induction lines d s with
  | case1 s hnone => exact absurd h List.not_mem_nil
  | case2 s first rest hsome ih =>
      rcases List.mem_cons.mp h with rfl | h
      · unfold getline at hsome
        split at hsome
        next => exact absurd hsome (by simp)
        next =>
          obtain ⟨rfl, -⟩ := Prod.mk.inj (Option.some.inj hsome)
          intro hd
          have hne := List.mem_takeWhile_imp hd
          exact absurd hne (by simp)
      · exact ih h

/-- **Reading inverts joining.** -/
theorem lines_intercalate (d : α) {pieces : List (List α)}
    (h : ∀ piece ∈ pieces, d ∉ piece ∧ piece ≠ []) :
    lines d ([d].intercalate pieces) = pieces := by
  induction pieces with
  | nil => exact lines_nil d
  | cons piece pieces ih =>
      obtain ⟨hd, hne⟩ := h piece List.mem_cons_self
      -- the last piece is ended by the end of the text, the others by a delimiter
      cases pieces with
      | nil =>
          rw [List.intercalate_singleton]
          exact lines_last hd hne
      | cons next pieces =>
          rw [List.intercalate_cons_cons, List.append_assoc]
          show lines d (piece ++ d :: [d].intercalate (next :: pieces)) = _
          rw [lines_delimited hd, ih fun p hp => h p (List.mem_cons_of_mem _ hp)]

end Lines
