/-
  TcpFramework.Lib.Handout — numbers that are handed out, and settled once.

  Any number of workers take the numbers 0, 1, 2, … from a counter, each holding at most
  one at a time, and settle the number they hold.  `Handout.Once` says that nothing is lost
  and nothing happens twice: a number that has been handed out is settled or held, not
  both, settled once and held by one worker.

  Taking and settling keep it, in any order and by whatever workers.
-/
import Mathlib.Logic.Function.Basic
import Mathlib.Data.List.Nodup
import Mathlib.Tactic.Common

/-- The counter, what each worker holds, and what has been settled, in that order. -/
structure Handout (ω : Type*) where
  taken : Nat
  holds : ω → Option Nat
  settled : List Nat

namespace Handout

variable {ω : Type*}

/-- Nothing has been handed out. -/
def start : Handout ω := ⟨0, fun _ => none, []⟩

variable [DecidableEq ω]

/-- The worker takes the next number. -/
def take (t : ω) (h : Handout ω) : Handout ω :=
  { h with taken := h.taken + 1, holds := Function.update h.holds t (some h.taken) }

/-- The worker settles what it holds. -/
def settle (t : ω) (h : Handout ω) : Handout ω :=
  { h with holds := Function.update h.holds t none, settled := h.settled ++ (h.holds t).toList }

/-- Exactly once. -/
structure Once (h : Handout ω) : Prop where
  accounted : ∀ n, n < h.taken ↔ n ∈ h.settled ∨ ∃ t, h.holds t = some n
  apart : ∀ t n, h.holds t = some n → n ∉ h.settled
  single : ∀ t t' n, h.holds t = some n → h.holds t' = some n → t = t'
  nodup : h.settled.Nodup

omit [DecidableEq ω] in
theorem Once.start : (Handout.start : Handout ω).Once where
  accounted := fun n => by simp [Handout.start]
  apart := fun t n hn => by simp [Handout.start] at hn
  single := fun t t' n hn => by simp [Handout.start] at hn
  nodup := List.nodup_nil

omit [DecidableEq ω] in
/-- A number that is held has been handed out. -/
theorem Once.held_lt {h : Handout ω} (hh : h.Once) {t : ω} {n : Nat} (ht : h.holds t = some n) :
    n < h.taken := (hh.accounted n).mpr (Or.inr ⟨t, ht⟩)

theorem holds_take {h : Handout ω} {t : ω} (t' : ω) :
    (h.take t).holds t' = if t' = t then some h.taken else h.holds t' := by
  by_cases ht : t' = t <;> simp [take, ht]

/-- **Taking**, by a worker that holds nothing. -/
theorem Once.take {h : Handout ω} (hh : h.Once) {t : ω} (hfree : h.holds t = none) :
    (h.take t).Once where
  accounted := by
    intro n
    show n < h.taken + 1 ↔ _
    rw [Nat.lt_succ_iff_lt_or_eq, hh.accounted n, or_assoc]
    refine or_congr_right ?_
    constructor
    · rintro (⟨t', ht'⟩ | rfl)
      · -- the worker that takes is another one
        have hne : t' ≠ t := fun he => by rw [he, hfree] at ht'; exact absurd ht' (by simp)
        exact ⟨t', by rw [holds_take, if_neg hne, ht']⟩
      · exact ⟨t, by rw [holds_take, if_pos rfl]⟩
    · rintro ⟨t', ht'⟩
      rw [holds_take] at ht'
      split at ht'
      · exact Or.inr (Option.some.inj ht').symm
      · exact Or.inl ⟨t', ht'⟩
  apart := by
    intro t' n ht'
    rw [holds_take] at ht'
    split at ht'
    · obtain rfl := Option.some.inj ht'
      exact fun hmem => Nat.lt_irrefl _ ((hh.accounted _).mpr (Or.inl hmem))
    · exact hh.apart t' n ht'
  single := by
    intro t₁ t₂ n h₁ h₂
    have hnew : ∀ {t'}, h.holds t' = some n → n ≠ h.taken := fun ht' =>
      Nat.ne_of_lt (hh.held_lt ht')
    rw [holds_take] at h₁ h₂
    split at h₁ <;> split at h₂
    next h1 h2 => rw [h1, h2]
    next => exact absurd (Option.some.inj h₁).symm (hnew h₂)
    next => exact absurd (Option.some.inj h₂).symm (hnew h₁)
    next => exact hh.single t₁ t₂ n h₁ h₂
  nodup := hh.nodup

theorem holds_settle {h : Handout ω} {t : ω} (t' : ω) :
    (h.settle t).holds t' = if t' = t then none else h.holds t' := by
  by_cases ht : t' = t <;> simp [settle, ht]

/-- **Settling**, by a worker that holds a number. -/
theorem Once.settle {h : Handout ω} (hh : h.Once) {t : ω} {n : Nat} (ht : h.holds t = some n) :
    (h.settle t).Once := by
  have hsettled : (h.settle t).settled = h.settled ++ [n] := by
    show h.settled ++ (h.holds t).toList = _
    rw [ht]
    rfl
  refine ⟨fun m => ?_, fun t' m hm => ?_, fun t₁ t₂ m h₁ h₂ => ?_, ?_⟩
  · show m < h.taken ↔ _
    rw [hh.accounted m, hsettled, List.mem_append, List.mem_singleton, or_assoc]
    refine or_congr_right ?_
    constructor
    · rintro ⟨t', ht'⟩
      by_cases he : t' = t
      · subst he
        exact Or.inl (Option.some.inj (ht'.symm.trans ht))
      · exact Or.inr ⟨t', by rw [holds_settle, if_neg he, ht']⟩
    · rintro (rfl | ⟨t', ht'⟩)
      · exact ⟨t, ht⟩
      · rw [holds_settle] at ht'
        split at ht'
        · exact absurd ht' (by simp)
        · exact ⟨t', ht'⟩
  · rw [holds_settle] at hm
    split at hm
    · exact absurd hm (by simp)
    next hne =>
      rw [hsettled, List.mem_append, List.mem_singleton, not_or]
      refine ⟨hh.apart t' m hm, ?_⟩
      rintro rfl
      exact hne (hh.single t' t m hm ht)
  · rw [holds_settle] at h₁ h₂
    split at h₁
    · exact absurd h₁ (by simp)
    · split at h₂
      · exact absurd h₂ (by simp)
      · exact hh.single t₁ t₂ m h₁ h₂
  · rw [hsettled]
    refine List.Nodup.append hh.nodup (List.nodup_singleton n) ?_
    intro m hm hmn
    rw [List.mem_singleton.mp hmn] at hm
    exact hh.apart t n ht hm

omit [DecidableEq ω] in
/-- When nobody holds anything, what has been handed out is settled, each number once. -/
theorem Once.all_settled {h : Handout ω} (hh : h.Once) (hidle : ∀ t, h.holds t = none) :
    h.settled.Perm (List.range h.taken) := by
  refine (List.perm_ext_iff_of_nodup hh.nodup List.nodup_range).mpr (fun n => ?_)
  rw [List.mem_range, hh.accounted n]
  simp [hidle]

end Handout
