/-
  TcpFramework.Lib.RoundRobin — taking turns over a list with a counter.

  Turn `d` of a list is the element at `d` modulo its length.  In `k` consecutive turns
  over `n` different elements, from any `d`, each of them has ⌊k/n⌋ or ⌈k/n⌉ turns: the
  turns of one element are the numbers of one residue class in a window of length `k`.

  Main results:
    * `count_window` — how many numbers of a window are in a residue class.
    * `turns_even` — every element has its share.
-/
import Mathlib.Tactic.Common
import Mathlib.Data.Int.CardIntervalMod
import Mathlib.Data.List.Nodup

namespace RoundRobin

/-! ## §1. Windows of a residue class. -/

/-- The numbers of a residue class among `d, …, d + k - 1`. -/
theorem count_window {n j : Nat} (hj : j < n) (d k : Nat) :
    Nat.count (fun i => (d + i) % n = j) k
      = k / n + if (j + (n - d % n)) % n < k % n then 1 else 0 := by
  have hn : 0 < n := by omega
  have hlt : d % n < n := Nat.mod_lt d hn
  have hback : d + (j + (n - d % n)) ≡ j [MOD n] := by
    have hd : d + (j + (n - d % n)) = j + n * (d / n + 1) := by
      have hdiv := Nat.div_add_mod d n
      rw [Nat.mul_succ]
      omega
    rw [hd]
    exact Nat.add_mul_mod_self_left j n _
  rw [← Nat.count_modEq_card k hn]
  congr 1
  funext i
  have hmod : (d + i) % n = j ↔ d + i ≡ j [MOD n] := by
    unfold Nat.ModEq
    rw [Nat.mod_eq_of_lt hj]
  rw [eq_iff_iff, hmod]
  constructor
  · intro h
    exact Nat.ModEq.add_left_cancel' d (h.trans hback.symm)
  · intro h
    exact (Nat.ModEq.add_left d h).trans hback

/-- So it is the lower or the upper bound of the average. -/
theorem count_window_even {n j : Nat} (hj : j < n) (d k : Nat) :
    Nat.count (fun i => (d + i) % n = j) k = k / n
      ∨ Nat.count (fun i => (d + i) % n = j) k = (k + n - 1) / n := by
  rw [count_window hj]
  split
  next hlt =>
    -- there is a remainder, and the average is rounded up
    have hdiv := Nat.div_add_mod k n
    have hmod : k % n < n := Nat.mod_lt k (by omega)
    refine Or.inr (Nat.div_eq_of_lt_le ?_ ?_).symm
    · rw [Nat.succ_mul, Nat.mul_comm]
      omega
    · rw [Nat.succ_mul, Nat.succ_mul, Nat.mul_comm]
      omega
  next => exact Or.inl rfl

/-! ## §2. Turns. -/

variable {α : Type*}

/-- The elements whose turns are `d, …, d + k - 1`. -/
def turns (l : List α) : Nat → Nat → List α
  | _, 0 => []
  | d, k + 1 => l[d % l.length]?.toList ++ turns l (d + 1) k

theorem turns_succ {l : List α} {d : Nat} {x : α} (hx : l[d % l.length]? = some x) (k : Nat) :
    turns l d (k + 1) = x :: turns l (d + 1) k := by
  rw [turns, hx]
  rfl

/-- Somebody has the turn. -/
theorem exists_turn {l : List α} (hl : 0 < l.length) (d : Nat) :
    ∃ x, l[d % l.length]? = some x :=
  ⟨_, List.getElem?_eq_getElem (Nat.mod_lt d hl)⟩

theorem mem_of_mem_turns {l : List α} {x : α} (k : Nat) :
    ∀ {d : Nat}, x ∈ turns l d k → x ∈ l := by
  induction k with
  | zero => exact fun h => absurd h List.not_mem_nil
  | succ k ih =>
      intro d h
      rcases List.mem_append.mp h with h | h
      · exact List.mem_of_getElem? (Option.mem_toList.mp h)
      · exact ih h

theorem length_turns {l : List α} (hl : 0 < l.length) (k : Nat) :
    ∀ d : Nat, (turns l d k).length = k := by
  induction k with
  | zero => exact fun _ => rfl
  | succ k ih =>
      intro d
      obtain ⟨x, hx⟩ := exists_turn hl d
      rw [turns_succ hx, List.length_cons, ih]

/-- The turns of an element are those whose number is in its class. -/
theorem count_turns [DecidableEq α] {l : List α} (hnd : l.Nodup) {j : Nat} (hj : j < l.length)
    (k : Nat) :
    ∀ d : Nat, (turns l d k).count l[j] = Nat.count (fun i => (d + i) % l.length = j) k := by
  have hl : 0 < l.length := by omega
  induction k with
  | zero => exact fun _ => rfl
  | succ k ih =>
      intro d
      obtain ⟨x, hx⟩ := exists_turn hl d
      -- the first turn is the element's, or it is another's
      have hsame : x = l[j] ↔ d % l.length = j := by
        obtain ⟨hd, rfl⟩ := List.getElem?_eq_some_iff.mp hx
        exact hnd.getElem_inj_iff
      have hsplit := Nat.count_add (fun i => (d + i) % l.length = j) 1 k
      rw [turns_succ hx, List.count_cons, ih, Nat.add_comm k 1, hsplit]
      simp only [← Nat.add_assoc, Nat.count_succ, Nat.count_zero, Nat.add_zero, Nat.zero_add,
        beq_iff_eq]
      by_cases hd : d % l.length = j
      · rw [if_pos (hsame.mpr hd), if_pos hd, Nat.add_comm]
      · rw [if_neg (fun h => hd (hsame.mp h)), if_neg hd, Nat.zero_add]
        rfl

/-- **Every element has its share**, whatever the window. -/
theorem turns_even [DecidableEq α] {l : List α} (hnd : l.Nodup) {x : α} (hx : x ∈ l)
    (d k : Nat) :
    (turns l d k).count x = k / l.length
      ∨ (turns l d k).count x = (k + l.length - 1) / l.length := by
  obtain ⟨j, hj, rfl⟩ := List.getElem_of_mem hx
  rw [count_turns hnd hj]
  exact count_window_even hj d k

end RoundRobin
