/-
  TcpFramework.IdMgr — the identifiers that IDMgr gives out.

  getID counts from 0 to 65535 and starts over; the guard makes a call atomic, so that the
  calls of all threads are one sequence.  The numbers are turns over 0, …, 65535
  (Lib.RoundRobin), wherever the sequence is looked at.

  Main results:
    * `IDMgr.ids_eq_turns` — what consecutive calls return.
    * `ids_apart` — at most 65536 calls in a row return different identifiers, and any number
      of them use all identifiers evenly.
-/
import TcpFramework.Lib.RoundRobin

namespace TcpFramework

open RoundRobin

/-! ## §1. getID. -/

/-- IDMgr: its counter m_id. -/
structure IDMgr where
  mId : Int
  deriving DecidableEq

namespace IDMgr

/-- The constructor. -/
def start : IDMgr := ⟨0⟩

/-- `getID`. -/
def getID (s : IDMgr) : Int × IDMgr :=
  let id := if s.mId > 65535 then 0 else s.mId
  (id, ⟨id + 1⟩)

/-- What `k` consecutive calls return, whoever makes them. -/
def ids : Nat → IDMgr → List Int
  | 0, _ => []
  | k + 1, s => s.getID.1 :: ids k s.getID.2

/-! ## §2. The calls as turns. -/

/-- The counter after `d` calls: it stands at 65536 before it starts over. -/
structure At (s : IDMgr) (d : Nat) : Prop where
  least : 0 ≤ s.mId
  most : s.mId ≤ 65536
  turn : s.mId % 65536 = d % 65536

theorem At.start : IDMgr.start.At 0 := ⟨Int.le_refl 0, by decide, rfl⟩

/-- One call. -/
theorem At.getID {s : IDMgr} {d : Nat} (h : s.At d) :
    s.getID.1 = (d % 65536 : Nat) ∧ s.getID.2.At (d + 1) := by
  obtain ⟨hleast, hmost, hturn⟩ := h
  have hid : s.getID.1 = (d % 65536 : Nat) := by
    show (if s.mId > 65535 then 0 else s.mId) = _
    split <;> omega
  have hnext : s.getID.2.mId = s.getID.1 + 1 := rfl
  exact ⟨hid, by omega, by omega, by omega⟩

theorem At.calls {s : IDMgr} {d : Nat} (h : s.At d) (m : Nat) :
    ((fun s => (IDMgr.getID s).2)^[m] s).At (d + m) := by
  induction m generalizing s d with
  | zero => exact h
  | succ m ih =>
      have hm : d + (m + 1) = d + 1 + m := by omega
      rw [Function.iterate_succ_apply, hm]
      exact ih h.getID.2

/-- The calls are turns over the identifiers. -/
theorem ids_eq_turns {s : IDMgr} {d : Nat} (h : s.At d) (k : Nat) :
    ids k s = (turns (List.range 65536) d k).map Nat.cast := by
  induction k generalizing s d with
  | zero => rfl
  | succ k ih =>
      obtain ⟨hid, hnext⟩ := h.getID
      have hlt : d % 65536 < 65536 := Nat.mod_lt d (by omega)
      have hturn : (List.range 65536)[d % (List.range 65536).length]? = some (d % 65536) := by
        rw [List.length_range]
        exact List.getElem?_range hlt
      rw [turns_succ hturn, List.map_cons, ← ih hnext, ← hid]
      rfl

end IDMgr

/-! ## §3. Identifiers. -/

/-- What consecutive calls return: numbers from 0 to 65535, none of them twice if there are
at most 65536 calls, and each of them as often as any other, or once more. -/
structure IDMgr.Apart (l : List Int) : Prop where
  range : ∀ id ∈ l, 0 ≤ id ∧ id ≤ 65535
  distinct : l.length ≤ 65536 → l.Nodup
  even : ∀ id, 0 ≤ id → id ≤ 65535 →
    l.count id = l.length / 65536 ∨ l.count id = (l.length + 65535) / 65536

/-- **Identifiers are kept apart** in every window of `k` calls, after any number `m` of
calls, whichever threads make them. -/
theorem ids_apart (m k : Nat) :
    IDMgr.Apart (IDMgr.ids k ((fun s => (IDMgr.getID s).2)^[m] IDMgr.start)) := by
  have hturns := IDMgr.ids_eq_turns (IDMgr.At.start.calls m) k
  generalize IDMgr.ids k _ = l at hturns
  have hlen : l.length = k := by
    rw [hturns, List.length_map, length_turns]
    rw [List.length_range]
    omega
  have hrange : ∀ id ∈ l, 0 ≤ id ∧ id ≤ 65535 := by
    intro id hid
    rw [hturns] at hid
    obtain ⟨j, hj, rfl⟩ := List.mem_map.mp hid
    have hlt := List.mem_range.mp (mem_of_mem_turns k hj)
    omega
  have heven : ∀ id, 0 ≤ id → id ≤ 65535 →
      l.count id = l.length / 65536 ∨ l.count id = (l.length + 65535) / 65536 := by
    intro id hleast hmost
    obtain ⟨j, rfl⟩ := Int.eq_ofNat_of_zero_le hleast
    have hj : j ∈ List.range 65536 := List.mem_range.mpr (by omega)
    have hshare := turns_even List.nodup_range hj (0 + m) k
    have hround : k + 65536 - 1 = k + 65535 := by omega
    rw [List.length_range, hround] at hshare
    rw [hlen, hturns, List.count_map_of_injective _ _ Nat.cast_injective]
    exact hshare
  refine ⟨hrange, fun hle => List.nodup_iff_count_le_one.mpr fun id => ?_, heven⟩
  by_cases hid : id ∈ l
  · obtain ⟨hleast, hmost⟩ := hrange id hid
    rcases heven id hleast hmost with h | h <;> omega
  · rw [List.count_eq_zero.mpr hid]
    exact Nat.zero_le 1

end TcpFramework
