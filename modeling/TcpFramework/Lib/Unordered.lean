/-
  TcpFramework.Lib.Unordered — unordered containers, with their iteration order.

  An `UnorderedSet` is the duplicate-free list of its elements in iteration order, an
  `UnorderedMap` a set of keys with a value for each of them.  An insertion puts the new
  element anywhere and may rearrange the others (a rehash); where it lands is the
  environment's choice, a `Placement`.  Deletion keeps the order of what is left.

  `Enumerates l s` says that a vector shadows a set: each element once, nothing else.
-/
import Mathlib.Tactic.Common
import Mathlib.Data.List.Nodup
import Mathlib.Data.List.Perm.Basic

/-- Where an insertion puts its element, and what it does to the order of the others. -/
structure Placement (α : Type*) where
  place : α → List α → List α
  perm : ∀ a l, (place a l).Perm (a :: l)

/-- Insertion at the front. -/
def Placement.front {α : Type*} : Placement α := ⟨List.cons, fun _ _ => .refl _⟩

/-! ## §1. Sets. -/

/-- An unordered set: its elements in iteration order. -/
structure UnorderedSet (α : Type*) where
  elems : List α
  nodup : elems.Nodup

namespace UnorderedSet

variable {α : Type*}

instance : Membership α (UnorderedSet α) := ⟨fun s a => a ∈ s.elems⟩

instance [DecidableEq α] (a : α) (s : UnorderedSet α) : Decidable (a ∈ s) :=
  inferInstanceAs (Decidable (a ∈ s.elems))

/-- The empty set. -/
def empty : UnorderedSet α := ⟨[], List.nodup_nil⟩

@[simp] theorem not_mem_empty (a : α) : a ∉ (empty : UnorderedSet α) := List.not_mem_nil

variable [DecidableEq α]

/-- `insert`: nothing changes when the element is there. -/
def insert (pl : Placement α) (a : α) (s : UnorderedSet α) : UnorderedSet α :=
  if h : a ∈ s.elems then s
  else ⟨pl.place a s.elems, (pl.perm a s.elems).nodup_iff.mpr (List.nodup_cons.mpr ⟨h, s.nodup⟩)⟩

/-- `erase`. -/
def erase (a : α) (s : UnorderedSet α) : UnorderedSet α :=
  ⟨s.elems.erase a, s.nodup.erase a⟩

@[simp] theorem mem_insert {pl : Placement α} {a b : α} {s : UnorderedSet α} :
    b ∈ s.insert pl a ↔ b = a ∨ b ∈ s := by
  unfold insert
  split
  next h =>
    constructor
    · exact Or.inr
    · intro hb
      rcases hb with rfl | hb
      · exact h
      · exact hb
  next => exact (pl.perm a s.elems).mem_iff.trans List.mem_cons

@[simp] theorem mem_erase {a b : α} {s : UnorderedSet α} : b ∈ s.erase a ↔ b ≠ a ∧ b ∈ s :=
  s.nodup.mem_erase_iff

end UnorderedSet

/-! ## §2. Vectors that shadow a set. -/

/-- The list has each element of the set exactly once, and nothing else. -/
def Enumerates {α : Type*} (l : List α) (s : UnorderedSet α) : Prop :=
  l.Nodup ∧ ∀ a, a ∈ l ↔ a ∈ s

namespace Enumerates

variable {α : Type*} {l : List α} {s : UnorderedSet α}

/-- The copy of a set enumerates it. -/
theorem elems : Enumerates s.elems s := ⟨s.nodup, fun _ => Iff.rfl⟩

/-- The vector has the size of the set. -/
theorem length_eq (h : Enumerates l s) : l.length = s.elems.length :=
  ((List.perm_ext_iff_of_nodup h.1 s.nodup).mpr h.2).length_eq

/-- An empty vector shadows an empty set. -/
theorem not_mem_of_nil (h : Enumerates l s) (hl : l = []) (a : α) : a ∉ s := by
  intro ha
  have hmem : a ∈ l := (h.2 a).mpr ha
  rw [hl] at hmem
  exact absurd hmem List.not_mem_nil

/-- `push_back` goes with the insertion of a new element. -/
theorem push_back [DecidableEq α] (pl : Placement α) {a : α} (h : Enumerates l s) (ha : a ∉ s) :
    Enumerates (l ++ [a]) (s.insert pl a) := by
  have hl : a ∉ l := fun hm => ha ((h.2 a).mp hm)
  constructor
  · refine List.Nodup.append h.1 (List.nodup_singleton a) ?_
    intro b hb hba
    rw [List.mem_singleton] at hba
    exact hl (hba ▸ hb)
  · intro b
    rw [List.mem_append, List.mem_singleton, h.2 b, UnorderedSet.mem_insert]
    exact Or.comm

end Enumerates

/-! ## §3. Maps. -/

/-- An unordered map: its keys in iteration order, and the value of each of them. -/
structure UnorderedMap (κ ν : Type*) where
  keys : UnorderedSet κ
  find : κ → Option ν
  dom : ∀ k, k ∈ keys ↔ (find k).isSome = true

namespace UnorderedMap

variable {κ ν : Type*}

/-- The empty map. -/
def empty : UnorderedMap κ ν := ⟨.empty, fun _ => none, fun k => by simp⟩

theorem mem_keys_of_find {k : κ} {v : ν} {m : UnorderedMap κ ν} (h : m.find k = some v) :
    k ∈ m.keys := (m.dom k).mpr (by simp [h])

variable [DecidableEq κ]

/-- `m[k] = v`. -/
def insert (pl : Placement κ) (k : κ) (v : ν) (m : UnorderedMap κ ν) : UnorderedMap κ ν where
  keys := m.keys.insert pl k
  find := fun j => if j = k then some v else m.find j
  dom := by
    intro j
    by_cases hj : j = k
    · simp [hj]
    · simp [hj, m.dom j]

/-- The value of a key that is there is changed in place. -/
def modify (k : κ) (f : ν → ν) (m : UnorderedMap κ ν) : UnorderedMap κ ν where
  keys := m.keys
  find := fun j => if j = k then (m.find k).map f else m.find j
  dom := by
    intro j
    by_cases hj : j = k
    · simp [hj, m.dom k]
    · simp [hj, m.dom j]

/-- `erase`. -/
def erase (k : κ) (m : UnorderedMap κ ν) : UnorderedMap κ ν where
  keys := m.keys.erase k
  find := fun j => if j = k then none else m.find j
  dom := by
    intro j
    by_cases hj : j = k
    · simp [hj]
    · simp [hj, m.dom j]

@[simp] theorem find_insert {pl : Placement κ} {k : κ} {v : ν} {m : UnorderedMap κ ν} (j : κ) :
    (m.insert pl k v).find j = if j = k then some v else m.find j := rfl

@[simp] theorem find_modify {k : κ} {f : ν → ν} {m : UnorderedMap κ ν} (j : κ) :
    (m.modify k f).find j = if j = k then (m.find k).map f else m.find j := rfl

@[simp] theorem find_erase {k : κ} {m : UnorderedMap κ ν} (j : κ) :
    (m.erase k).find j = if j = k then none else m.find j := rfl

end UnorderedMap
