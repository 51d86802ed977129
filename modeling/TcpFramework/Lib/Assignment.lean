/-
  TcpFramework.Lib.Assignment — exclusive assignment of items to owners.

  An assignment gives every item at most one owner.  `assign` gives an item to an owner
  unless it is owned already, `prune` takes from an owner the items that it is not to
  keep.  Assigning everything a target asks for and then pruning every owner is the
  two-pass way to install the target, and it does so exactly when the target leaves every
  owned item with its owner or drops it: an item that is to move is refused by the first
  pass and taken away by the second.

  Main results:
    * `replace_exact_iff` — the two passes install the target if and only if no item moves.
    * `replace_replace_exact` — done twice, they install it in any case.
-/
import Mathlib.Logic.Function.Basic
import Mathlib.Tactic.Common

/-- Who owns an item, if anyone. -/
abbrev Assignment (κ σ : Type*) := σ → Option κ

namespace Assignment

variable {κ σ : Type*} [DecidableEq σ]

/-! ## §1. One item. -/

/-- Give `a` to `k`, unless it is owned. -/
def assign (k : κ) (a : σ) (r : Assignment κ σ) : Assignment κ σ :=
  Function.update r a ((r a).or (some k))

/-- Nobody owns `a` any more. -/
def release (a : σ) (r : Assignment κ σ) : Assignment κ σ :=
  Function.update r a none

/-- `k` no longer owns `a`, if it did. -/
def releaseFrom [DecidableEq κ] (k : κ) (a : σ) (r : Assignment κ σ) : Assignment κ σ :=
  if r a = some k then release a r else r

theorem assign_of_owned {k j : κ} {a : σ} {r : Assignment κ σ} (h : r a = some j) :
    assign k a r = r := by
  rw [assign, h]
  exact Function.update_eq_self_iff.mpr h.symm

theorem assign_of_free {k : κ} {a : σ} {r : Assignment κ σ} (h : r a = none) :
    assign k a r = Function.update r a (some k) := by
  rw [assign, h]
  rfl

theorem release_eq_some {a b : σ} {k : κ} {r : Assignment κ σ} :
    release a r b = some k ↔ b ≠ a ∧ r b = some k := by
  by_cases hb : b = a <;> simp [release, hb]

theorem release_isSome {a b : σ} {r : Assignment κ σ} :
    (release a r b).isSome = if b = a then false else (r b).isSome := by
  by_cases hb : b = a <;> simp [release, hb]

/-! ## §2. The first pass. -/

/-- Assign the pairs of a list, in its order. -/
def assignAll (l : List (κ × σ)) (r : Assignment κ σ) : Assignment κ σ :=
  l.foldl (fun r p => assign p.1 p.2 r) r

/-- An owned item stays with its owner. -/
theorem assignAll_of_owned {a : σ} {k : κ} (l : List (κ × σ)) :
    ∀ {r : Assignment κ σ}, r a = some k → assignAll l r a = some k := by
  induction l with
  | nil => exact fun h => h
  | cons p l ih =>
      intro r h
      apply ih
      show assign p.1 p.2 r a = some k
      -- the first pair asks for the item in vain, or for another one
      by_cases hp : a = p.2
      · rw [assign_of_owned (hp ▸ h)]
        exact h
      · rw [assign, Function.update_of_ne hp]
        exact h

/-- Whoever gets a free item has asked for it. -/
theorem mem_of_assignAll {a : σ} {k : κ} (l : List (κ × σ)) :
    ∀ {r : Assignment κ σ}, r a = none → assignAll l r a = some k → (k, a) ∈ l := by
  induction l with
  | nil =>
      intro r h hk
      rw [assignAll, List.foldl_nil, h] at hk
      exact absurd hk (by simp)
  | cons p l ih =>
      intro r h hk
      by_cases hp : a = p.2
      · -- the item goes to the first who asks
        have hfirst : assign p.1 p.2 r a = some p.1 := by
          rw [assign, ← hp, Function.update_self, h]
          rfl
        obtain rfl : p.1 = k := Option.some.inj ((assignAll_of_owned l hfirst).symm.trans hk)
        rw [hp]
        exact List.mem_cons_self
      · refine List.mem_cons_of_mem p (ih (r := assign p.1 p.2 r) ?_ hk)
        rw [assign, Function.update_of_ne hp]
        exact h

/-- An item that someone asks for is owned after the pass. -/
theorem assignAll_isSome {a : σ} {k : κ} (l : List (κ × σ)) :
    ∀ {r : Assignment κ σ}, (k, a) ∈ l → ∃ j, assignAll l r a = some j := by
  induction l with
  | nil => exact fun h => absurd h List.not_mem_nil
  | cons p l ih =>
      intro r h
      rcases List.mem_cons.mp h with rfl | h
      · cases hr : r a with
        -- free, it goes to `k`; owned, it stays with its owner
        | none => exact ⟨k, assignAll_of_owned l (by simp [assign, hr])⟩
        | some j => exact ⟨j, assignAll_of_owned l (by simp [assign, hr])⟩
      · exact ih h

/-! ## §3. The second pass. -/

open Classical in
/-- Take from the owner `k` what it is not to keep. -/
noncomputable def prune (keep : κ → σ → Prop) (k : κ) (r : Assignment κ σ) : Assignment κ σ :=
  fun a => if r a = some k ∧ ¬ keep k a then none else r a

/-- Prune the owners of a list, one after the other. -/
noncomputable def pruneAll (keep : κ → σ → Prop) (ks : List κ) (r : Assignment κ σ) :
    Assignment κ σ :=
  ks.foldl (fun r k => prune keep k r) r

omit [DecidableEq σ] in
/-- An owner of nothing keeps nothing and loses nothing. -/
theorem prune_of_unused {keep : κ → σ → Prop} {k : κ} {r : Assignment κ σ}
    (h : ∀ a, r a ≠ some k) : prune keep k r = r := by
  funext a
  exact if_neg fun hc => h a hc.1

omit [DecidableEq σ] in
theorem prune_eq_some {keep : κ → σ → Prop} {j k : κ} {a : σ} {r : Assignment κ σ} :
    prune keep j r a = some k ↔ r a = some k ∧ (k = j → keep k a) := by
  unfold prune
  by_cases h : r a = some j ∧ ¬ keep j a
  · -- `j` owns the item and is not to keep it
    rw [if_pos h]
    constructor
    · exact fun hk => absurd hk (by simp)
    · rintro ⟨hk, hkeep⟩
      obtain rfl : j = k := Option.some.inj (h.1.symm.trans hk)
      exact absurd (hkeep rfl) h.2
  · rw [if_neg h]
    constructor
    · intro hk
      refine ⟨hk, ?_⟩
      rintro rfl
      by_contra hnot
      exact h ⟨hk, hnot⟩
    · exact And.left

omit [DecidableEq σ] in
theorem pruneAll_eq_some {keep : κ → σ → Prop} {k : κ} {a : σ} (ks : List κ) :
    ∀ {r : Assignment κ σ},
      pruneAll keep ks r a = some k ↔ r a = some k ∧ (k ∈ ks → keep k a) := by
  induction ks with
  | nil => simp [pruneAll]
  | cons j ks ih =>
      intro r
      -- the turns after the first see what the first has left
      have hih := ih (r := prune keep j r)
      rw [pruneAll] at hih ⊢
      rw [List.foldl_cons, hih, prune_eq_some, List.mem_cons]
      constructor
      · rintro ⟨⟨hr, h₁⟩, h₂⟩
        exact ⟨hr, fun h => h.elim h₁ h₂⟩
      · rintro ⟨hr, h⟩
        exact ⟨⟨hr, fun hj => h (Or.inl hj)⟩, fun hk => h (Or.inr hk)⟩

/-! ## §4. Both passes. -/

/-- No item has two owners in the target. -/
def Exclusive (l : List (κ × σ)) : Prop :=
  ∀ k k' a, (k, a) ∈ l → (k', a) ∈ l → k = k'

/-- Assign the target, then prune the owners `ks` to what the target gives them. -/
noncomputable def replace (l : List (κ × σ)) (ks : List κ) (r : Assignment κ σ) :
    Assignment κ σ :=
  pruneAll (fun k a => (k, a) ∈ l) ks (assignAll l r)

/-- What both passes leave: an item of the target that was free, or that its owner had. -/
theorem replace_eq_some {l : List (κ × σ)} {ks : List κ} {r : Assignment κ σ} {a : σ} {k : κ}
    (hl : Exclusive l) (hks : ∀ a k, assignAll l r a = some k → k ∈ ks) :
    replace l ks r a = some k ↔ (k, a) ∈ l ∧ (r a = none ∨ r a = some k) := by
  rw [replace, pruneAll_eq_some]
  constructor
  · rintro ⟨hk, hkeep⟩
    refine ⟨hkeep (hks a k hk), ?_⟩
    -- an item that was owned before is with its owner after the first pass
    cases hr : r a with
    | none => exact Or.inl rfl
    | some j => exact Or.inr ((assignAll_of_owned l hr).symm.trans hk)
  · rintro ⟨hm, hr⟩
    refine ⟨?_, fun _ => hm⟩
    rcases hr with hr | hr
    · -- it was free: somebody gets it, and only `k` asks for it
      obtain ⟨j, hj⟩ := assignAll_isSome (r := r) l hm
      rw [hj, hl j k a (mem_of_assignAll l hr hj) hm]
    · exact assignAll_of_owned l hr

/-- **The two passes install an exclusive target if and only if no item moves** from one
owner to another. -/
theorem replace_exact_iff {l : List (κ × σ)} {ks : List κ} {r : Assignment κ σ}
    (hl : Exclusive l) (hks : ∀ a k, assignAll l r a = some k → k ∈ ks) :
    (∀ k a, replace l ks r a = some k ↔ (k, a) ∈ l)
      ↔ ∀ k k' a, (k, a) ∈ l → r a = some k' → k' = k := by
  constructor
  · intro h k k' a hm hr
    rcases ((replace_eq_some hl hks).mp ((h k a).mpr hm)).2 with hnone | hsome
    · -- the item is owned
      rw [hnone] at hr
      exact absurd hr (by simp)
    · exact Option.some.inj (hr.symm.trans hsome)
  · intro h k a
    rw [replace_eq_some hl hks]
    constructor
    · exact And.left
    · intro hm
      refine ⟨hm, ?_⟩
      cases hr : r a with
      | none => exact Or.inl rfl
      | some k' => exact Or.inr (by rw [h k k' a hm hr])

/-- An exclusive target that is installed already stays installed. -/
theorem replace_of_exact {l : List (κ × σ)} {ks : List κ} {r : Assignment κ σ}
    (hl : Exclusive l) (hks : ∀ a k, assignAll l r a = some k → k ∈ ks)
    (hr : ∀ k a, r a = some k ↔ (k, a) ∈ l) (k : κ) (a : σ) :
    replace l ks r a = some k ↔ (k, a) ∈ l := by
  refine (replace_exact_iff hl hks).mpr ?_ k a
  exact fun k k' a hm hk' => hl k' k a ((hr k' a).mp hk') hm

/-- **Twice is enough**: what the first time has left owned is with its owner, so nothing
moves the second time.  The target may be walked in another order then. -/
theorem replace_replace_exact {l l' : List (κ × σ)} {ks ks' : List κ} {r : Assignment κ σ}
    (hl : Exclusive l) (hsame : ∀ p, p ∈ l' ↔ p ∈ l)
    (hks : ∀ a k, assignAll l r a = some k → k ∈ ks)
    (hks' : ∀ a k, assignAll l' (replace l ks r) a = some k → k ∈ ks') (k : κ) (a : σ) :
    replace l' ks' (replace l ks r) a = some k ↔ (k, a) ∈ l' := by
  have hl' : Exclusive l' := fun k k' a hm hm' =>
    hl k k' a ((hsame _).mp hm) ((hsame _).mp hm')
  refine (replace_exact_iff hl' hks').mpr ?_ k a
  intro k k' a hm hk'
  have hm' : (k', a) ∈ l := ((replace_eq_some hl hks).mp hk').1
  exact hl k' k a hm' ((hsame _).mp hm)

/-! ## §5. Nothing moves. -/

/-- What was owned before and is owned after has one owner. -/
def Unmoved (r r' : Assignment κ σ) : Prop :=
  ∀ a k k', r a = some k → r' a = some k' → k = k'

omit [DecidableEq σ] in
theorem Unmoved.refl (r : Assignment κ σ) : Unmoved r r :=
  fun _ _ _ hk hk' => Option.some.inj (hk.symm.trans hk')

theorem unmoved_assignAll (l : List (κ × σ)) (r : Assignment κ σ) : Unmoved r (assignAll l r) :=
  fun _ _ _ hk hk' => Option.some.inj ((assignAll_of_owned l hk).symm.trans hk')

theorem unmoved_releaseFrom [DecidableEq κ] (j : κ) (b : σ) (r : Assignment κ σ) :
    Unmoved r (releaseFrom j b r) := by
  intro a k k' hk hk'
  unfold releaseFrom at hk'
  split at hk'
  next => exact Option.some.inj (hk.symm.trans (release_eq_some.mp hk').2)
  next => exact Option.some.inj (hk.symm.trans hk')

/-- **No item moves in one replacement**: its old owner keeps it or it ends up free. -/
theorem unmoved_replace (l : List (κ × σ)) (ks : List κ) (r : Assignment κ σ) :
    Unmoved r (replace l ks r) :=
  fun a k k' hk hk' => unmoved_assignAll l r a k k' hk ((pruneAll_eq_some ks).mp hk').1

end Assignment
