/-
  TcpFramework.Lib.LockOrder — threads that take locks in scopes, and a lock order.

  `Code` is what is left of a program when only its locks are looked at: scopes that hold
  a lock, one after the other or nested, behind branches and loops whose conditions are
  dropped.  A `Path` is the list of acquisitions and releases along one way through it.
  Threads run their paths in any interleaving; a lock is read/write, or exclusive and
  reentrant.

  `Code.ordered` walks over the code once, with the locks held so far: every lock taken has
  a higher rank than these, or is a reentrant one among them.  Code that passes never
  deadlocks (`Started.reached`, `Disciplined.no_deadlock` and `Disciplined.not_own`), and
  some thread can always go on (`Disciplined.progress`).
-/
import Mathlib.Data.Set.Finite.Lemmas
import Mathlib.Order.Interval.Set.Nat
import TcpFramework.Lib.StepSystem

namespace LockOrder

open StepSystem

/-! ## §1. Code and its paths. -/

inductive Mode where
  | read
  | write
  deriving DecidableEq

inductive Action (L : Type*) where
  | acquire (l : L) (m : Mode)
  | release (l : L)
  deriving DecidableEq

/-- The locks that a program takes.  `scope l m body` holds the lock while `body` runs. -/
inductive Code (L : Type*) where
  | skip
  | seq (c d : Code L)
  | choice (c d : Code L)
  | loop (c : Code L)
  | scope (l : L) (m : Mode) (body : Code L)

variable {L : Type*}

/-- The list of actions along one way through the code. -/
inductive Code.Path : Code L → List (Action L) → Prop where
  | skip : Path .skip []
  | seq {c d : Code L} {p q : List (Action L)} (hc : Path c p) (hd : Path d q) :
      Path (.seq c d) (p ++ q)
  | left {c d : Code L} {p : List (Action L)} (hc : Path c p) : Path (.choice c d) p
  | right {c d : Code L} {p : List (Action L)} (hd : Path d p) : Path (.choice c d) p
  | done {c : Code L} : Path (.loop c) []
  | again {c : Code L} {p q : List (Action L)} (hc : Path c p) (hloop : Path (.loop c) q) :
      Path (.loop c) (p ++ q)
  | scope {l : L} {m : Mode} {body : Code L} {p : List (Action L)} (hbody : Path body p) :
      Path (.scope l m body) (.acquire l m :: (p ++ [.release l]))

/-! ## §2. Threads. -/

/-- What a thread holds, the latest first, and what it has left to do. -/
structure Thread (L : Type*) where
  held : List (L × Mode)
  todo : List (Action L)
  deriving DecidableEq

/-- The locks that it holds. -/
def Thread.locks (t : Thread L) : List L := t.held.map Prod.fst

/-- The lock that it takes next. -/
def Thread.awaits (t : Thread L) : Option L :=
  match t.todo with
  | .acquire l _ :: _ => some l
  | _ => none

variable (reentrant : L → Bool)

/-- Thread `i` can have the lock.  What it holds itself only a reentrant lock forgives, and
what another thread holds only when both read. -/
def Admits (s : List (Thread L)) (i : Nat) (l : L) (m : Mode) : Prop :=
  ∀ p ∈ s.zipIdx, ∀ h ∈ p.1.held, h.1 = l →
    if p.2 = i then reentrant l = true else reentrant l = false ∧ m = .read ∧ h.2 = .read

instance [DecidableEq L] (s : List (Thread L)) (i : Nat) (l : L) (m : Mode) :
    Decidable (Admits reentrant s i l m) :=
  inferInstanceAs (Decidable (∀ p ∈ s.zipIdx, ∀ h ∈ p.1.held, h.1 = l → _))

/-- Thread `i` does its next action.  It waits where its lock is not to be had. -/
def step [DecidableEq L] (s : List (Thread L)) (i : Nat) : Option (List (Thread L)) :=
  match s[i]? with
  | some ⟨held, .acquire l m :: todo⟩ =>
      if Admits reentrant s i l m then some (s.set i ⟨(l, m) :: held, todo⟩) else none
  | some ⟨held, .release l :: todo⟩ =>
      some (s.set i ⟨held.eraseP fun h => h.1 = l, todo⟩)
  | _ => none

/-- The thread's next action takes the lock. -/
def Waits (s : List (Thread L)) (i : Nat) (l : L) : Prop := s[i]?.bind Thread.awaits = some l

/-- The thread holds the lock. -/
def Holds (s : List (Thread L)) (i : Nat) (l : L) : Prop := ∃ t, s[i]? = some t ∧ l ∈ t.locks

/-- Each thread of the set waits for a lock that another one of them holds, whatever the
modes: a reader may be kept behind a writer that waits. -/
def Deadlock (s : List (Thread L)) (D : Set Nat) : Prop :=
  D.Nonempty ∧ ∀ i ∈ D, ∃ l, Waits s i l ∧ ∃ j ∈ D, j ≠ i ∧ Holds s j l

/-! ## §3. The order. -/

variable (rank : L → Nat)

/-- With these locks held, the lock may be taken. -/
def MayTake (held : List L) (l : L) : Prop :=
  (∀ k ∈ held, rank k < rank l) ∨ (reentrant l = true ∧ l ∈ held)

instance [DecidableEq L] (held : List L) (l : L) : Decidable (MayTake reentrant rank held l) :=
  inferInstanceAs (Decidable (_ ∨ _))

/-- Every lock of the code may be taken where it is taken. -/
def Code.ordered [DecidableEq L] : List L → Code L → Bool
  | _, .skip => true
  | held, .seq c d => c.ordered held && d.ordered held
  | held, .choice c d => c.ordered held && d.ordered held
  | held, .loop c => c.ordered held
  | held, .scope l _ body => decide (MayTake reentrant rank held l) && body.ordered (l :: held)

/-- The same of a list of actions, which releases the latest lock first and all in the
end. -/
def Ordered : List L → List (Action L) → Prop
  | held, [] => held = []
  | held, .acquire l _ :: todo => MayTake reentrant rank held l ∧ Ordered (l :: held) todo
  | [], .release _ :: _ => False
  | k :: held, .release l :: todo => k = l ∧ Ordered held todo

variable {reentrant rank}

/-- A path of ordered code, and what comes after it. -/
theorem Code.Path.ordered [DecidableEq L] {c : Code L} {p : List (Action L)} (h : c.Path p) :
    ∀ {held : List L} {rest : List (Action L)}, c.ordered reentrant rank held = true →
      Ordered reentrant rank held rest → Ordered reentrant rank held (p ++ rest) := by
  induction h with
  | skip => exact fun _ hrest => hrest
  | seq _ _ ihc ihd =>
      intro held rest hc hrest
      unfold Code.ordered at hc
      rw [Bool.and_eq_true] at hc
      rw [List.append_assoc]
      exact ihc hc.1 (ihd hc.2 hrest)
  | left _ ih =>
      intro held rest hc hrest
      unfold Code.ordered at hc
      rw [Bool.and_eq_true] at hc
      exact ih hc.1 hrest
  | right _ ih =>
      intro held rest hc hrest
      unfold Code.ordered at hc
      rw [Bool.and_eq_true] at hc
      exact ih hc.2 hrest
  | done => exact fun _ hrest => hrest
  | again _ _ ihc ihloop =>
      -- the rest of the loop comes after one turn, with the same locks held
      intro held rest hc hrest
      rw [List.append_assoc]
      refine ihc ?_ (ihloop hc hrest)
      unfold Code.ordered at hc
      exact hc
  | @scope l m body p _ ih =>
      intro held rest hc hrest
      unfold Code.ordered at hc
      rw [Bool.and_eq_true, decide_eq_true_eq] at hc
      refine ⟨hc.1, ?_⟩
      show Ordered reentrant rank (l :: held) ((p ++ [.release l]) ++ rest)
      rw [List.append_assoc]
      -- the release ends the scope: the locks are those before it
      exact ih hc.2 ⟨rfl, hrest⟩

/-- What every step keeps: each thread's actions are in order for the locks it holds, and
no reentrant lock is held by two threads. -/
structure Disciplined (reentrant : L → Bool) (rank : L → Nat) (s : List (Thread L)) :
    Prop where
  ordered : ∀ t ∈ s, Ordered reentrant rank t.locks t.todo
  exclusive : ∀ i j l, reentrant l = true → Holds s i l → Holds s j l → i = j

/-! ## §4. What every step keeps. -/

/-- A lock that is given out, and that another thread holds, is not reentrant. -/
theorem Admits.not_held {s : List (Thread L)} {i j : Nat} {l : L} {m : Mode}
    (h : Admits reentrant s i l m) (hl : reentrant l = true) (hj : Holds s j l) : j = i := by
  obtain ⟨t, ht, hmem⟩ := hj
  obtain ⟨hold, hin, hfst⟩ := List.mem_map.mp hmem
  have hcan := h (t, j) (List.mk_mem_zipIdx_iff_getElem?.mpr ht) hold hin hfst
  by_contra hne
  rw [if_neg hne, hl] at hcan
  exact absurd hcan.1 (by decide)

section

variable [DecidableEq L]

theorem step_cases {s s' : List (Thread L)} {i : Nat} (h : step reentrant s i = some s') :
    (∃ held l m todo, s[i]? = some ⟨held, .acquire l m :: todo⟩ ∧ Admits reentrant s i l m
      ∧ s' = s.set i ⟨(l, m) :: held, todo⟩)
    ∨ ∃ held l todo, s[i]? = some ⟨held, .release l :: todo⟩
      ∧ s' = s.set i ⟨held.eraseP fun h => h.1 = l, todo⟩ := by
  unfold step at h
  split at h
  next held l m todo hi =>
    split at h
    next hadm => exact Or.inl ⟨held, l, m, todo, hi, hadm, (Option.some.inj h).symm⟩
    next => exact absurd h (by simp)
  next held l todo hi => exact Or.inr ⟨held, l, todo, hi, (Option.some.inj h).symm⟩
  next => exact absurd h (by simp)

/-- A lock held after the step was held before, or the step took it. -/
theorem holds_step {s s' : List (Thread L)} {i j : Nat} {l : L}
    (h : step reentrant s i = some s') (hl : Holds s' j l) :
    Holds s j l ∨ (j = i ∧ ∃ m, Admits reentrant s i l m) := by
  obtain ⟨t, ht, hmem⟩ := hl
  by_cases hj : j = i
  · subst hj
    rcases step_cases h with ⟨held, l', m, todo, hi, hadm, rfl⟩ | ⟨held, l', todo, hi, rfl⟩
    · rw [List.getElem?_set_self (List.getElem?_eq_some_iff.mp hi).1] at ht
      obtain rfl := Option.some.inj ht
      rcases List.mem_cons.mp hmem with rfl | hmem
      · exact Or.inr ⟨rfl, m, hadm⟩
      · exact Or.inl ⟨_, hi, hmem⟩
    · rw [List.getElem?_set_self (List.getElem?_eq_some_iff.mp hi).1] at ht
      obtain rfl := Option.some.inj ht
      obtain ⟨hold, hin, hfst⟩ := List.mem_map.mp hmem
      exact Or.inl ⟨_, hi, List.mem_map.mpr ⟨hold, List.mem_of_mem_eraseP hin, hfst⟩⟩
  · -- another thread has not changed
    have hsame : s'[j]? = s[j]? := by
      rcases step_cases h with ⟨held, l', m, todo, -, -, rfl⟩ | ⟨held, l', todo, -, rfl⟩
      · exact List.getElem?_set_ne (Ne.symm hj)
      · exact List.getElem?_set_ne (Ne.symm hj)
    exact Or.inl ⟨t, hsame ▸ ht, hmem⟩

theorem ordered_step {s s' : List (Thread L)} {i : Nat} (h : step reentrant s i = some s')
    (hs : ∀ t ∈ s, Ordered reentrant rank t.locks t.todo) :
    ∀ t ∈ s', Ordered reentrant rank t.locks t.todo := by
  intro t ht
  rcases step_cases h with ⟨held, l, m, todo, hi, -, rfl⟩ | ⟨held, l, todo, hi, rfl⟩
  · have hord := hs _ (List.mem_of_getElem? hi)
    rcases List.mem_or_eq_of_mem_set ht with ht | rfl
    · exact hs t ht
    · exact hord.2
  · have hord := hs _ (List.mem_of_getElem? hi)
    rcases List.mem_or_eq_of_mem_set ht with ht | rfl
    · exact hs t ht
    · cases held with
      | nil => exact absurd hord id
      | cons hold held =>
          -- the release is that of the latest lock
          obtain ⟨hfst, hrest⟩ :
              hold.1 = l ∧ Ordered reentrant rank (held.map Prod.fst) todo := hord
          show Ordered reentrant rank (((hold :: held).eraseP fun h => h.1 = l).map Prod.fst) todo
          rw [List.eraseP_cons_of_pos (by simpa using hfst)]
          exact hrest

/-- **Every step keeps the discipline.** -/
theorem Disciplined.step {s s' : List (Thread L)} {i : Nat}
    (hs : Disciplined reentrant rank s) (h : step reentrant s i = some s') :
    Disciplined reentrant rank s' := by
  refine ⟨ordered_step h hs.ordered, ?_⟩
  intro j k l hre hj hk
  -- two holders after the step: at most one of them has taken the lock just now
  rcases holds_step h hj with hj | ⟨rfl, m, hadm⟩
  · rcases holds_step h hk with hk | ⟨rfl, m, hadm⟩
    · exact hs.exclusive j k l hre hj hk
    · exact hadm.not_held hre hj
  · rcases holds_step h hk with hk | ⟨rfl, -, -⟩
    · exact (hadm.not_held hre hk).symm
    · rfl

end

/-! ## §5. No deadlock. -/

theorem Waits.thread {s : List (Thread L)} {i : Nat} {l : L} (h : Waits s i l) :
    ∃ held m todo, s[i]? = some ⟨held, .acquire l m :: todo⟩ := by
  obtain ⟨t, ht, hl⟩ := Option.bind_eq_some_iff.mp h
  obtain ⟨held, todo⟩ := t
  unfold Thread.awaits at hl
  split at hl
  next l' m todo' htodo =>
    obtain rfl := Option.some.inj hl
    obtain rfl : todo = .acquire l' m :: todo' := htodo
    exact ⟨held, m, todo', ht⟩
  next => exact absurd hl (by simp)

/-- What a thread waits for ranks above all it holds, or is a reentrant lock it holds. -/
theorem Disciplined.above {s : List (Thread L)} {i : Nat} {k l : L}
    (hs : Disciplined reentrant rank s) (hwait : Waits s i l) (hhold : Holds s i k) :
    rank k < rank l ∨ (reentrant l = true ∧ Holds s i l) := by
  obtain ⟨held, m, todo, hi⟩ := hwait.thread
  obtain ⟨t, ht, hk⟩ := hhold
  obtain rfl := Option.some.inj (hi.symm.trans ht)
  rcases (hs.ordered _ (List.mem_of_getElem? hi)).1 with habove | ⟨hre, hmem⟩
  · exact Or.inl (habove k hk)
  · exact Or.inr ⟨hre, _, hi, hmem⟩

/-- No thread waits for a lock that it holds, unless the lock is reentrant. -/
theorem Disciplined.not_own {s : List (Thread L)} {i : Nat} {l : L}
    (hs : Disciplined reentrant rank s) (hl : reentrant l = false) (hwait : Waits s i l) :
    ¬ Holds s i l := by
  intro hhold
  rcases hs.above hwait hhold with hlt | ⟨hre, -⟩
  · exact Nat.lt_irrefl _ hlt
  · rw [hl] at hre
    exact absurd hre (by decide)

/-- **No deadlock.**  In a set of threads that wait for one another, look at one whose lock
has the highest rank: the thread that holds the lock waits for a higher one, or for a
reentrant lock that it has to itself. -/
theorem Disciplined.no_deadlock {s : List (Thread L)} (hs : Disciplined reentrant rank s)
    (D : Set Nat) : ¬ Deadlock s D := by
  intro hdead
  obtain ⟨hne, hcycle⟩ := hdead
  have hfin : D.Finite := by
    refine (Set.finite_Iio s.length).subset ?_
    intro i hi
    obtain ⟨l, hwait, -⟩ := hcycle i hi
    obtain ⟨held, m, todo, hget⟩ := hwait.thread
    exact (List.getElem?_eq_some_iff.mp hget).1
  -- the rank of the lock that a thread waits for
  let height : Nat → Nat := fun i => ((s[i]?.bind Thread.awaits).map rank).getD 0
  have hheight : ∀ {i l}, Waits s i l → height i = rank l := by
    intro i l hwait
    show ((s[i]?.bind Thread.awaits).map rank).getD 0 = rank l
    rw [show s[i]?.bind Thread.awaits = some l from hwait]
    rfl
  obtain ⟨i, hi, hmax⟩ := Set.exists_max_image D height hfin hne
  obtain ⟨l, hwait, j, hj, -, hhold⟩ := hcycle i hi
  obtain ⟨l', hwait', k, hk, hkj, hhold'⟩ := hcycle j hj
  rcases hs.above hwait' hhold with hlt | ⟨hre, hown⟩
  · -- the holder waits for a lock of a higher rank, against the choice of `i`
    have hle := hmax j hj
    rw [hheight hwait, hheight hwait'] at hle
    omega
  · -- it re-enters a lock of its own, which nobody else can hold
    exact hkj (hs.exclusive k j l' hre hhold' hown)

/-- A thread that holds a lock has something left to do. -/
theorem Disciplined.holder_todo {s : List (Thread L)} {i : Nat} {l : L} {t : Thread L}
    (hs : Disciplined reentrant rank s) (ht : s[i]? = some t) (hl : l ∈ t.locks) :
    t.todo ≠ [] := by
  intro hdone
  have hord := hs.ordered t (List.mem_of_getElem? ht)
  rw [hdone] at hord
  rw [show t.locks = [] from hord] at hl
  exact absurd hl List.not_mem_nil

/-- A lock that a thread cannot have is held by another one. -/
theorem Disciplined.blocked {s : List (Thread L)} {i : Nat} {l : L} {m : Mode}
    (hs : Disciplined reentrant rank s) (hwait : Waits s i l)
    (hno : ¬ Admits reentrant s i l m) : ∃ j, j ≠ i ∧ Holds s j l := by
  by_contra hnone
  refine hno ?_
  intro p hp hold hin hfst
  have hholds : Holds s p.2 l :=
    ⟨p.1, List.mk_mem_zipIdx_iff_getElem?.mp hp, List.mem_map.mpr ⟨hold, hin, hfst⟩⟩
  by_cases hi : p.2 = i
  · -- its own lock: it is reentrant, or the order forbids the wait
    rw [if_pos hi]
    by_contra hre
    exact hs.not_own (by simpa using hre) hwait (hi ▸ hholds)
  · exact absurd ⟨p.2, hi, hholds⟩ hnone

/-- **Progress.**  As long as a thread has something left to do, some thread can do its next
action: otherwise the unfinished threads would be a deadlock. -/
theorem Disciplined.progress [DecidableEq L] {s : List (Thread L)}
    (hs : Disciplined reentrant rank s) (hleft : ∃ t ∈ s, t.todo ≠ []) :
    ∃ i s', LockOrder.step reentrant s i = some s' := by
  by_contra hnone
  have hstuck : ∀ i, LockOrder.step reentrant s i = none := by
    intro i
    rw [Option.eq_none_iff_forall_ne_some]
    exact fun s' hs' => hnone ⟨i, s', hs'⟩
  refine hs.no_deadlock {i | ∃ t, s[i]? = some t ∧ t.todo ≠ []} ⟨?_, ?_⟩
  · obtain ⟨t, ht, htodo⟩ := hleft
    obtain ⟨i, hi⟩ := List.mem_iff_getElem?.mp ht
    exact ⟨i, t, hi, htodo⟩
  · intro i hi
    obtain ⟨⟨held, todo⟩, ht, htodo⟩ := hi
    have hno := hstuck i
    unfold LockOrder.step at hno
    rw [ht] at hno
    cases todo with
    | nil => exact absurd rfl htodo
    | cons a todo =>
        cases a with
        | release l => exact absurd hno (by simp)
        | acquire l m =>
            have hwait : Waits s i l := by
              unfold Waits
              rw [ht]
              rfl
            have hadm : ¬ Admits reentrant s i l m := by
              intro hadm
              dsimp only at hno
              rw [if_pos hadm] at hno
              exact absurd hno (by simp)
            obtain ⟨j, hj, u, hu, hl⟩ := hs.blocked hwait hadm
            exact ⟨l, hwait, j, ⟨u, hu, hs.holder_todo hu hl⟩, hj, u, hu, hl⟩

/-! ## §6. Threads that run ordered code. -/

section

variable [DecidableEq L]

/-- Each thread holds nothing and is at the start of a path of its code. -/
def Started (codes : List (Code L)) (s : List (Thread L)) : Prop :=
  List.Forall₂ (fun c t => t.held = [] ∧ c.Path t.todo) codes s

theorem Started.disciplined {codes : List (Code L)} {s : List (Thread L)} (h : Started codes s)
    (hcodes : ∀ c ∈ codes, c.ordered reentrant rank [] = true) :
    Disciplined reentrant rank s := by
  have hone : ∀ t ∈ s, t.held = [] ∧ Ordered reentrant rank t.locks t.todo := by
    induction h with
    | nil => exact fun t ht => absurd ht List.not_mem_nil
    | @cons c t codes s hct _ ih =>
        intro u hu
        rcases List.mem_cons.mp hu with rfl | hu
        · have hord : Ordered reentrant rank [] (u.todo ++ []) :=
            hct.2.ordered (hcodes c List.mem_cons_self) rfl
          rw [List.append_nil] at hord
          refine ⟨hct.1, ?_⟩
          show Ordered reentrant rank (u.held.map Prod.fst) u.todo
          rw [hct.1]
          exact hord
        · exact ih (fun c hc => hcodes c (List.mem_cons_of_mem _ hc)) u hu
  refine ⟨fun t ht => (hone t ht).2, ?_⟩
  intro i j l _ hi
  obtain ⟨t, ht, hmem⟩ := hi
  have hnone := (hone t (List.mem_of_getElem? ht)).1
  unfold Thread.locks at hmem
  rw [hnone] at hmem
  exact absurd hmem List.not_mem_nil

/-- The discipline of every state reached. -/
theorem Started.reached {codes : List (Code L)} {s₀ s : List (Thread L)} (h : Started codes s₀)
    (hcodes : ∀ c ∈ codes, c.ordered reentrant rank [] = true) {schedule : List Nat}
    (hrun : replay (step reentrant) s₀ schedule = some s) : Disciplined reentrant rank s :=
  replay_invariant' (fun _ _ _ hs hstep => hs.step hstep) schedule s₀ s (h.disciplined hcodes)
    hrun

end

end LockOrder
