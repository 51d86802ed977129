/-
  TcpFramework.Lib.StepSystem — runs of a partial step function.

  A system is a state type `σ`, an input type `ι` (the operation, the schedule
  slot, the outcome of a system call) and `step : σ → ι → Option σ`, where
  `none` says that the state does not allow the input.  `replay` runs a list of
  inputs, `Along` says that a condition on (state before, input) holds at every
  step of that run, `Always` that a property holds of every state on the way, and
  `Henceforth` that it does so on every run of a kind that starts here.
  `replay_invariant`, `Along.always`, `always_iff_along` and `along_iff_along` are the
  inductions by which a fact about single steps becomes a fact about runs, and
  `exists_replay_of_measure` is the one by which steps that lower a measure become a run of
  such steps;
  `exists_replay_forall` joins the runs that bring single parts to their ends.
  `replay_trace` projects the runs of a system to the runs of one of its parts.
-/
import Mathlib.Tactic.Common
import Mathlib.Data.Option.Basic

namespace StepSystem

variable {σ ι : Type*}

/-! ## §1. Runs. -/

/-- Replay a list of inputs; undefined from the first refused input on. -/
def replay (step : σ → ι → Option σ) : σ → List ι → Option σ
  | s, [] => some s
  | s, i :: is => (step s i).bind fun s' => replay step s' is

/-- The condition `ok` holds of every (state before, input) pair of the run. -/
def Along (step : σ → ι → Option σ) (ok : σ → ι → Prop) : σ → List ι → Prop
  | _, [] => True
  | s, i :: is => ok s i ∧ ∀ s', step s i = some s' → Along step ok s' is

variable {step : σ → ι → Option σ}

@[simp] theorem replay_nil (s : σ) : replay step s [] = some s := rfl

theorem replay_cons {s t : σ} {i : ι} {is : List ι} :
    replay step s (i :: is) = some t
      ↔ ∃ s', step s i = some s' ∧ replay step s' is = some t := by
  simp only [replay, Option.bind_eq_some_iff]

theorem replay_one {s t : σ} {i : ι} (h : step s i = some t) : replay step s [i] = some t :=
  replay_cons.mpr ⟨t, h, rfl⟩

theorem replay_append {s u : σ} {is js : List ι} :
    replay step s (is ++ js) = some u
      ↔ ∃ t, replay step s is = some t ∧ replay step t js = some u := by
  induction is generalizing s with
  | nil => simp
  | cons i is ih =>
      simp only [List.cons_append, replay_cons, ih]
      constructor
      · rintro ⟨s', hs, t, ht, hu⟩
        exact ⟨t, ⟨s', hs, ht⟩, hu⟩
      · rintro ⟨t, ⟨s', hs, ht⟩, hu⟩
        exact ⟨s', hs, t, ht, hu⟩

/-- `P` holds of every state the run passes through, its start included. -/
def Always (step : σ → ι → Option σ) (P : σ → Prop) : σ → List ι → Prop
  | s, [] => P s
  | s, i :: is => P s ∧ ∀ s', step s i = some s' → Always step P s' is

/-! ## §2. The invariant rule. -/

/-- **The run rule.**  What every allowed step preserves, under a condition that
holds along the run, holds at the end of the run. -/
theorem replay_invariant {ok : σ → ι → Prop} {Inv : σ → Prop}
    (hstep : ∀ s i s', ok s i → Inv s → step s i = some s' → Inv s') :
    ∀ (is : List ι) (s t : σ),
      Inv s → Along step ok s is → replay step s is = some t → Inv t
  | [], s, t, hs, _, h => by
      obtain rfl : s = t := by simpa using h
      exact hs
  | i :: is, s, t, hs, hok, h => by
      obtain ⟨s', hs', ht⟩ := replay_cons.mp h
      exact replay_invariant hstep is s' t (hstep s i s' hok.1 hs hs') (hok.2 s' hs') ht

/-- The run rule for every state on the way: what the steps preserve under the condition
implies `P` in each of them. -/
theorem Along.always {ok : σ → ι → Prop} {Inv P : σ → Prop}
    (hstep : ∀ s i s', ok s i → Inv s → step s i = some s' → Inv s')
    (hP : ∀ s, Inv s → P s) :
    ∀ (is : List ι) (s : σ), Inv s → Along step ok s is → Always step P s is
  | [], s, hs, _ => hP s hs
  | i :: is, s, hs, hok =>
      ⟨hP s hs, fun s' hs' =>
        Along.always hstep hP is s' (hstep s i s' hok.1 hs hs') (hok.2 s' hs')⟩

theorem Always.start {P : σ → Prop} {s : σ} {is : List ι} (h : Always step P s is) : P s := by
  cases is with
  | nil => exact h
  | cons i is => exact h.1

/-- A property of every state on the way holds of the last one. -/
theorem Always.last {P : σ → Prop} {is : List ι} :
    ∀ {s t : σ}, Always step P s is → replay step s is = some t → P t := by
  induction is with
  | nil =>
      intro s t h hr
      obtain rfl : s = t := by simpa using hr
      exact h
  | cons i is ih =>
      intro s t h hr
      obtain ⟨s', hs', ht⟩ := replay_cons.mp hr
      exact ih (h.2 s' hs') ht

/-- **The exact run rule.**  When the condition is enough for a step to keep the invariant,
and a step that breaks it can be taken and breaks `P`, then `P` holds in every state of a
run if and only if the condition holds at every step. -/
theorem always_iff_along {ok : σ → ι → Prop} {Inv P : σ → Prop}
    (hstep : ∀ s i s', ok s i → Inv s → step s i = some s' → Inv s')
    (hP : ∀ s, Inv s → P s)
    (hbad : ∀ s i, Inv s → ¬ ok s i → ∃ s', step s i = some s' ∧ ¬ P s')
    (is : List ι) {s : σ} (hs : Inv s) : Always step P s is ↔ Along step ok s is := by
  induction is generalizing s with
  | nil => exact ⟨fun _ => trivial, fun _ => hP s hs⟩
  | cons i is ih =>
      constructor
      · intro h
        have hok : ok s i := by
          -- a step that breaks the condition shows in the state after it
          by_contra hnot
          obtain ⟨s', hs', hP'⟩ := hbad s i hs hnot
          exact hP' (h.2 s' hs').start
        exact ⟨hok, fun s' hs' => (ih (hstep s i s' hok hs hs')).mp (h.2 s' hs')⟩
      · exact fun h => h.always hstep hP (i :: is) s hs

/-- The condition along a run, step by step. -/
theorem along_cons_iff {ok : σ → ι → Prop} {s s' : σ} {i : ι} {is : List ι}
    (hs : step s i = some s') : Along step ok s (i :: is) ↔ ok s i ∧ Along step ok s' is := by
  constructor
  · exact fun h => ⟨h.1, h.2 s' hs⟩
  · intro h
    refine ⟨h.1, fun t ht => ?_⟩
    obtain rfl : s' = t := Option.some.inj (hs.symm.trans ht)
    exact h.2

theorem Along.cons {ok : σ → ι → Prop} {s s' : σ} {i : ι} {is : List ι} (hok : ok s i)
    (hs : step s i = some s') (h : Along step ok s' is) : Along step ok s (i :: is) :=
  (along_cons_iff hs).mpr ⟨hok, h⟩

/-- No condition on the inputs. -/
theorem along_true (is : List ι) (s : σ) : Along step (fun _ _ => True) s is := by
  induction is generalizing s with
  | nil => trivial
  | cons i is ih => exact ⟨trivial, fun s' _ => ih s'⟩

/-- A condition that all inputs meet. -/
theorem along_of_forall {ok : ι → Prop} {is : List ι} :
    (∀ i ∈ is, ok i) → ∀ s : σ, Along step (fun _ i => ok i) s is := by
  induction is with
  | nil => exact fun _ _ => trivial
  | cons i is ih =>
      intro h s
      have hrest : ∀ j ∈ is, ok j := fun j hj => h j (List.mem_cons_of_mem i hj)
      exact ⟨h i List.mem_cons_self, fun s' _ => ih hrest s'⟩

/-- The run rule for an invariant that needs no condition on the inputs. -/
theorem replay_invariant' {Inv : σ → Prop}
    (hstep : ∀ s i s', Inv s → step s i = some s' → Inv s')
    (is : List ι) (s t : σ) (hs : Inv s) (h : replay step s is = some t) : Inv t :=
  replay_invariant (fun s i s' _ => hstep s i s') is s t hs (along_true is s) h

/-- **The exact rule for steps.**  Two conditions on steps that agree wherever a step can be
taken in a state of the invariant agree along every run. -/
theorem along_iff_along {ok ok' : σ → ι → Prop} {Inv : σ → Prop}
    (hstep : ∀ s i s', Inv s → step s i = some s' → Inv s')
    (heq : ∀ s i s', Inv s → step s i = some s' → (ok s i ↔ ok' s i))
    (is : List ι) {s t : σ} (hs : Inv s) (h : replay step s is = some t) :
    Along step ok s is ↔ Along step ok' s is := by
  induction is generalizing s with
  | nil => exact Iff.rfl
  | cons i is ih =>
      obtain ⟨s', hs', ht⟩ := replay_cons.mp h
      rw [along_cons_iff hs', along_cons_iff hs', heq s i s' hs hs',
        ih (hstep s i s' hs hs') ht]

/-- **The well-founded rule.**  When some input of the kind `allowed` goes down wherever the
run is not done, such inputs get it there. -/
theorem exists_replay_of_wf {α : Type*} {r : α → α → Prop} (hr : WellFounded r)
    {allowed : ι → Prop} {Inv Done : σ → Prop} (μ : σ → α)
    (hstep : ∀ s, Inv s → ¬ Done s →
      ∃ i s', allowed i ∧ step s i = some s' ∧ Inv s' ∧ r (μ s') (μ s))
    {s : σ} (hs : Inv s) :
    ∃ is t, (∀ i ∈ is, allowed i) ∧ replay step s is = some t ∧ Inv t ∧ Done t := by
  induction h : μ s using hr.induction generalizing s with
  | _ a ih =>
      subst h
      by_cases hdone : Done s
      · exact ⟨[], s, by simp, rfl, hs, hdone⟩
      · obtain ⟨i, s', hi, hs', hinv, hdown⟩ := hstep s hs hdone
        obtain ⟨is, t, his, hrun, ht, hend⟩ := ih (μ s') hdown hinv rfl
        exact ⟨i :: is, t, List.forall_mem_cons.mpr ⟨hi, his⟩,
          replay_cons.mpr ⟨s', hs', hrun⟩, ht, hend⟩

/-- **The measure rule.**  When some input of the kind lowers the measure wherever it is not
yet zero, such inputs take it down to zero. -/
theorem exists_replay_of_measure {allowed : ι → Prop} {Inv : σ → Prop} (μ : σ → Nat)
    (hstep : ∀ s, Inv s → 0 < μ s →
      ∃ i s', allowed i ∧ step s i = some s' ∧ Inv s' ∧ μ s' < μ s)
    {s : σ} (hs : Inv s) :
    ∃ is t, (∀ i ∈ is, allowed i) ∧ replay step s is = some t ∧ Inv t ∧ μ t = 0 :=
  exists_replay_of_wf Nat.lt_wfRel.wf μ
    (fun s hs hne => hstep s hs (Nat.pos_of_ne_zero hne)) hs

/-- Whatever inputs of the kind `allowed` come from here on, `P` holds in every state. -/
def Henceforth (step : σ → ι → Option σ) (allowed : ι → Prop) (P : σ → Prop) (s : σ) : Prop :=
  ∀ is : List ι, (∀ i ∈ is, allowed i) → Always step P s is

variable {allowed : ι → Prop} {P : σ → Prop}

theorem Henceforth.now {s : σ} (h : Henceforth step allowed P s) : P s :=
  h [] (fun _ hi => absurd hi List.not_mem_nil)

/-- It stays so when an input of the kind comes. -/
theorem Henceforth.next {s s' : σ} {i : ι} (h : Henceforth step allowed P s) (hi : allowed i)
    (hs : step s i = some s') : Henceforth step allowed P s' := by
  intro is his
  have hall : ∀ j ∈ i :: is, allowed j := by
    intro j hj
    rcases List.mem_cons.mp hj with rfl | hj
    · exact hi
    · exact his j hj
  exact (h (i :: is) hall).2 s' hs

/-- The run rule, for a kind of inputs that meet the condition in every state. -/
theorem Henceforth.of_inv {ok : σ → ι → Prop} {Inv : σ → Prop}
    (hstep : ∀ s i s', ok s i → Inv s → step s i = some s' → Inv s')
    (hP : ∀ s, Inv s → P s) (hok : ∀ s i, allowed i → ok s i) {s : σ} (hs : Inv s) :
    Henceforth step allowed P s := by
  intro is
  induction is generalizing s with
  | nil => exact fun _ => hP s hs
  | cons i is ih =>
      intro his
      have hi := hok s i (his i List.mem_cons_self)
      exact ⟨hP s hs, fun s' hs' =>
        ih (hstep s i s' hi hs hs') (fun j hj => his j (List.mem_cons_of_mem i hj))⟩

/-! ## §4. A part of the system. -/

/-- What the run does to one part of the system: the labels of its inputs, in order. -/
def trace {κ : Type*} (step : σ → ι → Option σ) (label : σ → ι → List κ) : σ → List ι → List κ
  | _, [] => []
  | s, i :: is => label s i ++ (step s i).elim [] fun s' => trace step label s' is

/-- **The projection rule.**  When every step does to the part what its labels say, the run
does to the part what the trace says. -/
theorem replay_trace {τ κ : Type*} {part : σ → τ} {pstep : τ → κ → Option τ}
    {label : σ → ι → List κ} {Inv : σ → Prop}
    (hstep : ∀ s i s', Inv s → step s i = some s' →
      Inv s' ∧ replay pstep (part s) (label s i) = some (part s')) :
    ∀ (is : List ι) (s t : σ), Inv s → replay step s is = some t →
      replay pstep (part s) (trace step label s is) = some (part t)
  | [], s, t, _, h => by
      obtain rfl : s = t := by simpa using h
      rfl
  | i :: is, s, t, hs, h => by
      obtain ⟨s', hs', ht⟩ := replay_cons.mp h
      obtain ⟨hinv, hlabel⟩ := hstep s i s' hs hs'
      have htrace : trace step label s (i :: is) = label s i ++ trace step label s' is := by
        rw [trace, hs']
        rfl
      rw [htrace]
      exact replay_append.mpr ⟨_, hlabel, replay_trace hstep is s' t hinv ht⟩

end StepSystem
