/-
  TcpFramework.WriteMask — write and handle_output step by step, across threads.

  Worker and timer threads call write: putq, then register_handler(WRITE_MASK).
  The reactor thread runs handle_output: getq, send, ungetq, the is_empty test, then
  cancel_wakeup or schedule_wakeup.  Each of these is one atomic step here, and any
  thread may take the next one.

  Between an is_empty test that finds nothing and the cancel_wakeup that follows, a
  write can come and go: its registration is then cancelled and its message waits
  with nobody to send it.  `neverStranded_iff` says that nothing else goes wrong.
-/
import Mathlib.Logic.Function.Basic
import TcpFramework.HandleOutput

namespace TcpFramework

open StepSystem

/-! ## §1. The threads and their steps. -/

/-- Where the reactor thread stands in handle_output. -/
inductive ReactorPc where
  /-- Not in handle_output. -/
  | idle
  /-- At the loop head, with this many passes to go. -/
  | loop (left : Nat)
  /-- Between getq and send. -/
  | sending (left : Nat) (mb : MessageBlock)
  /-- Before an ungetq; `stop` says that `break` follows. -/
  | putting (left : Nat) (mb : MessageBlock) (stop : Bool)
  /-- Before the is_empty test. -/
  | test
  /-- Before cancel_wakeup (the queue was empty) or schedule_wakeup. -/
  | change (empty : Bool)
  /-- handle_output has returned -1 and the connection is closed. -/
  | closed
  deriving DecidableEq

/-- One connection as its threads see it.  `writing t` says that thread `t` is inside
write, between its putq and its register_handler. -/
structure Wakeup where
  queue : MessageQueue
  writeMask : Bool
  writing : Nat → Bool
  reactor : ReactorPc

/-- The atomic steps. -/
inductive WakeupStep where
  | putq (t : Nat) (msg : MessageBlock)
  | register (t : Nat)
  | enter
  | getq
  | send (result : (len : Nat) → Send len)
  | ungetq
  | isEmpty
  | changeMask

/-- The reactor after a send from the block `mb`: ungetq of what is left, the next pass,
or the return of -1. -/
def afterSendPc (left : Nat) (mb : MessageBlock) : Send mb.length → ReactorPc
  | .failed e => if e.retry then .putting left mb true else .closed
  | .sent n _ _ =>
      if (mb.rdPtr n).length > 0 then .putting left (mb.rdPtr n) false else .loop left

/-- One atomic step of some thread; `none` when that thread is not there. -/
def wakeupStep (s : Wakeup) : WakeupStep → Option Wakeup
  | .putq t msg =>
      if s.writing t then none
      else
        match s.queue.putq msg with
        | none => some s
        | some q => some { s with queue := q, writing := Function.update s.writing t true }
  | .register t =>
      if s.writing t then
        some { s with writeMask := true, writing := Function.update s.writing t false }
      else none
  | .enter =>
      if s.reactor = .idle then some { s with reactor := .loop (maxSendNum + 1) } else none
  | .getq =>
      match s.reactor with
      | .loop 0 => some { s with reactor := .test }
      | .loop (left + 1) =>
          match s.queue with
          | [] => some { s with reactor := .test }
          | mb :: q => some { s with queue := q, reactor := .sending left mb }
      | _ => none
  | .send result =>
      match s.reactor with
      | .sending left mb => some { s with reactor := afterSendPc left mb (result mb.length) }
      | _ => none
  | .ungetq =>
      match s.reactor with
      | .putting left mb stop =>
          some { s with
            queue := putBack s.queue mb
            reactor := if stop then .test else .loop left }
      | _ => none
  | .isEmpty =>
      if s.reactor = .test then some { s with reactor := .change s.queue.isEmpty } else none
  | .changeMask =>
      match s.reactor with
      | .change empty => some { s with writeMask := !empty, reactor := .idle }
      | _ => none

/-- A connection that open has just set up. -/
def Wakeup.start : Wakeup := ⟨[], false, fun _ => false, .idle⟩

/-! ## §2. The steps of one thread, uninterrupted. -/

/-- The two steps of write, one after the other, are `OutSide.write`. -/
theorem write_uninterrupted (s : Wakeup) (t : Nat) (strMsg : List UInt8)
    (ht : s.writing t = false) (hroom : MessageQueue.bytes s.queue < highWaterMark) :
    replay wakeupStep s [.putq t (mkMessage strMsg), .register t]
      = some { s with
          queue := (OutSide.write ⟨s.queue, [], s.writeMask⟩ strMsg).2.queue
          writeMask := (OutSide.write ⟨s.queue, [], s.writeMask⟩ strMsg).2.writeMask } := by
  have hput : s.queue.putq (mkMessage strMsg) = some (s.queue ++ [mkMessage strMsg]) :=
    if_neg (by omega)
  have hback : Function.update (Function.update s.writing t true) t false = s.writing := by
    rw [Function.update_idem, ← ht, Function.update_eq_self]
  simp [replay, wakeupStep, OutSide.write, ht, hput, hback]

/-- The passes of the loop, uninterrupted, are `outputLoop`. -/
theorem loop_uninterrupted :
    ∀ (n : Nat) (sends : Sends) (o : OutSide) (s : Wakeup), s.queue = o.queue →
      s.reactor = .loop n →
      ∃ acts, replay wakeupStep s acts = some { s with
        queue := (outputLoop n sends o).2.queue
        reactor := if (outputLoop n sends o).1 then .test else .closed } := by
  intro n
  induction n with
  | zero =>
      intro sends o s hq hpc
      refine ⟨[.getq], ?_⟩
      simp [replay, wakeupStep, hpc, outputLoop, hq]
  | succ n ih =>
      intro sends o s hq hpc
      cases hoq : o.queue with
      | nil =>
          refine ⟨[.getq], ?_⟩
          simp [replay, wakeupStep, hpc, outputLoop, outputPass, hq, hoq]
      | cons mb q =>
          have hget : wakeupStep s .getq
              = some { s with queue := q, reactor := .sending n mb } := by
            simp [wakeupStep, hpc, hq, hoq]
          cases hs : sends 0 mb.length with
          | failed e =>
              by_cases hretry : e.retry = true
              · refine ⟨[.getq, .send (sends 0), .ungetq], replay_cons.mpr ⟨_, hget, ?_⟩⟩
                simp [replay, wakeupStep, afterSendPc, hs, hretry, outputLoop, outputPass, hoq]
              · refine ⟨[.getq, .send (sends 0)], replay_cons.mpr ⟨_, hget, ?_⟩⟩
                simp [replay, wakeupStep, afterSendPc, hs, hretry, outputLoop, outputPass, hoq]
          | sent k pos le =>
              -- the pass goes on with the rest of the block, or the next one
              have hloop : outputLoop (n + 1) sends o
                  = outputLoop n (fun i => sends (i + 1)) (o.afterSend mb q k) := by
                simp only [outputLoop, outputPass, hoq, hs]
              rw [hloop]
              by_cases hrest : (mb.rdPtr k).length > 0
              · -- the rest goes back to the front
                obtain ⟨acts, hacts⟩ := ih (fun i => sends (i + 1)) (o.afterSend mb q k)
                  { s with queue := putBack q (mb.rdPtr k), reactor := .loop n }
                  (by simp [OutSide.afterSend, hrest]) rfl
                refine ⟨.getq :: .send (sends 0) :: .ungetq :: acts,
                  replay_cons.mpr ⟨_, hget, ?_⟩⟩
                simpa [replay, wakeupStep, afterSendPc, hs, hrest] using hacts
              · obtain ⟨acts, hacts⟩ := ih (fun i => sends (i + 1)) (o.afterSend mb q k)
                  { s with queue := q, reactor := .loop n }
                  (by simp [OutSide.afterSend, hrest]) rfl
                refine ⟨.getq :: .send (sends 0) :: acts, replay_cons.mpr ⟨_, hget, ?_⟩⟩
                simpa [replay, wakeupStep, afterSendPc, hs, hrest] using hacts

/-- **The steps of an activation, uninterrupted, are `OutSide.handleOutput`**: same queue
and mask, and the connection is closed when it returns -1. -/
theorem activation_uninterrupted (s : Wakeup) (sends : Sends) (hidle : s.reactor = .idle) :
    ∃ acts, replay wakeupStep s acts = some { s with
      queue := (OutSide.handleOutput ⟨s.queue, [], s.writeMask⟩ sends).2.queue
      writeMask := (OutSide.handleOutput ⟨s.queue, [], s.writeMask⟩ sends).2.writeMask
      reactor := if (OutSide.handleOutput ⟨s.queue, [], s.writeMask⟩ sends).1 = -1
        then .closed else .idle } := by
  obtain ⟨acts, hacts⟩ := loop_uninterrupted (maxSendNum + 1) sends
    ⟨s.queue, [], s.writeMask⟩ { s with reactor := .loop (maxSendNum + 1) } rfl rfl
  have henter : wakeupStep s .enter = some { s with reactor := .loop (maxSendNum + 1) } := by
    simp [wakeupStep, hidle]
  have hmask := outputLoop_writeMask (maxSendNum + 1) sends ⟨s.queue, [], s.writeMask⟩
  cases hl : outputLoop (maxSendNum + 1) sends ⟨s.queue, [], s.writeMask⟩ with
  | mk ok o' =>
      rw [hl] at hacts hmask
      cases ok with
      | false =>
          refine ⟨.enter :: acts, replay_cons.mpr ⟨_, henter, ?_⟩⟩
          rw [hacts]
          have hm : o'.writeMask = s.writeMask := hmask
          simp [OutSide.handleOutput, hl, hm]
      | true =>
          refine ⟨.enter :: (acts ++ [.isEmpty, .changeMask]),
            replay_cons.mpr ⟨_, henter, replay_append.mpr ⟨_, hacts, ?_⟩⟩⟩
          simp [replay, wakeupStep, OutSide.handleOutput, hl]

/-! ## §3. The property. -/

/-- No write call and no activation is in progress on the open connection. -/
def Wakeup.Quiet (s : Wakeup) : Prop := s.reactor = .idle ∧ ∀ t, s.writing t = false

/-- Queued output is not stranded: when nothing is in progress, a non-empty queue has
WRITE_MASK registered. -/
def Wakeup.NotStranded (s : Wakeup) : Prop :=
  s.Quiet → s.queue ≠ [] → s.writeMask = true

/-- The condition on a step: when cancel_wakeup runs, the queue is still empty, or some
write call has done its putq and is yet to do its register_handler. -/
def WakeupStep.cancelSafe (s : Wakeup) : WakeupStep → Prop
  | .changeMask => s.reactor = .change true → s.queue = [] ∨ ∃ t, s.writing t = true
  | _ => True

/-- The invariant: outside handle_output, output that is queued has WRITE_MASK registered
or a write call about to register it. -/
def Wakeup.Inv (s : Wakeup) : Prop :=
  s.reactor = .idle → s.queue ≠ [] → s.writeMask = true ∨ ∃ t, s.writing t = true

theorem Wakeup.Inv.notStranded {s : Wakeup} (h : s.Inv) : s.NotStranded := by
  intro hquiet hq
  rcases h hquiet.1 hq with hm | ⟨t, ht⟩
  · exact hm
  · rw [hquiet.2 t] at ht
    exact absurd ht (by simp)

/-! ## §4. Steps and runs. -/

/-- Inside an activation there is nothing to show. -/
theorem Wakeup.Inv.busy {s : Wakeup} (h : s.reactor ≠ .idle) : s.Inv :=
  fun hidle => absurd hidle h

theorem Wakeup.Inv.putq {s s' : Wakeup} {t : Nat} {msg : MessageBlock} (hinv : s.Inv)
    (hstep : wakeupStep s (.putq t msg) = some s') : s'.Inv := by
  simp only [wakeupStep] at hstep
  split at hstep
  next => exact absurd hstep (by simp)
  next =>
    cases hput : s.queue.putq msg with
    | none =>
        simp only [hput, Option.some.injEq] at hstep
        subst hstep
        exact hinv
    | some q =>
        -- the caller is now between its two steps
        simp only [hput, Option.some.injEq] at hstep
        subst hstep
        exact fun _ _ => Or.inr ⟨t, Function.update_self t true s.writing⟩

theorem getq_busy {s s' : Wakeup} (hstep : wakeupStep s .getq = some s') :
    s'.reactor ≠ .idle := by
  simp only [wakeupStep] at hstep
  split at hstep
  next =>
    obtain rfl := Option.some.inj hstep
    simp
  next =>
    split at hstep
    next =>
      obtain rfl := Option.some.inj hstep
      simp
    next =>
      obtain rfl := Option.some.inj hstep
      simp
  next => exact absurd hstep (by simp)

/-- After a send the reactor is at an ungetq, at the loop head, or gone. -/
theorem send_busy {s s' : Wakeup} {result : (len : Nat) → Send len}
    (hstep : wakeupStep s (.send result) = some s') : s'.reactor ≠ .idle := by
  simp only [wakeupStep] at hstep
  split at hstep
  next left mb hpc =>
    obtain rfl := Option.some.inj hstep
    show afterSendPc left mb (result mb.length) ≠ .idle
    cases result mb.length <;> simp only [afterSendPc] <;> split <;> simp
  next => exact absurd hstep (by simp)

theorem ungetq_busy {s s' : Wakeup} (hstep : wakeupStep s .ungetq = some s') :
    s'.reactor ≠ .idle := by
  simp only [wakeupStep] at hstep
  split at hstep
  next left mb stop hpc =>
    obtain rfl := Option.some.inj hstep
    cases stop <;> simp
  next => exact absurd hstep (by simp)

/-- schedule_wakeup registers WRITE_MASK; before cancel_wakeup the condition speaks. -/
theorem Wakeup.Inv.changeMask {s s' : Wakeup}
    (hok : WakeupStep.cancelSafe s .changeMask) (hstep : wakeupStep s .changeMask = some s') :
    s'.Inv := by
  intro _ hq
  simp only [wakeupStep] at hstep
  split at hstep
  next empty hpc =>
    obtain rfl := Option.some.inj hstep
    cases empty with
    | false => exact Or.inl rfl
    | true =>
        rcases hok hpc with h | h
        · exact absurd h hq
        · exact Or.inr h
  next => exact absurd hstep (by simp)

/-- **One step** of any thread keeps the invariant, a cancel_wakeup on the condition. -/
theorem wakeupStep_inv (s : Wakeup) (a : WakeupStep) (s' : Wakeup) (hok : a.cancelSafe s)
    (hinv : s.Inv) (hstep : wakeupStep s a = some s') : s'.Inv := by
  cases a with
  | putq t msg => exact hinv.putq hstep
  | register t =>
      simp only [wakeupStep] at hstep
      split at hstep
      next =>
        -- WRITE_MASK is registered now
        obtain rfl := Option.some.inj hstep
        exact fun _ _ => Or.inl rfl
      next => exact absurd hstep (by simp)
  | enter =>
      simp only [wakeupStep] at hstep
      split at hstep
      next =>
        obtain rfl := Option.some.inj hstep
        exact .busy (by simp)
      next => exact absurd hstep (by simp)
  | getq => exact .busy (getq_busy hstep)
  | send result => exact .busy (send_busy hstep)
  | ungetq => exact .busy (ungetq_busy hstep)
  | isEmpty =>
      simp only [wakeupStep] at hstep
      split at hstep
      next =>
        obtain rfl := Option.some.inj hstep
        exact .busy (by simp)
      next => exact absurd hstep (by simp)
  | changeMask => exact .changeMask hok hstep

/-- A cancel_wakeup that breaks the condition strands what is queued. -/
theorem changeMask_strands {s : Wakeup} (hbad : ¬ WakeupStep.cancelSafe s .changeMask) :
    ∃ s', wakeupStep s .changeMask = some s' ∧ ¬ s'.NotStranded := by
  simp only [WakeupStep.cancelSafe, Classical.not_imp, not_or, not_exists] at hbad
  obtain ⟨hpc, hq, hw⟩ := hbad
  refine ⟨{ s with writeMask := false, reactor := .idle }, ?_, ?_⟩
  · simp only [wakeupStep, hpc]
    rfl
  · intro h
    have hm := h ⟨rfl, fun t => by simpa using hw t⟩ hq
    exact absurd hm (by simp)

/-- **No queued output is stranded, exactly**: in a run of the threads, a non-empty queue
with nothing in progress always has WRITE_MASK registered, if and only if every
cancel_wakeup of the run finds the queue empty or a write call between its two steps. -/
theorem neverStranded_iff (acts : List WakeupStep) :
    Always wakeupStep Wakeup.NotStranded Wakeup.start acts
      ↔ Along wakeupStep (fun s a => a.cancelSafe s) Wakeup.start acts := by
  apply always_iff_along wakeupStep_inv (fun _ => Wakeup.Inv.notStranded)
  · intro s a _ hbad
    cases a with
    | changeMask => exact changeMask_strands hbad
    | _ => exact absurd trivial hbad
  · intro _ hq
    exact absurd rfl hq

/-- A run in which a second write falls between the is_empty test and cancel_wakeup: its
message stays queued, WRITE_MASK is not registered, and nothing is in progress. -/
theorem write_between_test_and_cancel :
    ∃ s, replay wakeupStep Wakeup.start
        [.putq 0 (mkMessage []), .register 0, .enter, .getq, .send (sendAll 0), .getq, .isEmpty,
          .putq 1 (mkMessage [0x41]), .register 1, .changeMask] = some s
      ∧ ¬ s.NotStranded := by
  refine ⟨⟨[mkMessage [0x41]], false, _, .idle⟩, rfl, ?_⟩
  intro h
  have hm := h ⟨rfl, fun t => by simp [Function.update_apply, Wakeup.start]⟩ (by simp)
  exact absurd hm (by simp)

end TcpFramework
