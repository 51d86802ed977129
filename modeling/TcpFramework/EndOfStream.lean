/-
  TcpFramework.EndOfStream — when the peer shuts down.

  handle_input has one branch for errors and for the peer's orderly shutdown, and it tells
  a timeout from the rest by errno.  A recv that returns 0 does not set errno, so the branch
  reads what the last failing call of the thread has left there: after a timeout, of this
  connection or of another one, a shutdown is taken for one more timeout.

  Main results:
    * `inputLoop_eof` — the code of an activation that sees the shutdown.
    * `shutdown_closes_iff` — whole runs of the reactor thread, with any number of
      connections.
-/
import TcpFramework.ConnTables
import TcpFramework.HandleInput

namespace TcpFramework

open StepSystem

/-! ## §1. The reactor thread. -/

/-- The reactor thread: its errno, the receive buffers of the handlers, by identity, and the
managers. -/
structure Reactor where
  errno : Errno
  mPhead : Nat → Option MessageBlock
  world : World

/-- What happens next. -/
inductive ReactorEvent where
  /-- handle_input is called for the connection with this descriptor and sees these recv
  results. -/
  | input (handle : Int) (rs : List Recv)
  /-- Any operation of the managers, with the errno that the thread has afterwards. -/
  | other (op : Op) (e : Errno)

/-- An activation of handle_input that sees exactly `rs`: its code, and the reactor
afterwards, which calls handle_close at -1. -/
def Reactor.activate (s : Reactor) (handle : Int) (rs : List Recv) : Option (Int × Reactor) :=
  match s.world.fds handle with
  | none => none
  | some svc =>
      match handleInput (s.mPhead svc.id) s.errno rs with
      | none => none
      | some a =>
          match a.code with
          | none => none
          | some code =>
              if a.rest = [] then
                some (code, {
                  errno := a.errno
                  mPhead := Function.update s.mPhead svc.id (some a.head)
                  world := if code = -1 then svc.handleClose s.world else s.world })
              else none

/-- One step of the thread. -/
def Reactor.step (s : Reactor) : ReactorEvent → Option Reactor
  | .input handle rs => (s.activate handle rs).map Prod.snd
  | .other op e => (s.world.step op).map fun w => { s with world := w, errno := e }

/-- Nothing is open. -/
def Reactor.start (e : Errno) : Reactor := ⟨e, fun _ => none, World.start⟩

/-- An activation in which recv returns 0 returns -1, and the connection is in neither
ConnMgr nor SvrMgr afterwards. -/
def Reactor.ClosesAtEof (s : Reactor) : ReactorEvent → Prop
  | .input handle rs => .eof ∈ rs → ∀ code s', s.activate handle rs = some (code, s') →
      code = -1 ∧ s'.world.mConn handle = none ∧ ∀ a, ¬ s'.world.Lists a handle
  | .other _ _ => True

/-- The condition: at an activation in which recv returns 0, errno is not ETIME. -/
def Reactor.errnoClear (s : Reactor) : ReactorEvent → Prop
  | .input _ rs => .eof ∈ rs → s.errno ≠ .etime
  | .other _ _ => True

/-! ## §2. One activation. -/

/-- **The code of an activation that sees the shutdown** depends on the errno it started
with: recv results that let the loop go on leave errno alone. -/
theorem inputLoop_eof (e : Errno) (rs : List Recv) :
    ∀ (head : MessageBlock) (a : Activation), inputLoop head e rs = some a → a.rest = [] →
      .eof ∈ rs → a.code = some (if e = .etime then 0 else -1) := by
  induction rs with
  | nil =>
      intro head a _ _ hmem
      exact absurd hmem List.not_mem_nil
  | cons r rs ih =>
      intro head a hloop hrest hmem
      obtain ⟨-, hcases⟩ := inputLoop_cons hloop
      by_cases hdata : ∃ bs, r = .data bs
      · obtain ⟨bs, rfl⟩ := hdata
        have hin : Recv.eof ∈ rs := by simpa using hmem
        rcases hcases with ⟨head', -, hgo⟩ | ⟨code, head', put, -, rfl⟩
        · exact ih head' a hgo hrest hin
        · -- the loop is left before the shutdown
          rw [show rs = [] from hrest] at hin
          exact absurd hin List.not_mem_nil
      · -- whatever else comes leaves the loop, so it is the shutdown
        have hpass := recvPass_no_data head (r.errno e) fun bs h => hdata ⟨bs, h⟩
        rcases hcases with ⟨head', hp, -⟩ | ⟨code, head', put, hp, rfl⟩
        · rw [hp] at hpass
          split at hpass <;> exact absurd hpass (by simp)
        · rw [show rs = [] from hrest] at hmem
          obtain rfl := List.mem_singleton.mp hmem
          -- the test reads the errno of an earlier call
          rw [hp, show Recv.errno e .eof = e from rfl] at hpass
          by_cases he : e = .etime
          · rw [if_pos he] at hpass ⊢
            exact congrArg some (Pass.ret.inj hpass).1
          · rw [if_neg he] at hpass ⊢
            exact congrArg some (Pass.ret.inj hpass).1

/-- What an activation is. -/
theorem Reactor.activate_spec {s s' : Reactor} {handle : Int} {rs : List Recv} {code : Int}
    (h : s.activate handle rs = some (code, s')) :
    ∃ svc a, s.world.fds handle = some svc
      ∧ handleInput (s.mPhead svc.id) s.errno rs = some a ∧ a.code = some code ∧ a.rest = []
      ∧ s'.errno = a.errno ∧ s'.world = if code = -1 then svc.handleClose s.world else s.world := by
  unfold Reactor.activate at h
  cases hc : s.world.fds handle with
  | none => simp [hc] at h
  | some svc =>
      simp only [hc] at h
      cases ha : handleInput (s.mPhead svc.id) s.errno rs with
      | none => simp [ha] at h
      | some a =>
          simp only [ha] at h
          cases hcode : a.code with
          | none => simp [hcode] at h
          | some c =>
              simp only [hcode] at h
              split at h
              next hrest =>
                obtain ⟨rfl, rfl⟩ := Prod.mk.inj (Option.some.inj h)
                exact ⟨svc, a, rfl, ha, hcode, hrest, rfl, rfl⟩
              next => exact absurd h (by simp)

/-- The connection that handle_close has been called for is in neither table. -/
theorem World.Tracked.closed_gone {w : World} (hw : w.Tracked) {c : DASvcHandler}
    (hc : w.fds c.handle = some c) :
    (c.handleClose w).mConn c.handle = none ∧ ∀ a, ¬ (c.handleClose w).Lists a c.handle := by
  have hpos : 0 ≤ c.handle := (hw.own _ c hc).2.1
  have hw' := hw.handleClose hc
  have hnone : (c.handleClose w).fds c.handle = none := by
    rw [(DASvcHandler.handleClose_onlySvr w hpos).fds]
    exact Function.update_self _ _ _
  refine ⟨by rw [hw'.recorded, hnone], fun a hl => ?_⟩
  obtain ⟨d, hd, -⟩ := hw'.listed a c.handle hl
  rw [hnone] at hd
  exact absurd hd (by simp)

/-! ## §3. Runs. -/

theorem Reactor.step_tracked {s s' : Reactor} {i : ReactorEvent} (hs : s.world.Tracked)
    (h : s.step i = some s') : s'.world.Tracked := by
  cases i with
  | input handle rs =>
      obtain ⟨⟨code, t⟩, hact, rfl⟩ := Option.map_eq_some_iff.mp h
      obtain ⟨svc, a, hc, -, -, -, -, hworld⟩ := Reactor.activate_spec hact
      show t.world.Tracked
      rw [hworld]
      split
      · exact hs.handleClose (by rw [(hs.own handle svc hc).1, hc])
      · exact hs
  | other op e =>
      obtain ⟨w, hw, rfl⟩ := Option.map_eq_some_iff.mp h
      exact hs.step hw

/-- **One step**: the shutdown closes the connection exactly when errno is clear. -/
theorem Reactor.closesAtEof_iff {s s' : Reactor} {i : ReactorEvent} (hs : s.world.Tracked)
    (h : s.step i = some s') : s.ClosesAtEof i ↔ s.errnoClear i := by
  cases i with
  | other op e => exact Iff.rfl
  | input handle rs =>
      obtain ⟨⟨code, t⟩, hact, rfl⟩ := Option.map_eq_some_iff.mp h
      obtain ⟨svc, a, hc, hin, hcode, hrest, -, hworld⟩ := Reactor.activate_spec hact
      show (Recv.eof ∈ rs → _) ↔ (Recv.eof ∈ rs → _)
      refine imp_congr_right fun heof => ?_
      have heq := inputLoop_eof s.errno rs _ a hin hrest heof
      rw [hcode, Option.some.injEq] at heq
      constructor
      · intro hclose he
        have hneg := (hclose code t hact).1
        rw [heq, if_pos he] at hneg
        exact absurd hneg (by decide)
      · intro hclear code' t' hact'
        obtain ⟨rfl, rfl⟩ := Prod.mk.inj (Option.some.inj (hact.symm.trans hact'))
        rw [if_neg hclear] at heq
        rw [if_pos heq] at hworld
        have hh : svc.handle = handle := (hs.own handle svc hc).1
        have hgone := hs.closed_gone (c := svc) (by rw [hh, hc])
        rw [hh, ← hworld] at hgone
        exact ⟨heq, hgone⟩

/-- The errno that an activation leaves is that of its recv results. -/
theorem inputLoop_errno (rs : List Recv) :
    ∀ (head : MessageBlock) (e : Errno) (a : Activation), inputLoop head e rs = some a →
      a.rest = [] → a.errno = rs.foldl Recv.errno e := by
  induction rs with
  | nil =>
      intro head e a hloop _
      obtain rfl : (⟨none, head, e, none, []⟩ : Activation) = a := by
        simpa [inputLoop] using hloop
      rfl
  | cons r rs ih =>
      intro head e a hloop hrest
      obtain ⟨-, ⟨head', -, hgo⟩ | ⟨code, head', put, -, rfl⟩⟩ := inputLoop_cons hloop
      · exact ih head' (r.errno e) a hgo hrest
      · rw [show rs = [] from hrest]
        rfl

/-- The condition on the recv results alone: where the thread starts with errno `e`, no
shutdown comes while ETIME is what the last failing call has left. -/
def NoStaleTimeout : Errno → List ReactorEvent → Prop
  | _, [] => True
  | e, .input _ rs :: events =>
      (.eof ∈ rs → e ≠ .etime) ∧ NoStaleTimeout (rs.foldl Recv.errno e) events
  | _, .other _ e :: events => NoStaleTimeout e events

theorem along_errnoClear_iff (events : List ReactorEvent) :
    ∀ {s t : Reactor}, replay Reactor.step s events = some t →
      (Along Reactor.step Reactor.errnoClear s events ↔ NoStaleTimeout s.errno events) := by
  induction events with
  | nil => exact fun _ => Iff.rfl
  | cons i events ih =>
      intro s t h
      obtain ⟨s', hs', ht⟩ := replay_cons.mp h
      have hrest := ih ht
      rw [along_cons_iff hs', hrest]
      cases i with
      | input handle rs =>
          obtain ⟨⟨code, u⟩, hact, rfl⟩ := Option.map_eq_some_iff.mp hs'
          obtain ⟨svc, a, -, hin, -, hrest', herrno, -⟩ := Reactor.activate_spec hact
          show (Recv.eof ∈ rs → s.errno ≠ .etime) ∧ NoStaleTimeout u.errno events ↔ _
          rw [herrno, inputLoop_errno rs _ s.errno a hin hrest']
          exact Iff.rfl
      | other op e =>
          obtain ⟨w, -, rfl⟩ := Option.map_eq_some_iff.mp hs'
          show True ∧ NoStaleTimeout e events ↔ _
          rw [true_and]
          exact Iff.rfl

/-- **End of stream closes the connection, exactly when no timeout is left in errno**: in
every run of the reactor thread, every activation in which recv returns 0 returns -1 and
takes the connection out of ConnMgr and SvrMgr, if and only if no shutdown comes while the
thread's last failing call was a timeout. -/
theorem shutdown_closes_iff (e : Errno) (events : List ReactorEvent) {s : Reactor}
    (h : replay Reactor.step (Reactor.start e) events = some s) :
    Along Reactor.step Reactor.ClosesAtEof (Reactor.start e) events
      ↔ NoStaleTimeout e events := by
  have hsteps := @along_iff_along Reactor ReactorEvent Reactor.step Reactor.ClosesAtEof
    Reactor.errnoClear (fun s => s.world.Tracked)
    (fun _ _ _ hs hstep => Reactor.step_tracked hs hstep)
    (fun _ _ _ hs hstep => Reactor.closesAtEof_iff hs hstep) events _ _ World.Tracked.start h
  rw [hsteps]
  exact along_errnoClear_iff events h

/-- A frame begins, and the peer shuts down; the last failing call was no timeout. -/
theorem shutdown_closes_iff_midframe :
    Along Reactor.step Reactor.ClosesAtEof (Reactor.start .ok)
      [.other (.accept .dial 3 (12, 5000)) .eagain, .input 3 [.data [2, 0], .eof]] := by
  have hrun : ∃ s, replay Reactor.step (Reactor.start .ok)
      [.other (.accept .dial 3 (12, 5000)) .eagain, .input 3 [.data [2, 0], .eof]] = some s :=
    ⟨_, rfl⟩
  obtain ⟨s, hs⟩ := hrun
  exact (shutdown_closes_iff .ok _ hs).mpr ⟨by decide, trivial⟩

/-- A recv on descriptor 3 times out, then the peer of descriptor 4 shuts down: the
activation returns 0, and the connection stays. -/
theorem shutdown_taken_for_timeout :
    ¬ Along Reactor.step Reactor.ClosesAtEof (Reactor.start .ok)
      [.other (.accept .dial 3 (12, 5000)) .ok, .other (.accept .dial 4 (13, 5000)) .ok,
        .input 3 [.timeout], .input 4 [.eof]] := by
  have hrun : ∃ s s' : Reactor, replay Reactor.step (Reactor.start .ok)
      [.other (.accept .dial 3 (12, 5000)) .ok, .other (.accept .dial 4 (13, 5000)) .ok,
        .input 3 [.timeout]] = some s
      ∧ s.activate 4 [.eof] = some (0, s') := ⟨_, _, rfl, rfl⟩
  obtain ⟨s, s', hs, hact⟩ := hrun
  intro h
  obtain ⟨s₁, hs₁, hr₁⟩ := replay_cons.mp hs
  obtain ⟨s₂, hs₂, hr₂⟩ := replay_cons.mp hr₁
  obtain ⟨s₃, hs₃, hr₃⟩ := replay_cons.mp hr₂
  obtain rfl : s₃ = s := by simpa using hr₃
  have hlast := (((h.2 s₁ hs₁).2 s₂ hs₂).2 s₃ hs₃).1
  exact absurd (hlast List.mem_cons_self 0 s' hact).1 (by decide)

end TcpFramework
