/-
  TcpFramework.Opening — DASvcHandler::open while the reactor already calls back.

  open runs in the connecting thread (TimerTask, when reBuild reconnects): super::open
  registers the handler with the running reactor, then m_phead and m_pmsg are set to NULL,
  then addConn records the connection.  From the first of these steps on the reactor may
  run handle_input and handle_close.

  Bytes received that are in the buffer when m_phead is set to NULL are lost, and a
  handle_close before addConn is undone by it: the handler is gone and its descriptor is
  recorded.
  `open_atomic_iff` says that nothing else goes wrong.
-/
import TcpFramework.ConnTables
import TcpFramework.HandleInput

namespace TcpFramework

open StepSystem

/-! ## §1. The two threads. -/

/-- Where the connecting thread stands in `open`. -/
inductive OpenPc where
  /-- Before super::open. -/
  | fresh
  /-- Registered; m_phead and m_pmsg are not set yet. -/
  | registered
  /-- Before addConn. -/
  | initialised
  | returned
  deriving DecidableEq

/-- A connection that is being opened, and what has become of it. -/
structure Opening where
  svc : DASvcHandler
  world : World
  pc : OpenPc
  /-- handle_close has run, and the handler is deleted. -/
  closed : Bool
  /-- m_peer_addr. -/
  peerAddr : Addr
  /-- m_phead, and the frames queued. -/
  input : InputRun
  /-- What the recv calls have returned. -/
  received : List UInt8
  /-- How many of the first bytes in the queued frames and the buffer were not received, but
  are what the memory held that m_phead pointed to before open set it. -/
  stray : Nat

/-- The steps of the two threads. -/
inductive OpenStep where
  /-- super::open. -/
  | register
  /-- m_phead and m_pmsg, then m_peer_addr. -/
  | initialise
  /-- CONNMGR::addConn(this); `freed` is what the thread reads in place of a handler that
  is deleted. -/
  | addConn (env : Env) (freed : DASvcHandler)
  | handleInput (rs : List Recv)
  | handleClose

/-- One atomic step. -/
def Opening.step (s : Opening) : OpenStep → Option Opening
  | .register => if s.pc = .fresh then some { s with pc := .registered } else none
  | .initialise =>
      if s.pc = .registered then
        some { s with
          pc := .initialised
          input := { s.input with mPhead := none }
          peerAddr := s.svc.peer
          stray := min s.stray s.input.framed.length }
      else none
  | .addConn env freed =>
      if s.pc = .initialised then
        some { s with
          pc := .returned
          world := ConnMgr.addConn env (if s.closed then freed else s.svc) s.world }
      else none
  | .handleInput rs =>
      if s.pc ≠ .fresh ∧ s.closed = false then
        match inputStep s.input rs with
        | none => none
        | some run =>
            if run.status = .waiting then none
            else
              some { s with
                input := run, received := s.received ++ (rs.map Recv.bytes).flatten }
      else none
  | .handleClose =>
      if s.pc ≠ .fresh ∧ s.closed = false then
        some { s with
          closed := true
          world := { ConnMgr.rmConn s.peerAddr s.svc s.world with
            fds := Function.update s.world.fds s.svc.handle none }
          input := { s.input with mPhead := none } }
      else none

/-- A connection that the connector has just established in `w`.  The constructor sets
neither m_phead nor m_peer_addr: `phead` and `addr` are whatever the memory holds. -/
def Opening.start (w : World) (svc : DASvcHandler) (e : Errno) (phead : Option MessageBlock)
    (addr : Addr) : Opening where
  svc := svc
  world := { w with
    fds := Function.update w.fds svc.handle (some svc), nextId := w.nextId + 1 }
  pc := .fresh
  closed := false
  peerAddr := addr
  input := { InputRun.start e with mPhead := phead }
  received := []
  stray := ((phead.map MessageBlock.bytes).getD []).length

/-! ## §2. The property. -/

/-- The handle is neither in m_mConn nor in the handles of a server. -/
def Opening.Unrecorded (s : Opening) : Prop :=
  s.world.mConn s.svc.handle = none ∧ ∀ a, ¬ s.world.Lists a s.svc.handle

/-- Once open has returned, a connection that was closed is recorded nowhere, and of one
that was not, the bytes received are those in the queued frames and the buffer, in order. -/
def Opening.Atomic (s : Opening) : Prop :=
  s.pc = .returned →
    (s.closed = true → s.Unrecorded)
    ∧ (s.closed = false → s.input.held.drop s.stray = s.received)

/-- When addConn is all that is left to do, it ends well. -/
def Opening.EndsWell (s : Opening) : Prop :=
  ∀ env freed s', s.step (.addConn env freed) = some s' → s'.Atomic

/-- The condition on a step: when m_phead is set to NULL, the connection is not closed, and
nothing has been received or the buffer is empty; and no handle_close comes between that
and addConn. -/
def OpenStep.inTime (s : Opening) : OpenStep → Prop
  | .initialise => s.pc = .registered →
      s.closed = false ∧ (s.received = [] ∨ s.input.buffered = [])
  | .handleClose => s.pc ≠ .initialised
  | _ => True

/-- The invariant: until addConn the connection is recorded nowhere, after it under its own
peer only, and while it is open no byte is lost. -/
structure Opening.Inv (s : Opening) : Prop where
  handle : s.svc.handle ≠ -1
  unrecorded : s.pc ≠ .returned → s.closed = false → s.Unrecorded
  notClosed : s.pc = .initialised → s.closed = false
  peer : s.pc = .initialised ∨ s.pc = .returned → s.peerAddr = s.svc.peer
  listed : s.closed = false → ∀ a, s.world.Lists a s.svc.handle → a = s.svc.peer
  gone : s.pc = .returned → s.closed = true → s.Unrecorded
  bytes : s.closed = false →
    s.stray ≤ s.input.held.length ∧ s.input.held.drop s.stray = s.received

theorem Opening.Inv.atomic {s : Opening} (hs : s.Inv) : s.Atomic :=
  fun hpc => ⟨hs.gone hpc, fun hc => (hs.bytes hc).2⟩

/-! ## §3. One step. -/

/-- handle_close of a handler that has nothing listed under another peer. -/
theorem rmConn_unrecorded {w : World} {c : DASvcHandler} (addr : Addr) (hne : c.handle ≠ -1)
    (hl : ∀ a, w.Lists a c.handle → a = addr) :
    (ConnMgr.rmConn addr c w).mConn c.handle = none
      ∧ ∀ a, ¬ (ConnMgr.rmConn addr c w).Lists a c.handle := by
  constructor
  · rw [(ConnMgr.rmConn_onlySvr addr w hne).mConn]
    exact Function.update_self c.handle none w.mConn
  · intro a hla
    obtain ⟨hold, hnot⟩ := (ConnMgr.rmConn_lists addr w hne a c.handle).mp hla
    exact hnot ⟨hl a hold, rfl⟩

/-- The buffer that is dropped held no byte received. -/
theorem Opening.dropBuffer {s : Opening}
    (hbytes : s.stray ≤ s.input.held.length ∧ s.input.held.drop s.stray = s.received)
    (hbuf : s.received = [] ∨ s.input.buffered = []) :
    min s.stray s.input.framed.length ≤ (s.input.framed ++ []).length
      ∧ (s.input.framed ++ []).drop (min s.stray s.input.framed.length) = s.received := by
  obtain ⟨hle, hdrop⟩ := hbytes
  unfold InputRun.held at hle hdrop
  rw [List.append_nil]
  refine ⟨Nat.min_le_right _ _, ?_⟩
  rcases hbuf with h | h
  · -- nothing has been received: all there is was there before
    rw [h, List.drop_eq_nil_iff, List.length_append] at hdrop
    rw [h, List.drop_eq_nil_iff]
    omega
  · rw [h, List.append_nil] at hle hdrop
    rw [Nat.min_eq_left hle]
    exact hdrop

theorem Opening.Inv.register {s s' : Opening} (hs : s.Inv) (hstep : s.step .register = some s') :
    s'.Inv := by
  simp only [Opening.step] at hstep
  split at hstep
  next hpc =>
    obtain rfl := Option.some.inj hstep
    refine ⟨hs.handle, fun _ hc => hs.unrecorded (by rw [hpc]; decide) hc, ?_, ?_, hs.listed,
      ?_, hs.bytes⟩
    · exact fun h => absurd h (by simp)
    · exact fun h => absurd h (by simp)
    · exact fun h => absurd h (by simp)
  next => exact absurd hstep (by simp)

theorem Opening.Inv.initialise {s s' : Opening} (hok : OpenStep.inTime s .initialise)
    (hs : s.Inv) (hstep : s.step .initialise = some s') : s'.Inv := by
  simp only [Opening.step] at hstep
  split at hstep
  next hpc =>
    obtain rfl := Option.some.inj hstep
    obtain ⟨hopen, hbuf⟩ := hok hpc
    refine ⟨hs.handle, fun _ hc => hs.unrecorded (by rw [hpc]; decide) hc, fun _ => hopen,
      fun _ => rfl, hs.listed, ?_, fun _ => Opening.dropBuffer (hs.bytes hopen) hbuf⟩
    exact fun h => absurd h (by simp)
  next => exact absurd hstep (by simp)

/-- addConn lists the handle under the connection's own peer. -/
theorem Opening.Inv.addConn {s s' : Opening} {env : Env} {freed : DASvcHandler} (hs : s.Inv)
    (hstep : s.step (.addConn env freed) = some s') : s'.Inv := by
  simp only [Opening.step] at hstep
  split at hstep
  next hpc =>
    obtain rfl := Option.some.inj hstep
    have hopen := hs.notClosed hpc
    obtain ⟨hm, hl⟩ := hs.unrecorded (by rw [hpc]; decide) hopen
    refine ⟨hs.handle, fun h => absurd rfl h, ?_, fun _ => hs.peer (Or.inl hpc), ?_, ?_,
      hs.bytes⟩
    · exact fun h => absurd h (by simp)
    · intro _ a hla
      have hla' : (ConnMgr.addConn env s.svc s.world).Lists a s.svc.handle := by
        simpa [hopen] using hla
      rcases (ConnMgr.addConn_lists env hm a s.svc.handle).mp hla' with hold | hnew
      · exact absurd hold (hl a)
      · exact hnew.1
    · intro _ hc
      have hc' : s.closed = true := hc
      rw [hopen] at hc'
      exact absurd hc' (by decide)
  next => exact absurd hstep (by simp)

/-- An activation of handle_input changes the buffer alone, by the bytes it receives. -/
theorem Opening.Inv.handleInput {s s' : Opening} {rs : List Recv} (hs : s.Inv)
    (hstep : s.step (.handleInput rs) = some s') : s'.Inv := by
  simp only [Opening.step] at hstep
  split at hstep
  next hen =>
    cases hin : inputStep s.input rs with
    | none => simp [hin] at hstep
    | some run =>
        simp only [hin] at hstep
        split at hstep
        · exact absurd hstep (by simp)
        · obtain rfl := Option.some.inj hstep
          refine ⟨hs.handle, hs.unrecorded, hs.notClosed, hs.peer, hs.listed, hs.gone, ?_⟩
          intro hc
          obtain ⟨hle, hbytes⟩ := hs.bytes hc
          show s.stray ≤ run.held.length
            ∧ run.held.drop s.stray = s.received ++ (rs.map Recv.bytes).flatten
          rw [inputStep_held hin, List.drop_append_of_le_length hle, hbytes, List.length_append]
          exact ⟨by omega, rfl⟩
  next => exact absurd hstep (by simp)

theorem Opening.Inv.handleClose {s s' : Opening} (hok : OpenStep.inTime s .handleClose)
    (hs : s.Inv) (hstep : s.step .handleClose = some s') : s'.Inv := by
  simp only [Opening.step] at hstep
  split at hstep
  next hen =>
    obtain rfl := Option.some.inj hstep
    refine ⟨hs.handle, fun _ hc => absurd hc (by simp), fun hpc => absurd hpc hok, hs.peer,
      fun hc => absurd hc (by simp), fun hpc _ => ?_, fun hc => absurd hc (by simp)⟩
    have hpeer := hs.peer (Or.inr hpc)
    exact rmConn_unrecorded (w := s.world) s.peerAddr hs.handle
      (fun a hl => (hs.listed hen.2 a hl).trans hpeer.symm)
  next => exact absurd hstep (by simp)

/-- **One step** keeps the invariant under the condition. -/
theorem Opening.step_inv (s : Opening) (a : OpenStep) (s' : Opening) (hok : a.inTime s)
    (hs : s.Inv) (hstep : s.step a = some s') : s'.Inv := by
  cases a with
  | register => exact hs.register hstep
  | initialise => exact .initialise hok hs hstep
  | addConn env freed => exact hs.addConn hstep
  | handleInput rs => exact hs.handleInput hstep
  | handleClose => exact .handleClose hok hs hstep

theorem Opening.Inv.endsWell {s : Opening} (hs : s.Inv) : s.EndsWell :=
  fun env freed s' h => (Opening.step_inv s (.addConn env freed) s' trivial hs h).atomic

/-- After addConn the handle is recorded, whatever was there before. -/
theorem addConn_recorded (env : Env) (c : DASvcHandler) (w : World) :
    (ConnMgr.addConn env c w).mConn c.handle ≠ none := by
  unfold ConnMgr.addConn
  cases hm : w.mConn c.handle with
  | none =>
      rw [(SvrMgr.addSvrConn_edits env c.peer c.handle _).onlySvr.mConn]
      simp
  | some d =>
      rw [(SvrMgr.addSvrConn_edits env c.peer c.handle w).onlySvr.mConn, hm]
      simp

/-- A connection that is closed before addConn is recorded by it, when the memory of the
handler still reads as it did. -/
theorem closed_not_endsWell {s : Opening} (hpc : s.pc = .initialised) (hc : s.closed = true) :
    ¬ s.EndsWell := by
  intro h
  have hatomic := h .dial s.svc _ (by simp only [Opening.step, hpc, if_true]; rfl)
  have hgone := ((hatomic rfl).1 hc).1
  apply addConn_recorded .dial s.svc s.world
  simpa [hc] using hgone

/-- **A step that breaks the condition** ends badly when addConn follows. -/
theorem Opening.step_breaks (s : Opening) (a : OpenStep) (hs : s.Inv) (hbad : ¬ a.inTime s) :
    ∃ s', s.step a = some s' ∧ ¬ (s'.EndsWell ∧ s'.Atomic) := by
  cases a with
  | initialise =>
      simp only [OpenStep.inTime, Classical.not_imp] at hbad
      obtain ⟨hpc, hnot⟩ := hbad
      refine ⟨_, by simp only [Opening.step, hpc, if_true]; rfl, ?_⟩
      intro hends
      cases hc : s.closed with
      | true => exact absurd hends.1 (closed_not_endsWell rfl hc)
      | false =>
          -- the bytes in the dropped buffer are missing for good
          have hatomic := hends.1 .dial s.svc _ (by simp only [Opening.step, if_true]; rfl)
          have hleft : (s.input.framed ++ []).drop (min s.stray s.input.framed.length)
              = s.received := (hatomic rfl).2 hc
          obtain ⟨hle, hdrop⟩ := hs.bytes hc
          have hlen := congrArg List.length hdrop
          have hlen' := congrArg List.length hleft
          simp only [InputRun.held, List.length_drop, List.length_append, List.length_nil]
            at hle hlen hlen'
          have hnone : s.received.length = 0 ∨ s.input.buffered.length = 0 := by omega
          exact hnot ⟨hc, hnone.imp List.length_eq_zero_iff.mp List.length_eq_zero_iff.mp⟩
  | handleClose =>
      have hpc : s.pc = .initialised := Classical.not_not.mp hbad
      have hopen := hs.notClosed hpc
      have hen : s.pc ≠ .fresh ∧ s.closed = false := ⟨by rw [hpc]; decide, hopen⟩
      refine ⟨_, by simp only [Opening.step]; rw [if_pos hen], ?_⟩
      intro hends
      exact absurd hends.1 (closed_not_endsWell hpc rfl)
  | register => exact absurd trivial hbad
  | addConn env freed => exact absurd trivial hbad
  | handleInput rs => exact absurd trivial hbad

/-! ## §4. Runs. -/

theorem Opening.Inv.start {w : World} (hw : w.Tracked) {svc : DASvcHandler}
    (hpos : 0 ≤ svc.handle) (hfree : w.fds svc.handle = none) (e : Errno)
    (phead : Option MessageBlock) (addr : Addr) :
    (Opening.start w svc e phead addr).Inv := by
  -- a free descriptor is recorded nowhere
  have hl : ∀ a, ¬ w.Lists a svc.handle := by
    intro a hla
    obtain ⟨c, hc, -⟩ := hw.listed a svc.handle hla
    rw [hfree] at hc
    exact absurd hc (by simp)
  have hm : w.mConn svc.handle = none := by rw [hw.recorded, hfree]
  refine ⟨?_, fun _ _ => ⟨hm, hl⟩, ?_, ?_, fun _ a hla => absurd hla (hl a), ?_, fun _ => ?_⟩
  · show svc.handle ≠ -1
    omega
  · exact fun h => absurd h (by simp [Opening.start])
  · exact fun h => absurd h (by simp [Opening.start])
  · exact fun h => absurd h (by simp [Opening.start])
  · show _ ≤ ((phead.map MessageBlock.bytes).getD []).length
      ∧ ((phead.map MessageBlock.bytes).getD []).drop _ = []
    exact ⟨Nat.le_refl _, List.drop_length⟩

/-- **Opening is atomic towards the reactor, exactly**: for a connection established on a
free descriptor in any reachable state, whatever its uninitialised fields hold, a run of
open and the callbacks is atomic in every state, and about to end well wherever only
addConn is left, if and only if when m_phead is set to NULL the connection is open, and
nothing has been received or the buffer is empty, and no handle_close comes between that
and addConn. -/
theorem open_atomic_iff {ops : List Op} {w : World}
    (hw : replay World.step World.start ops = some w) {svc : DASvcHandler}
    (hpos : 0 ≤ svc.handle) (hfree : w.fds svc.handle = none) (e : Errno)
    (phead : Option MessageBlock) (addr : Addr) (acts : List OpenStep) :
    Always Opening.step (fun s => s.EndsWell ∧ s.Atomic) (Opening.start w svc e phead addr) acts
      ↔ Along Opening.step (fun s a => a.inTime s) (Opening.start w svc e phead addr) acts :=
  always_iff_along Opening.step_inv (fun _ hs => ⟨hs.endsWell, hs.atomic⟩) Opening.step_breaks
    acts (Opening.Inv.start (World.Tracked.of_run hw) hpos hfree e phead addr)

/-- A reconnection whose first callback times out before the fields are set, and which is
closed after open has returned. -/
theorem open_atomic_iff_reconnect :
    ∃ w, replay World.step World.start [.addSvr .dial 1 (10, 80), .closed 3] = some w
      ∧ Always Opening.step (fun s => s.EndsWell ∧ s.Atomic)
          (Opening.start w ⟨1, 3, (10, 80), .connected⟩ .ok none (0, 0))
          [.register, .handleInput [.timeout], .initialise,
            .addConn .dial ⟨1, 3, (10, 80), .connected⟩, .handleInput [.data [2, 0], .timeout],
            .handleClose] := by
  refine ⟨_, rfl, (@open_atomic_iff [.addSvr .dial 1 (10, 80), .closed 3] _ rfl _
    (by decide) rfl .ok none (0, 0) _).mpr ?_⟩
  refine .cons trivial rfl (.cons trivial rfl (.cons ?_ rfl (.cons trivial rfl
    (.cons trivial rfl (.cons ?_ rfl trivial)))))
  · exact fun _ => ⟨rfl, Or.inl rfl⟩
  · show OpenPc.returned ≠ OpenPc.initialised
    decide

/-- handle_input reads two bytes before m_phead is set to NULL: they are in no frame and no
buffer when open has returned. -/
theorem open_loses_early_bytes :
    ∃ w s, replay World.step World.start [.addSvr .dial 1 (10, 80), .closed 3] = some w
      ∧ replay Opening.step (Opening.start w ⟨1, 3, (10, 80), .connected⟩ .ok none (0, 0))
          [.register, .handleInput [.data [2, 0], .timeout], .initialise,
            .addConn .dial ⟨1, 3, (10, 80), .connected⟩] = some s
      ∧ ¬ s.Atomic := by
  refine ⟨_, _, rfl, rfl, ?_⟩
  intro h
  have hheld : [] = [(2 : UInt8), 0] := (h rfl).2 rfl
  exact absurd hheld (by simp)

end TcpFramework
