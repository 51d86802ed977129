/-
  TcpFramework.Requests — on whose behalf a request is processed.

  handle_input queues a frame together with the descriptor it was read from.  A worker
  of svc takes the frame out later, asks ConnMgr whether the descriptor is known, and
  calls the processor with it.  Meanwhile connections close, and a descriptor that is
  free again goes to the next connection.

  The frame carries the number only: that some connection has it does not say that it is
  the connection the frame came from.  `answered_to_requester_iff` says that a descriptor
  that is given away while a frame waits, and a connection that closes between isExist and
  the call, are the only ways to go wrong, and that each of them does go wrong.
-/
import TcpFramework.ConnTables
import TcpFramework.DATask

namespace TcpFramework

open StepSystem

/-! ## §1. The service. -/

/-- A message in the work queue.  A request remembers the connection it was read from,
which the program does not: the message holds the descriptor only. -/
inductive Queued where
  | request (conn : DASvcHandler) (mblk : MessageBlock)
  | stop

/-- The message itself. -/
def Queued.message : Queued → TaskMessage
  | .request conn mblk => DATask.put conn.handle mblk
  | .stop => .stop

/-- Where a worker stands in `svc`. -/
inductive WorkerPc where
  /-- Before getq. -/
  | getq
  /-- getq has given it a message, and it reads g_run next. -/
  | taken (q : Queued)
  /-- g_run was set: it asks isExist next, unless the message is MB_STOP. -/
  | check (q : Queued)
  /-- isExist has said yes: `process` is called next. -/
  | call (q : Queued)
  /-- `svc` has returned. -/
  | exited

/-- The managers, the work queue, the workers, and g_run. -/
structure Service where
  world : World
  queue : List Queued
  worker : Nat → WorkerPc
  gRun : Bool

/-- No connection, no message, every worker at its getq. -/
def Service.start : Service := ⟨World.start, [], fun _ => .getq, true⟩

/-- The atomic steps. -/
inductive ServiceStep where
  /-- A connection is accepted, or connected, on a free descriptor. -/
  | opened (env : Env) (handle : Int) (peer : Addr) (origin : Origin)
  /-- The connection with this descriptor runs handle_close. -/
  | closed (handle : Int)
  /-- handle_input of the connection with this descriptor hands over a frame. -/
  | put (handle : Int) (mblk : MessageBlock)
  /-- The destructor of SVCMgr: g_run, and a DATask::finalize. -/
  | stop
  | finalize
  /-- The steps of worker `t`. -/
  | getq (t : Nat)
  | test (t : Nat)
  | isExist (t : Nat)
  | process (t : Nat)

/-- Worker `t` moves on. -/
def Service.moved (s : Service) (t : Nat) (pc : WorkerPc) : Service :=
  { s with worker := Function.update s.worker t pc }

/-- What follows the test of g_run: MB_STOP ends the worker, and an unknown descriptor the
turn. -/
def Queued.checked (w : World) (q : Queued) : WorkerPc :=
  match q.message with
  | .stop => .exited
  | .request handle _ => if ConnMgr.isExist handle w then .call q else .getq

/-- One atomic step. -/
def Service.step (s : Service) : ServiceStep → Option Service
  | .opened env handle peer origin =>
      if 0 ≤ handle ∧ s.world.fds handle = none then
        some { s with world := s.world.establish env handle peer origin }
      else none
  | .closed handle =>
      match s.world.fds handle with
      | none => none
      | some svc => some { s with world := svc.handleClose s.world }
  | .put handle mblk =>
      match s.world.fds handle with
      | none => none
      | some svc => some { s with queue := s.queue ++ [.request svc mblk] }
  | .stop => some { s with gRun := false }
  | .finalize => some { s with queue := s.queue ++ [.stop] }
  | .getq t =>
      match s.worker t, s.queue with
      | .getq, q :: rest => some ({ s with queue := rest }.moved t (.taken q))
      | _, _ => none
  | .test t =>
      match s.worker t with
      | .taken q => some (s.moved t (if s.gRun then .check q else .exited))
      | _ => none
  | .isExist t =>
      match s.worker t with
      | .check q => some (s.moved t (q.checked s.world))
      | _ => none
  | .process t =>
      match s.worker t with
      | .call _ => some (s.moved t .getq)
      | _ => none

/-! ## §2. The property. -/

/-- The message makes `process` call the processor, and was read from `conn`. -/
def Queued.Calls (q : Queued) (conn : DASvcHandler) (c : ProcessorCall) : Prop :=
  ∃ mblk, q = .request conn mblk ∧ DATask.process true conn.handle (some mblk) = some c

/-- Whenever a worker is at the call of the processor with a handle, the connection that
ConnMgr has under the handle is the one the frame was read from, and a reply by onResponse
is written to it. -/
def Service.Answered (s : Service) : Prop :=
  ∀ t q conn c, s.worker t = .call q → q.Calls conn c →
    s.world.mConn c.handle = some conn ∧ SVCMgr.onResponse c.handle s.world = some conn

/-- The step is a worker's. -/
def ServiceStep.ofWorker : ServiceStep → Prop
  | .getq _ => True
  | .test _ => True
  | .isExist _ => True
  | .process _ => True
  | _ => False

/-- However the workers go on from here, every request is answered to its requester. -/
def Service.Safe (s : Service) : Prop :=
  Henceforth Service.step ServiceStep.ofWorker Service.Answered s

/-- The worker may still ask isExist about the message that it has. -/
def WorkerPc.MayAsk (gRun : Bool) (q : Queued) : WorkerPc → Prop
  | .taken p => gRun = true ∧ p = q
  | .check p => p = q
  | _ => False

theorem WorkerPc.MayAsk.cases {gRun : Bool} {q : Queued} {pc : WorkerPc}
    (h : pc.MayAsk gRun q) : (gRun = true ∧ pc = .taken q) ∨ pc = .check q := by
  cases pc with
  | taken p =>
      obtain ⟨hrun, rfl⟩ := h
      exact Or.inl ⟨hrun, rfl⟩
  | check p =>
      obtain rfl : p = q := h
      exact Or.inr rfl
  | _ => exact absurd h (fun no => no)

/-- Some worker may still ask isExist about the message: it is in the queue, or taken out,
while g_run is true, or a worker has read g_run and not asked yet. -/
def Service.Waits (s : Service) (q : Queued) : Prop :=
  (s.gRun = true ∧ q ∈ s.queue) ∨ ∃ t, (s.worker t).MayAsk s.gRun q

/-- The condition on a step: no free descriptor is given to a connection while a frame that
was read from an earlier connection with that descriptor waits, and no connection closes
while a worker is between isExist and the call for a frame of it. -/
def ServiceStep.noReuse (s : Service) : ServiceStep → Prop
  | .opened _ handle _ _ => 0 ≤ handle → s.world.fds handle = none →
      ∀ q conn c, s.Waits q → q.Calls conn c → conn.handle ≠ handle
  | .closed handle => ∀ t q conn c, s.worker t = .call q → q.Calls conn c → conn.handle ≠ handle
  | _ => True

theorem Queued.Calls.handle {q : Queued} {conn : DASvcHandler} {c : ProcessorCall}
    (h : q.Calls conn c) : c.handle = conn.handle := by
  obtain ⟨mblk, -, hc⟩ := h
  unfold DATask.process at hc
  simp only [if_true] at hc
  split at hc
  · exact (congrArg ProcessorCall.handle (Option.some.inj hc)).symm
  · exact absurd hc (by simp)

/-- onResponse reaches whatever ConnMgr has under an open descriptor. -/
theorem SVCMgr.onResponse_eq {w : World} (hw : w.Tracked) (handle : Int) :
    SVCMgr.onResponse handle w = w.fds handle := by
  unfold SVCMgr.onResponse ConnMgr.write ConnMgr.isExist
  rw [hw.recorded]
  cases hc : w.fds handle with
  | none => simp
  | some c =>
      have hpos : 0 ≤ handle := (hw.own handle c hc).2.1
      have hne : handle ≠ -1 := by omega
      simp [hne]

/-! ## §3. The invariant. -/

/-- The invariant: ConnMgr records the open connections; only finitely many workers have
begun; a frame that waits is of a connection that has been opened, and its descriptor is
free or still that connection's; one that is about to be served is of an open connection. -/
structure Service.Inv (s : Service) : Prop where
  tracked : s.world.Tracked
  begun : ∃ n, ∀ t, n ≤ t → s.worker t = .getq
  known : ∀ q conn c, s.Waits q → q.Calls conn c → conn.id < s.world.nextId
  waiting : ∀ q conn c d, s.Waits q → q.Calls conn c → s.world.fds conn.handle = some d →
    d = conn
  serving : ∀ t q conn c, s.worker t = .call q → q.Calls conn c →
    s.world.fds conn.handle = some conn

theorem Service.Inv.answered {s : Service} (hs : s.Inv) : s.Answered := by
  intro t q conn c ht hq
  have hopen := hs.serving t q conn c ht hq
  rw [hq.handle, SVCMgr.onResponse_eq hs.tracked, hs.tracked.recorded]
  exact ⟨hopen, hopen⟩

theorem Service.Inv.start : Service.start.Inv where
  tracked := World.Tracked.start
  begun := ⟨0, fun _ _ => rfl⟩
  known := by
    intro q conn c hq
    rcases hq with ⟨-, hq⟩ | ⟨t, ht⟩
    · exact absurd hq List.not_mem_nil
    · exact absurd ht (fun no => no)
  waiting := fun q conn c d _ _ hd => by simp [Service.start, World.start] at hd
  serving := fun t q conn c ht => by cases ht

/-- The messages that wait after worker `t` has moved on have waited before. -/
theorem Service.waits_moved {s : Service} {queue : List Queued} {t : Nat} {pc : WorkerPc}
    (hqueue : ∀ q ∈ queue, q ∈ s.queue) (hpc : ∀ q, pc.MayAsk s.gRun q → s.Waits q) {q : Queued}
    (hq : Service.Waits ({ s with queue := queue }.moved t pc) q) : s.Waits q := by
  rcases hq with ⟨hrun, hq⟩ | ⟨u, hu⟩
  · exact Or.inl ⟨hrun, hqueue q hq⟩
  · by_cases he : u = t
    · subst he
      exact hpc q (by simpa [Service.moved] using hu)
    · exact Or.inr ⟨u, by simpa [Service.moved, he] using hu⟩

/-- A step of worker `t` that takes nothing but what waits, and serves nobody but an open
connection. -/
theorem Service.Inv.moved {s : Service} (hs : s.Inv) {queue : List Queued} (t : Nat)
    {pc : WorkerPc} (hqueue : ∀ q ∈ queue, q ∈ s.queue)
    (hcheck : ∀ q, pc.MayAsk s.gRun q → s.Waits q)
    (hcall : ∀ q conn c, pc = .call q → q.Calls conn c → s.world.fds conn.handle = some conn) :
    Service.Inv ({ s with queue := queue }.moved t pc) where
  tracked := hs.tracked
  begun := by
    obtain ⟨n, hn⟩ := hs.begun
    refine ⟨max n (t + 1), fun u hu => ?_⟩
    have hne : u ≠ t := by omega
    simpa [Service.moved, hne] using hn u (by omega)
  known := fun q conn c hq => hs.known q conn c (waits_moved hqueue hcheck hq)
  waiting := fun q conn c d hq => hs.waiting q conn c d (waits_moved hqueue hcheck hq)
  serving := by
    intro u q conn c hu hq
    by_cases he : u = t
    · subst he
      exact hcall q conn c (by simpa [Service.moved] using hu) hq
    · exact hs.serving u q conn c (by simpa [Service.moved, he] using hu) hq

/-- A worker that moves to its call after isExist: the frame is of the connection found. -/
theorem Queued.checked_call {w : World} {q q' : Queued} {conn : DASvcHandler}
    {c : ProcessorCall} (hq : q.checked w = .call q') (hcalls : q'.Calls conn c) :
    q' = q ∧ ∃ d, w.mConn conn.handle = some d := by
  obtain ⟨mblk, rfl, -⟩ := hcalls
  cases q with
  | stop => simp [checked, message] at hq
  | request conn' mblk' =>
      simp only [checked, message, DATask.put] at hq
      split at hq
      next hex =>
        cases hq
        exact ⟨rfl, Option.isSome_iff_exists.mp hex⟩
      next => exact absurd hq (by simp)

theorem Queued.checked_not_mayAsk (w : World) (gRun : Bool) (q q' : Queued) :
    ¬ (q.checked w).MayAsk gRun q' := by
  cases q with
  | stop => exact fun no => no
  | request conn mblk =>
      simp only [checked, message, DATask.put]
      split <;> exact fun no => no

/-! ## §4. One step. -/

namespace Service.Inv

variable {s : Service}

/-- A connection opens on a free descriptor that no frame waits for. -/
theorem opened (hs : s.Inv) (env : Env) {handle : Int} (peer : Addr) (origin : Origin)
    (hpos : 0 ≤ handle) (hfree : s.world.fds handle = none)
    (hok : ∀ q conn c, s.Waits q → q.Calls conn c → conn.handle ≠ handle) :
    Service.Inv { s with world := s.world.establish env handle peer origin } := by
  have hm : s.world.mConn handle = none := by rw [hs.tracked.recorded, hfree]
  have hnext := (World.establish_onlySvr env handle peer origin s.world hm).nextId
  refine ⟨hs.tracked.establish env peer origin hpos hfree, hs.begun, ?_, ?_, ?_⟩
  · intro q conn c hq hcalls
    show conn.id < (s.world.establish env handle peer origin).nextId
    rw [hnext]
    exact Nat.lt_succ_of_lt (hs.known q conn c hq hcalls)
  · intro q conn c d hq hcalls hd
    rcases (World.establish_open hm).mp hd with ⟨hh, -⟩ | ⟨-, hold⟩
    · -- the new connection's descriptor: nothing waits for it
      exact absurd hh (hok q conn c hq hcalls)
    · exact hs.waiting q conn c d hq hcalls hold
  · intro t q conn c ht hcalls
    have hold := hs.serving t q conn c ht hcalls
    have hne : conn.handle ≠ handle := by
      intro he
      rw [he, hfree] at hold
      exact absurd hold (by simp)
    show (s.world.establish env handle peer origin).fds conn.handle = some conn
    exact (World.establish_open hm).mpr (Or.inr ⟨hne, hold⟩)

/-- A connection closes that no worker is about to serve. -/
theorem closed (hs : s.Inv) {svc : DASvcHandler} (hc : s.world.fds svc.handle = some svc)
    (hok : ∀ t q conn c, s.worker t = .call q → q.Calls conn c → conn.handle ≠ svc.handle) :
    Service.Inv { s with world := svc.handleClose s.world } := by
  have hpos : 0 ≤ svc.handle := (hs.tracked.own svc.handle svc hc).2.1
  have hnext := (DASvcHandler.handleClose_onlySvr s.world hpos).nextId
  refine ⟨hs.tracked.handleClose hc, hs.begun, ?_, ?_, ?_⟩
  · intro q conn c hq hcalls
    show conn.id < (svc.handleClose s.world).nextId
    rw [hnext]
    exact hs.known q conn c hq hcalls
  · intro q conn c d hq hcalls hd
    exact hs.waiting q conn c d hq hcalls ((DASvcHandler.handleClose_open hpos).mp hd).2
  · intro t q conn c ht hcalls
    show (svc.handleClose s.world).fds conn.handle = some conn
    exact (DASvcHandler.handleClose_open hpos).mpr
      ⟨hok t q conn c ht hcalls, hs.serving t q conn c ht hcalls⟩

/-- A frame is queued that was read from an open connection. -/
theorem put (hs : s.Inv) {handle : Int} {svc : DASvcHandler}
    (hsvc : s.world.fds handle = some svc) (mblk : MessageBlock) :
    Service.Inv { s with queue := s.queue ++ [.request svc mblk] } := by
  obtain ⟨hh, -, hid⟩ := hs.tracked.own handle svc hsvc
  -- what waits now has waited before, or is the frame
  have hcase : ∀ q, Service.Waits { s with queue := s.queue ++ [.request svc mblk] } q →
      s.Waits q ∨ q = .request svc mblk := by
    intro q hq
    rcases hq with ⟨hrun, hq⟩ | ht
    · rcases List.mem_append.mp hq with hq | hq
      · exact Or.inl (Or.inl ⟨hrun, hq⟩)
      · exact Or.inr (List.mem_singleton.mp hq)
    · exact Or.inl (Or.inr ht)
  refine ⟨hs.tracked, hs.begun, ?_, ?_, hs.serving⟩
  · intro q conn c hq hcalls
    rcases hcase q hq with hold | rfl
    · exact hs.known q conn c hold hcalls
    · obtain ⟨mblk', hconn, -⟩ := hcalls
      cases hconn
      show svc.id < s.world.nextId
      exact hid
  · intro q conn c d hq hcalls hd
    rcases hcase q hq with hold | rfl
    · exact hs.waiting q conn c d hold hcalls hd
    · obtain ⟨mblk', hconn, -⟩ := hcalls
      cases hconn
      rw [hh] at hd
      exact Option.some.inj (hd.symm.trans hsvc)

/-- A change of the queue or of g_run after which no further frame waits. -/
theorem noMoreWaits (hs : s.Inv) {queue : List Queued} {gRun : Bool}
    (hwaits : ∀ q conn c, Service.Waits { s with queue := queue, gRun := gRun } q →
      q.Calls conn c → s.Waits q) : Service.Inv { s with queue := queue, gRun := gRun } where
  tracked := hs.tracked
  begun := hs.begun
  known := fun q conn c hq hc => hs.known q conn c (hwaits q conn c hq hc) hc
  waiting := fun q conn c d hq hc => hs.waiting q conn c d (hwaits q conn c hq hc) hc
  serving := hs.serving

theorem stop (hs : s.Inv) : Service.Inv { s with gRun := false } := by
  show Service.Inv { s with queue := s.queue, gRun := false }
  apply hs.noMoreWaits
  intro q conn c hq _
  rcases hq with ⟨hrun, -⟩ | ⟨t, ht⟩
  · exact absurd hrun (by simp)
  · -- who has not read g_run yet will leave
    rcases WorkerPc.MayAsk.cases ht with ⟨hrun, -⟩ | hcheck
    · exact absurd hrun (by simp)
    · have hpc : s.worker t = .check q := hcheck
      exact Or.inr ⟨t, by rw [hpc]; exact rfl⟩

theorem finalize (hs : s.Inv) : Service.Inv { s with queue := s.queue ++ [.stop] } := by
  apply hs.noMoreWaits
  intro q conn c hq hcalls
  rcases hq with ⟨hrun, hq⟩ | ht
  · rcases List.mem_append.mp hq with hq | hq
    · exact Or.inl ⟨hrun, hq⟩
    · -- an MB_STOP calls nobody
      obtain ⟨mblk, hconn, -⟩ := hcalls
      rw [List.mem_singleton.mp hq] at hconn
      cases hconn
  · exact Or.inr ht

/-- A worker takes the first message out. -/
theorem getq (hs : s.Inv) (t : Nat) {q : Queued} {rest : List Queued}
    (hqueue : s.queue = q :: rest) :
    Service.Inv ({ s with queue := rest }.moved t (.taken q)) := by
  refine hs.moved t (fun p hp => ?_) (fun p hp => ?_) (fun _ _ _ h => by cases h)
  · rw [hqueue]
    exact List.mem_cons_of_mem q hp
  · obtain ⟨hrun, rfl⟩ := hp
    exact Or.inl ⟨hrun, by rw [hqueue]; exact List.mem_cons_self⟩

/-- It reads g_run, and goes on with the message or leaves. -/
theorem test (hs : s.Inv) {t : Nat} {q : Queued} (hq : s.worker t = .taken q) :
    Service.Inv (s.moved t (if s.gRun then .check q else .exited)) := by
  cases hrun : s.gRun with
  | true =>
      refine hs.moved t (fun _ h => h) (fun p hp => ?_) (fun _ _ _ h => by cases h)
      obtain rfl : q = p := hp
      exact Or.inr ⟨t, by rw [hq]; exact ⟨hrun, rfl⟩⟩
  | false =>
      refine hs.moved t (fun _ h => h) (fun p hp => ?_) (fun _ _ _ h => by cases h)
      exact absurd hp (fun no => no)

/-- A worker asks isExist about the message that it has taken out. -/
theorem isExist (hs : s.Inv) {t : Nat} {q : Queued} (hq : s.worker t = .check q) :
    Service.Inv (s.moved t (q.checked s.world)) := by
  refine hs.moved t (fun _ h => h)
    (fun p hp => absurd hp (q.checked_not_mayAsk s.world s.gRun p)) ?_
  intro q' conn c hcall hcalls
  -- isExist has found a connection: it is the frame's
  obtain ⟨rfl, d, hd⟩ := Queued.checked_call hcall hcalls
  rw [hs.tracked.recorded] at hd
  rw [hd, hs.waiting q' conn c d (Or.inr ⟨t, by rw [hq]; exact rfl⟩) hcalls hd]

end Service.Inv

/-- **One step** keeps the invariant under the condition. -/
theorem Service.step_inv (s : Service) (a : ServiceStep) (s' : Service) (hok : a.noReuse s)
    (hs : s.Inv) (hstep : s.step a = some s') : s'.Inv := by
  cases a with
  | opened env handle peer origin =>
      simp only [Service.step] at hstep
      split at hstep
      next hfree =>
        obtain rfl := Option.some.inj hstep
        exact hs.opened env peer origin hfree.1 hfree.2 (hok hfree.1 hfree.2)
      next => exact absurd hstep (by simp)
  | closed handle =>
      simp only [Service.step] at hstep
      cases hc : s.world.fds handle with
      | none => simp [hc] at hstep
      | some svc =>
          simp only [hc, Option.some.injEq] at hstep
          subst hstep
          obtain ⟨rfl, -, -⟩ := hs.tracked.own handle svc hc
          exact hs.closed hc hok
  | put handle mblk =>
      simp only [Service.step] at hstep
      split at hstep
      next => exact absurd hstep (by simp)
      next svc hsvc =>
        obtain rfl := Option.some.inj hstep
        exact hs.put hsvc mblk
  | stop =>
      obtain rfl := Option.some.inj hstep
      exact hs.stop
  | finalize =>
      obtain rfl := Option.some.inj hstep
      exact hs.finalize
  | getq t =>
      simp only [Service.step] at hstep
      split at hstep
      next q rest _ hqueue =>
        obtain rfl := Option.some.inj hstep
        exact hs.getq t hqueue
      next => exact absurd hstep (by simp)
  | test t =>
      simp only [Service.step] at hstep
      split at hstep
      next q hq =>
        obtain rfl := Option.some.inj hstep
        exact hs.test hq
      next => exact absurd hstep (by simp)
  | isExist t =>
      simp only [Service.step] at hstep
      split at hstep
      next q hq =>
        obtain rfl := Option.some.inj hstep
        exact hs.isExist hq
      next => exact absurd hstep (by simp)
  | process t =>
      simp only [Service.step] at hstep
      split at hstep
      next =>
        obtain rfl := Option.some.inj hstep
        exact hs.moved t (fun _ h => h) (fun _ no => absurd no fun no => no)
          (fun _ _ _ h => by cases h)
      next => exact absurd hstep (by simp)

/-- The workers' own steps meet the condition, so from the invariant on they do no harm. -/
theorem Service.Inv.safe {s : Service} (hs : s.Inv) : s.Safe := by
  apply Henceforth.of_inv Service.step_inv (fun _ h => h.answered) _ hs
  intro s a ha
  cases a with
  | opened env handle peer origin => exact absurd ha (fun h => h)
  | closed handle => exact absurd ha (fun h => h)
  | _ => trivial

/-! ## §5. What the condition excludes. -/

/-- A worker that has taken out a frame whose descriptor another connection has will serve
that connection. -/
theorem Service.check_unsafe (s : Service) (hw : s.world.Tracked) {t : Nat} {q : Queued}
    {conn other : DASvcHandler} {c : ProcessorCall} (ht : s.worker t = .check q)
    (hq : q.Calls conn c) (hother : s.world.fds conn.handle = some other)
    (hne : other ≠ conn) : ¬ s.Safe := by
  intro hsafe
  have hcheck : q.checked s.world = .call q := by
    obtain ⟨mblk, rfl, -⟩ := hq
    have hex : ConnMgr.isExist conn.handle s.world = true := by
      simp [ConnMgr.isExist, hw.recorded, hother]
    simp [Queued.checked, Queued.message, DATask.put, hex]
  have hstep : s.step (.isExist t) = some (s.moved t (.call q)) := by
    simp [Service.step, ht, hcheck]
  have hnext := hsafe.next (show ServiceStep.ofWorker (.isExist t) from trivial) hstep
  have hreg := (hnext.now t q conn c (Function.update_self t _ s.worker) hq).1
  rw [hq.handle] at hreg
  have hopen : s.world.mConn conn.handle = some conn := hreg
  rw [hw.recorded, hother] at hopen
  exact hne (Option.some.inj hopen)

/-- So will one that is going to read g_run, while it is set. -/
theorem Service.taken_unsafe (s : Service) (hw : s.world.Tracked) (hrun : s.gRun = true)
    {t : Nat} {q : Queued} {conn other : DASvcHandler} {c : ProcessorCall}
    (ht : s.worker t = .taken q) (hq : q.Calls conn c)
    (hother : s.world.fds conn.handle = some other) (hne : other ≠ conn) : ¬ s.Safe := by
  intro hsafe
  have hstep : s.step (.test t) = some (s.moved t (.check q)) := by
    simp [Service.step, ht, hrun]
  have hnext := hsafe.next (show ServiceStep.ofWorker (.test t) from trivial) hstep
  exact check_unsafe (s.moved t (.check q)) hw (Function.update_self t _ s.worker) hq hother hne
    hnext

/-- So does one that finds the frame in the queue, once those before it are taken out. -/
theorem Service.queued_unsafe {q : Queued} {conn other : DASvcHandler} {c : ProcessorCall}
    (hq : q.Calls conn c) (hne : other ≠ conn) (post : List Queued) :
    ∀ (pre : List Queued) (n : Nat) (s : Service), s.world.Tracked → s.gRun = true →
      (∀ t, n ≤ t → s.worker t = .getq) → s.queue = pre ++ q :: post →
      s.world.fds conn.handle = some other → ¬ s.Safe := by
  intro pre
  induction pre with
  | nil =>
      intro n s hw hrun hn hqueue hother hsafe
      have hstep : s.step (.getq n) = some ({ s with queue := post }.moved n (.taken q)) := by
        simp [Service.step, hn n (Nat.le_refl n), hqueue]
      have hnext := hsafe.next (show ServiceStep.ofWorker (.getq n) from trivial) hstep
      exact taken_unsafe (Service.moved { s with queue := post } n (.taken q)) hw hrun
        (Function.update_self n _ s.worker) hq hother hne hnext
  | cons p pre ih =>
      intro n s hw hrun hn hqueue hother hsafe
      -- the next idle worker takes the first message out
      have hstep : s.step (.getq n)
          = some ({ s with queue := pre ++ q :: post }.moved n (.taken p)) := by
        simp [Service.step, hn n (Nat.le_refl n), hqueue]
      have hnext := hsafe.next (show ServiceStep.ofWorker (.getq n) from trivial) hstep
      refine ih (n + 1) (Service.moved { s with queue := pre ++ q :: post } n (.taken p)) hw hrun
        (fun t ht => ?_) rfl hother hnext
      have htn : t ≠ n := by omega
      simpa [Service.moved, htn] using hn t (by omega)

/-- **A step that breaks the condition** goes wrong, at once or when the workers go on. -/
theorem Service.step_breaks (s : Service) (a : ServiceStep) (hs : s.Inv)
    (hbad : ¬ a.noReuse s) : ∃ s', s.step a = some s' ∧ ¬ (s'.Answered ∧ s'.Safe) := by
  cases a with
  | opened env handle peer origin =>
      simp only [ServiceStep.noReuse, not_forall] at hbad
      obtain ⟨hpos, hfree, q, conn, c, hwaits, hq, hsame⟩ := hbad
      have hh : conn.handle = handle := Classical.not_not.mp hsame
      have hm : s.world.mConn handle = none := by rw [hs.tracked.recorded, hfree]
      have hw := hs.tracked.establish env peer origin hpos hfree
      -- the new connection is another one than the frame's
      have hnew : (s.world.establish env handle peer origin).fds conn.handle
          = some ⟨s.world.nextId, handle, peer, origin⟩ :=
        (World.establish_open hm).mpr (Or.inl ⟨hh, rfl⟩)
      have hne : (⟨s.world.nextId, handle, peer, origin⟩ : DASvcHandler) ≠ conn := by
        intro he
        have hid := hs.known q conn c hwaits hq
        rw [← he] at hid
        exact absurd hid (Nat.lt_irrefl _)
      let s' : Service := { s with world := s.world.establish env handle peer origin }
      refine ⟨s', by simp [Service.step, hpos, hfree, s'], fun h => ?_⟩
      rcases hwaits with ⟨hrun, hmem⟩ | ⟨t, ht⟩
      · obtain ⟨pre, post, hqueue⟩ := List.append_of_mem hmem
        obtain ⟨n, hn⟩ := hs.begun
        exact queued_unsafe hq hne post pre n s' hw hrun hn hqueue hnew h.2
      · rcases WorkerPc.MayAsk.cases ht with ⟨hrun, hpc⟩ | hpc
        · exact taken_unsafe s' hw hrun hpc hq hnew hne h.2
        · exact check_unsafe s' hw hpc hq hnew hne h.2
  | closed handle =>
      simp only [ServiceStep.noReuse, not_forall] at hbad
      obtain ⟨t, q, conn, c, ht, hq, hsame⟩ := hbad
      have hh : conn.handle = handle := Classical.not_not.mp hsame
      have hopen : s.world.fds conn.handle = some conn := hs.serving t q conn c ht hq
      refine ⟨{ s with world := conn.handleClose s.world }, ?_, fun h => ?_⟩
      · simp only [Service.step, ← hh, hopen]
      · -- the connection is gone while the worker is at the call
        have hgone := (h.1 t q conn c ht hq).1
        have hpos : 0 ≤ conn.handle := (hs.tracked.own _ conn hopen).2.1
        rw [hq.handle, (DASvcHandler.handleClose_onlySvr s.world hpos).mConn] at hgone
        simp at hgone
  | put handle mblk => exact absurd trivial hbad
  | stop => exact absurd trivial hbad
  | finalize => exact absurd trivial hbad
  | getq t => exact absurd trivial hbad
  | test t => exact absurd trivial hbad
  | isExist t => exact absurd trivial hbad
  | process t => exact absurd trivial hbad

/-! ## §6. Runs. -/

/-- **Requests are served on behalf of their own connections, exactly**: in every state of
a run a worker at the call of the processor serves the connection that ConnMgr has under
the handle, and onResponse answers it, now and however the workers go on, if and only if no
step of the run gives a free descriptor away while a frame of an earlier connection with it
waits, and none closes a connection while a worker is between isExist and the call for a
frame of it. -/
theorem answered_to_requester_iff (acts : List ServiceStep) :
    Always Service.step (fun s => s.Answered ∧ s.Safe) Service.start acts
      ↔ Along Service.step (fun s a => a.noReuse s) Service.start acts :=
  always_iff_along Service.step_inv (fun _ hs => ⟨hs.answered, hs.safe⟩) Service.step_breaks
    acts Service.Inv.start

/-- A client's frame waits in the queue, the client goes, its descriptor is given to
another client, and isExist is satisfied: the reply would go to the second client. -/
theorem answered_to_another_client :
    ∃ s, replay Service.step Service.start
        [.opened .dial 3 (10, 5000) .accepted, .put 3 ((MessageBlock.new 4).copy [2, 0, 4, 3]),
          .closed 3, .opened .dial 3 (11, 5000) .accepted, .getq 0, .test 0, .isExist 0] = some s
      ∧ ¬ s.Answered
      ∧ SVCMgr.onResponse 3 s.world = some ⟨1, 3, (11, 5000), .accepted⟩ := by
  refine ⟨_, rfl, ?_, by decide⟩
  intro h
  have hsome : (DATask.process true 3 (some ((MessageBlock.new 4).copy [2, 0, 4, 3]))).isSome
      = true := by decide
  obtain ⟨c, hc⟩ := Option.isSome_iff_exists.mp hsome
  have hcalls : (Queued.request ⟨0, 3, (10, 5000), .accepted⟩
      ((MessageBlock.new 4).copy [2, 0, 4, 3])).Calls ⟨0, 3, (10, 5000), .accepted⟩ c :=
    ⟨_, rfl, hc⟩
  have hreg := (h 0 _ _ c rfl hcalls).1
  rw [hcalls.handle] at hreg
  exact absurd hreg (by decide)

end TcpFramework
