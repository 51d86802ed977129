/-
  TcpFramework.Shutdown — ~SVCMgr and the workers of DATask.

  ~SVCMgr clears g_run and then puts one MB_STOP into the work queue for each worker.  A
  worker whose getq returns after that leaves with the message it has just taken, whatever
  it is: each worker takes at most one more.  putq waits while the bytes in the queue are at
  or above the high-water mark, and when the workers have left nobody lowers them.

  Main results:
    * `step_enough` — there is always a message for every worker that may still take one, so
      no worker is left waiting once the destructor is done.
    * `shutdown_unstuck_iff` — the destructor gets stuck exactly when what is left of the
      backlog, after one message for each of these workers, is at the mark.
-/
import TcpFramework.Lib.StepSystem
import TcpFramework.DATask
import TcpFramework.HandleOutput

namespace TcpFramework

open StepSystem

/-! ## §1. The queue, the workers and the destructor. -/

/-- The capacities of a message's blocks: the head block holds an int, and an MB_STOP block
nothing. -/
def TaskMessage.totalSize : TaskMessage → Nat
  | .request _ cont => 4 + cont.totalSize
  | .stop => 0

/-- The bytes that putq compares with the high-water mark. -/
def taskBytes (q : List TaskMessage) : Nat := q.foldr (fun m n => m.totalSize + n) 0

/-- Where a worker stands in `svc`. -/
inductive SvcPc where
  /-- In getq. -/
  | getq
  /-- getq has returned this message, and g_run is read next. -/
  | test (m : TaskMessage)
  /-- In the body of the loop. -/
  | body (m : TaskMessage)
  /-- `svc` has returned. -/
  | left
  deriving DecidableEq

/-- The work queue, the workers, g_run, and how many calls of finalize ~SVCMgr has to make. -/
structure Shutdown where
  queue : List TaskMessage
  workers : List SvcPc
  gRun : Bool
  toStop : Nat

/-- Every one of the `n` workers is in its first getq. -/
def Shutdown.start (n : Nat) : Shutdown := ⟨[], List.replicate n .getq, true, n⟩

/-- The atomic steps. -/
inductive ShutdownStep where
  /-- The reactor thread's DATask::put. -/
  | put (handle : Int) (mblk : MessageBlock)
  /-- ~SVCMgr sets g_run to false. -/
  | stop
  /-- The putq of a DATask::finalize. -/
  | finalize
  /-- The steps of the worker with this number. -/
  | getq (i : Nat)
  | test (i : Nat)
  | body (i : Nat)

/-- One step.  A putq that waits for space, and a getq that waits for a message, is a step
that is not there yet.  Nothing is put by the reactor thread once it runs ~SVCMgr. -/
def Shutdown.step (s : Shutdown) : ShutdownStep → Option Shutdown
  | .put handle mblk =>
      if s.gRun = true ∧ taskBytes s.queue < highWaterMark then
        some { s with queue := s.queue ++ [DATask.put handle mblk] }
      else none
  | .stop => if s.gRun = true then some { s with gRun := false } else none
  | .finalize =>
      match s.toStop with
      | 0 => none
      | k + 1 =>
          if s.gRun = false ∧ taskBytes s.queue < highWaterMark then
            some { s with queue := s.queue ++ [.stop], toStop := k }
          else none
  | .getq i =>
      match s.workers[i]?, s.queue with
      | some .getq, m :: q => some { s with queue := q, workers := s.workers.set i (.test m) }
      | _, _ => none
  | .test i =>
      match s.workers[i]? with
      | some (.test m) =>
          -- the loop condition: the message is dropped once g_run is false
          some { s with workers := s.workers.set i (if s.gRun then .body m else .left) }
      | _ => none
  | .body i =>
      match s.workers[i]? with
      | some (.body m) =>
          -- MB_STOP breaks out of the loop; a request is processed, or has lost its connection
          some { s with workers := s.workers.set i (if m = .stop then .left else .getq) }
      | _ => none

/-- ~SVCMgr waits for space in putq, and every worker has left. -/
def Shutdown.DestructorStuck (s : Shutdown) : Prop :=
  s.gRun = false ∧ 0 < s.toStop ∧ highWaterMark ≤ taskBytes s.queue
    ∧ ∀ pc ∈ s.workers, pc = .left

/-- The last finalize is done, and a worker waits on an empty queue. -/
def Shutdown.WorkerStuck (s : Shutdown) : Prop :=
  s.gRun = false ∧ s.toStop = 0 ∧ s.queue = [] ∧ SvcPc.getq ∈ s.workers

/-- Neither of the two. -/
structure Shutdown.Unstuck (s : Shutdown) : Prop where
  destructor : ¬ s.DestructorStuck
  worker : ¬ s.WorkerStuck

/-- The worker will call getq once more, or is in it. -/
def SvcPc.takes : SvcPc → Bool
  | .getq => true
  | .body _ => true
  | _ => false

/-- The steps that it takes until it leaves, once g_run is cleared. -/
def SvcPc.remaining : SvcPc → Nat
  | .body _ => 3
  | .getq => 2
  | .test _ => 1
  | .left => 0

/-- The workers that take one more message when g_run is cleared now. -/
def Shutdown.takers (s : Shutdown) : Nat := s.workers.countP SvcPc.takes

/-- What is left of the queue when each of them has taken one. -/
def Shutdown.backlog (s : Shutdown) : List TaskMessage := s.queue.drop s.takers

/-! ## §2. Bytes and counts. -/

theorem taskBytes_append (q q' : List TaskMessage) :
    taskBytes (q ++ q') = taskBytes q + taskBytes q' := by
  induction q with
  | nil => exact (Nat.zero_add _).symm
  | cons m q ih =>
      show m.totalSize + taskBytes (q ++ q') = m.totalSize + taskBytes q + taskBytes q'
      omega

/-- A stop message adds nothing to any rest of the queue. -/
theorem taskBytes_drop_stop (q : List TaskMessage) (k : Nat) :
    taskBytes ((q ++ [TaskMessage.stop]).drop k) = taskBytes (q.drop k) := by
  have hstop : ∀ j, taskBytes (([.stop] : List TaskMessage).drop j) = 0 := by
    intro j
    cases j with
    | zero => rfl
    | succ j => rw [List.drop_succ_cons, List.drop_nil]; rfl
  rw [List.drop_append, taskBytes_append, hstop]
  rfl

/-- The steps that the workers take until they have left. -/
def stepsLeft (ws : List SvcPc) : Nat := ws.foldr (fun pc n => pc.remaining + n) 0

theorem stepsLeft_moved {ws : List SvcPc} {i : Nat} {pc : SvcPc} (h : ws[i]? = some pc)
    (pc' : SvcPc) : stepsLeft (ws.set i pc') + pc.remaining = stepsLeft ws + pc'.remaining := by
  induction ws generalizing i with
  | nil => exact absurd h (by simp)
  | cons w ws ih =>
      cases i with
      | zero =>
          obtain rfl : w = pc := Option.some.inj h
          show pc'.remaining + stepsLeft ws + w.remaining
            = w.remaining + stepsLeft ws + pc'.remaining
          omega
      | succ i =>
          have hrest := ih h
          show w.remaining + stepsLeft (ws.set i pc') + pc.remaining
            = w.remaining + stepsLeft ws + pc'.remaining
          omega

/-- No step is left exactly when every worker has left. -/
theorem stepsLeft_eq_zero_iff {ws : List SvcPc} :
    stepsLeft ws = 0 ↔ ∀ pc ∈ ws, pc = .left := by
  induction ws with
  | nil => exact ⟨fun _ _ hpc => absurd hpc List.not_mem_nil, fun _ => rfl⟩
  | cons w ws ih =>
      rw [List.forall_mem_cons, ← ih]
      show w.remaining + stepsLeft ws = 0 ↔ _
      rw [Nat.add_eq_zero_iff]
      cases w <;> simp [SvcPc.remaining]

/-! ## §3. What every step keeps. -/

/-- The workers are `n`, no stop message is around before ~SVCMgr puts one, and the messages
in the queue and those to come are enough for the workers that take one more. -/
structure Shutdown.Enough (n : Nat) (s : Shutdown) : Prop where
  workers : s.workers.length = n
  bodies : ∀ m, SvcPc.body m ∈ s.workers → m ≠ .stop
  before : s.gRun = true → s.toStop = n ∧ (∀ m ∈ s.queue, m ≠ .stop)
    ∧ ∀ m, SvcPc.test m ∈ s.workers → m ≠ .stop
  enough : s.takers ≤ s.queue.length + s.toStop

namespace Shutdown

theorem Enough.start (n : Nat) : (Shutdown.start n).Enough n where
  workers := List.length_replicate
  bodies := fun m hm => absurd (List.eq_of_mem_replicate hm) (by simp)
  before := fun _ => ⟨rfl, fun _ hm => absurd hm List.not_mem_nil,
    fun m hm => absurd (List.eq_of_mem_replicate hm) (by simp)⟩
  enough := by
    show (List.replicate n SvcPc.getq).countP SvcPc.takes ≤ 0 + n
    have h := List.countP_le_length (p := SvcPc.takes) (l := List.replicate n SvcPc.getq)
    rw [List.length_replicate] at h
    omega

/-- What a step is, worker by worker. -/
theorem step_getq {s s' : Shutdown} {i : Nat} (h : s.step (.getq i) = some s') :
    ∃ m q, s.workers[i]? = some .getq ∧ s.queue = m :: q
      ∧ s' = { s with queue := q, workers := s.workers.set i (.test m) } := by
  unfold step at h
  dsimp only at h
  split at h
  next m q hw hq => exact ⟨m, q, hw, hq, (Option.some.inj h).symm⟩
  next => exact absurd h (by simp)

theorem step_test {s s' : Shutdown} {i : Nat} (h : s.step (.test i) = some s') :
    ∃ m, s.workers[i]? = some (.test m)
      ∧ s' = { s with workers := s.workers.set i (if s.gRun then .body m else .left) } := by
  unfold step at h
  dsimp only at h
  split at h
  next m hw => exact ⟨m, hw, (Option.some.inj h).symm⟩
  next => exact absurd h (by simp)

theorem step_body {s s' : Shutdown} {i : Nat} (h : s.step (.body i) = some s') :
    ∃ m, s.workers[i]? = some (.body m)
      ∧ s' = { s with workers := s.workers.set i (if m = .stop then .left else .getq) } := by
  unfold step at h
  dsimp only at h
  split at h
  next m hw => exact ⟨m, hw, (Option.some.inj h).symm⟩
  next => exact absurd h (by simp)

theorem step_finalize {s s' : Shutdown} (h : s.step .finalize = some s') :
    ∃ k, s.toStop = k + 1 ∧ s.gRun = false ∧ taskBytes s.queue < highWaterMark
      ∧ s' = { s with queue := s.queue ++ [.stop], toStop := k } := by
  unfold step at h
  dsimp only at h
  split at h
  next => exact absurd h (by simp)
  next k hk =>
    split at h
    next hc => exact ⟨k, hk, hc.1, hc.2, (Option.some.inj h).symm⟩
    next => exact absurd h (by simp)

theorem step_put {s s' : Shutdown} {handle : Int} {mblk : MessageBlock}
    (h : s.step (.put handle mblk) = some s') :
    s.gRun = true ∧ s' = { s with queue := s.queue ++ [DATask.put handle mblk] } := by
  unfold step at h
  dsimp only at h
  split at h
  next hc => exact ⟨hc.1, (Option.some.inj h).symm⟩
  next => exact absurd h (by simp)

theorem step_stop {s s' : Shutdown} (h : s.step .stop = some s') :
    s.gRun = true ∧ s' = { s with gRun := false } := by
  unfold step at h
  dsimp only at h
  split at h
  next hc => exact ⟨hc, (Option.some.inj h).symm⟩
  next => exact absurd h (by simp)

/-- The workers that take one more, after one of the workers has moved. -/
theorem takers_moved {s : Shutdown} {i : Nat} {pc : SvcPc} (h : s.workers[i]? = some pc)
    (pc' : SvcPc) :
    (s.workers.set i pc').countP SvcPc.takes + (if pc.takes then 1 else 0)
      = s.takers + if pc'.takes then 1 else 0 := by
  obtain ⟨hlt, hget⟩ := List.getElem?_eq_some_iff.mp h
  have hle := List.boole_getElem_le_countP (p := SvcPc.takes) hlt
  unfold takers
  rw [List.countP_set hlt]
  rw [hget] at hle ⊢
  omega

theorem Enough.put {n : Nat} {s s' : Shutdown} {handle : Int} {mblk : MessageBlock}
    (hs : s.Enough n) (h : s.step (.put handle mblk) = some s') : s'.Enough n := by
  obtain ⟨-, rfl⟩ := step_put h
  refine ⟨hs.workers, hs.bodies, ?_, ?_⟩
  · intro hrun
    obtain ⟨hto, hq, ht⟩ := hs.before hrun
    refine ⟨hto, ?_, ht⟩
    intro m hm
    rcases List.mem_append.mp hm with hm | hm
    · exact hq m hm
    · -- put makes requests only
      obtain rfl := List.mem_singleton.mp hm
      unfold DATask.put
      simp
  · have henough := hs.enough
    show s.takers ≤ (s.queue ++ [DATask.put handle mblk]).length + s.toStop
    rw [List.length_append]
    omega

theorem Enough.stop {n : Nat} {s s' : Shutdown} (hs : s.Enough n)
    (h : s.step .stop = some s') : s'.Enough n := by
  obtain ⟨-, rfl⟩ := step_stop h
  exact ⟨hs.workers, hs.bodies, fun hrun => absurd hrun (by simp), hs.enough⟩

theorem Enough.finalize {n : Nat} {s s' : Shutdown} (hs : s.Enough n)
    (h : s.step .finalize = some s') : s'.Enough n := by
  obtain ⟨k, hk, hrun, -, rfl⟩ := step_finalize h
  refine ⟨hs.workers, hs.bodies, fun hrun' => absurd (hrun.symm.trans hrun') (by simp), ?_⟩
  have henough := hs.enough
  show s.takers ≤ (s.queue ++ [TaskMessage.stop]).length + k
  rw [List.length_append]
  show s.takers ≤ s.queue.length + 1 + k
  omega

/-- A getq takes one message, and one worker fewer is to take another. -/
theorem Enough.getq {n : Nat} {s s' : Shutdown} {i : Nat} (hs : s.Enough n)
    (h : s.step (.getq i) = some s') : s'.Enough n := by
  obtain ⟨m, q, hw, hq, rfl⟩ := step_getq h
  have hmoved : _ + 1 = s.takers + 0 := takers_moved hw (.test m)
  have henough := hs.enough
  rw [hq] at henough
  refine ⟨?_, ?_, ?_, ?_⟩
  · exact (List.length_set ..).trans hs.workers
  · intro m' hm'
    rcases List.mem_or_eq_of_mem_set hm' with hm' | hm'
    · exact hs.bodies m' hm'
    · exact absurd hm' (by simp)
  · intro hrun
    obtain ⟨hto, hmq, ht⟩ := hs.before hrun
    rw [hq] at hmq
    refine ⟨hto, fun m' hm' => hmq m' (List.mem_cons_of_mem m hm'), ?_⟩
    intro m' hm'
    rcases List.mem_or_eq_of_mem_set hm' with hm' | hm'
    · exact ht m' hm'
    · obtain rfl := SvcPc.test.inj hm'
      exact hmq m' List.mem_cons_self
  · show (s.workers.set i (.test m)).countP SvcPc.takes ≤ q.length + s.toStop
    rw [List.length_cons] at henough
    omega

/-- The worker reads g_run: before ~SVCMgr clears it there are as many stop messages to come
as workers. -/
theorem Enough.test {n : Nat} {s s' : Shutdown} {i : Nat} (hs : s.Enough n)
    (h : s.step (.test i) = some s') : s'.Enough n := by
  obtain ⟨m, hw, rfl⟩ := step_test h
  refine ⟨(List.length_set ..).trans hs.workers, ?_, ?_, ?_⟩
  · intro m' hm'
    rcases List.mem_or_eq_of_mem_set hm' with hm' | hm'
    · exact hs.bodies m' hm'
    · split at hm'
      next hrun =>
        obtain rfl := SvcPc.body.inj hm'
        exact (hs.before hrun).2.2 m' (List.mem_of_getElem? hw)
      next => exact absurd hm' (by simp)
  · intro hrun
    obtain ⟨hto, hmq, ht⟩ := hs.before hrun
    refine ⟨hto, hmq, ?_⟩
    intro m' hm'
    rcases List.mem_or_eq_of_mem_set hm' with hm' | hm'
    · exact ht m' hm'
    · rw [if_pos hrun] at hm'
      exact absurd hm' (by simp)
  · by_cases hrun : s.gRun = true
    · -- the worker may become a taker, but all the stop messages are still to come
      have hto := (hs.before hrun).1
      have hle : (s.workers.set i (if s.gRun then .body m else .left)).countP SvcPc.takes ≤ n := by
        rw [← hs.workers, ← List.length_set (i := i)]
        exact List.countP_le_length
      show _ ≤ s.queue.length + s.toStop
      exact Nat.le_trans hle (by omega)
    · -- it leaves, and was no taker
      have hmoved : _ + 0 = s.takers + 0 := takers_moved hw .left
      rw [if_neg hrun]
      have henough := hs.enough
      show (s.workers.set i .left).countP SvcPc.takes ≤ s.queue.length + s.toStop
      omega

theorem Enough.body {n : Nat} {s s' : Shutdown} {i : Nat} (hs : s.Enough n)
    (h : s.step (.body i) = some s') : s'.Enough n := by
  obtain ⟨m, hw, rfl⟩ := step_body h
  have hm := hs.bodies m (List.mem_of_getElem? hw)
  rw [if_neg hm]
  have hmoved : _ + 1 = s.takers + 1 := takers_moved hw .getq
  refine ⟨(List.length_set ..).trans hs.workers, ?_, ?_, ?_⟩
  · intro m' hm'
    rcases List.mem_or_eq_of_mem_set hm' with hm' | hm'
    · exact hs.bodies m' hm'
    · exact absurd hm' (by simp)
  · intro hrun
    obtain ⟨hto, hmq, ht⟩ := hs.before hrun
    refine ⟨hto, hmq, ?_⟩
    intro m' hm'
    rcases List.mem_or_eq_of_mem_set hm' with hm' | hm'
    · exact ht m' hm'
    · exact absurd hm' (by simp)
  · have henough := hs.enough
    show (s.workers.set i .getq).countP SvcPc.takes ≤ s.queue.length + s.toStop
    omega

/-- **Every step leaves enough.** -/
theorem step_enough {n : Nat} {s s' : Shutdown} {i : ShutdownStep} (hs : s.Enough n)
    (h : s.step i = some s') : s'.Enough n := by
  cases i with
  | put handle mblk => exact hs.put h
  | stop => exact hs.stop h
  | finalize => exact hs.finalize h
  | getq i => exact hs.getq h
  | test i => exact hs.test h
  | body i => exact hs.body h

/-! ## §4. After g_run is cleared. -/

/-- **No step changes the bytes of the backlog**, once g_run is cleared. -/
theorem step_backlog {n : Nat} {s s' : Shutdown} {i : ShutdownStep} (hs : s.Enough n)
    (hrun : s.gRun = false) (h : s.step i = some s') :
    s'.gRun = false ∧ taskBytes s'.backlog = taskBytes s.backlog := by
  cases i with
  | put handle mblk =>
      -- the reactor's thread is in the destructor
      obtain ⟨hput, -⟩ := step_put h
      exact absurd (hrun.symm.trans hput) (by simp)
  | stop =>
      obtain ⟨hstop, -⟩ := step_stop h
      exact absurd (hrun.symm.trans hstop) (by simp)
  | finalize =>
      -- an MB_STOP block holds nothing
      obtain ⟨k, -, -, -, rfl⟩ := step_finalize h
      exact ⟨hrun, taskBytes_drop_stop s.queue s.takers⟩
  | getq i =>
      -- the message taken is one of those that the takers were to take
      obtain ⟨m, q, hw, hq, rfl⟩ := step_getq h
      have hone : _ + 1 = s.takers + 0 := takers_moved hw (.test m)
      refine ⟨hrun, ?_⟩
      show taskBytes (q.drop ((s.workers.set i (.test m)).countP SvcPc.takes))
        = taskBytes (s.queue.drop s.takers)
      rw [hq, ← Nat.add_zero s.takers, ← hone, List.drop_succ_cons]
  | test i =>
      obtain ⟨m, hw, rfl⟩ := step_test h
      have hmoved : _ + 0 = s.takers + 0 := takers_moved hw .left
      refine ⟨hrun, ?_⟩
      show taskBytes (s.queue.drop ((s.workers.set i (if s.gRun then .body m else .left)).countP
        SvcPc.takes)) = taskBytes (s.queue.drop s.takers)
      rw [if_neg (by simp [hrun]), Nat.add_right_cancel hmoved]
  | body i =>
      obtain ⟨m, hw, rfl⟩ := step_body h
      have hmoved : _ + 1 = s.takers + 1 := takers_moved hw .getq
      refine ⟨hrun, ?_⟩
      show taskBytes (s.queue.drop ((s.workers.set i (if m = .stop then .left else .getq)).countP
        SvcPc.takes)) = taskBytes (s.queue.drop s.takers)
      rw [if_neg (hs.bodies m (List.mem_of_getElem? hw)), Nat.add_right_cancel hmoved]

/-- When every worker has left, the backlog is the queue. -/
theorem backlog_left {s : Shutdown} (h : ∀ pc ∈ s.workers, pc = .left) : s.backlog = s.queue := by
  have hzero : s.takers = 0 := by
    unfold takers
    rw [List.countP_eq_zero]
    intro pc hpc
    rw [h pc hpc]
    decide
  unfold backlog
  rw [hzero]
  rfl

/-- No worker waits in vain. -/
theorem Enough.worker {n : Nat} {s : Shutdown} (hs : s.Enough n) : ¬ s.WorkerStuck := by
  intro hstuck
  obtain ⟨-, hto, hq, hw⟩ := hstuck
  have hpos : 0 < s.takers := List.countP_pos_iff.mpr ⟨.getq, hw, rfl⟩
  have henough := hs.enough
  rw [hto, hq] at henough
  exact absurd (Nat.lt_of_lt_of_le hpos henough) (Nat.lt_irrefl 0)

/-- A backlog under the mark keeps the destructor going. -/
theorem Enough.unstuck {n : Nat} {s : Shutdown} (hs : s.Enough n)
    (hb : s.gRun = false → taskBytes s.backlog < highWaterMark) : s.Unstuck := by
  refine ⟨?_, hs.worker⟩
  intro hstuck
  obtain ⟨hrun, -, hfull, hleft⟩ := hstuck
  have hlt := hb hrun
  rw [backlog_left hleft] at hlt
  omega

/-- It stays under the mark, whatever happens. -/
theorem Enough.always_unstuck {n : Nat} {s : Shutdown} (hs : s.Enough n) (hrun : s.gRun = false)
    (hb : taskBytes s.backlog < highWaterMark) (later : List ShutdownStep) :
    Always step Unstuck s later := by
  have hkeep : ∀ t i t', True → (t.Enough n ∧ t.gRun = false ∧ taskBytes t.backlog < highWaterMark)
      → step t i = some t'
      → t'.Enough n ∧ t'.gRun = false ∧ taskBytes t'.backlog < highWaterMark := by
    intro t i t' _ ht hstep
    obtain ⟨hno, hbytes⟩ := step_backlog ht.1 ht.2.1 hstep
    exact ⟨step_enough ht.1 hstep, hno, hbytes ▸ ht.2.2⟩
  exact Along.always hkeep (fun _ ht => ht.1.unstuck fun _ => ht.2.2) later s ⟨hs, hrun, hb⟩
    (along_true later s)

/-! ## §5. The way into the stuck state. -/

/-- A full backlog lets every worker take its last step, and ~SVCMgr has one call of
finalize to make. -/
structure Doomed (n : Nat) (s : Shutdown) : Prop where
  enough : s.Enough n
  stopped : s.gRun = false
  toStop : 0 < s.toStop
  full : highWaterMark ≤ taskBytes s.backlog

theorem Doomed.next {n : Nat} {s s' : Shutdown} {i : ShutdownStep} (hs : s.Doomed n)
    (h : s.step i = some s') (hto : s'.toStop = s.toStop) : s'.Doomed n := by
  obtain ⟨hrun, hbytes⟩ := step_backlog hs.enough hs.stopped h
  exact ⟨step_enough hs.enough h, hrun, hto ▸ hs.toStop, hbytes ▸ hs.full⟩

/-- There is a message for a worker in getq. -/
theorem Doomed.queue_cons {n : Nat} {s : Shutdown} (hs : s.Doomed n) :
    ∃ m q, s.queue = m :: q := by
  cases hq : s.queue with
  | nil =>
      have hfull := hs.full
      unfold backlog at hfull
      rw [hq, List.drop_nil] at hfull
      exact absurd hfull (by decide)
  | cons m q => exact ⟨m, q, rfl⟩

/-- The workers leave one after the other, and nothing else happens. -/
theorem Doomed.move {n : Nat} {s : Shutdown} (hs : s.Doomed n) (hpos : 0 < stepsLeft s.workers) :
    ∃ i s', s.step i = some s' ∧ s'.Doomed n ∧ stepsLeft s'.workers < stepsLeft s.workers := by
  obtain ⟨pc, hpc, hne⟩ : ∃ pc ∈ s.workers, pc ≠ .left := by
    by_contra hnone
    have hzero := stepsLeft_eq_zero_iff.mpr fun pc hpc => not_not.mp fun hne =>
      hnone ⟨pc, hpc, hne⟩
    omega
  obtain ⟨i, hi, hget⟩ := List.mem_iff_getElem.mp hpc
  have hw : s.workers[i]? = some pc := by rw [List.getElem?_eq_getElem hi, hget]
  cases pc with
  | getq =>
      obtain ⟨m, q, hq⟩ := hs.queue_cons
      have hstep : s.step (.getq i)
          = some { s with queue := q, workers := s.workers.set i (.test m) } := by
        unfold step
        dsimp only
        rw [hw, hq]
      have hmoved : _ + 2 = _ + 1 := stepsLeft_moved hw (.test m)
      refine ⟨.getq i, _, hstep, hs.next hstep rfl, ?_⟩
      show stepsLeft (s.workers.set i (.test m)) < stepsLeft s.workers
      omega
  | test m =>
      have hstep : s.step (.test i) = some { s with workers := s.workers.set i .left } := by
        unfold step
        dsimp only
        rw [hw, hs.stopped]
        rfl
      have hmoved : _ + 1 = _ + 0 := stepsLeft_moved hw .left
      refine ⟨.test i, _, hstep, hs.next hstep rfl, ?_⟩
      show stepsLeft (s.workers.set i .left) < stepsLeft s.workers
      omega
  | body m =>
      have hstep : s.step (.body i) = some { s with workers := s.workers.set i .getq } := by
        unfold step
        dsimp only
        rw [hw]
        dsimp only
        rw [if_neg (hs.enough.bodies m hpc)]
      have hmoved : _ + 3 = _ + 2 := stepsLeft_moved hw .getq
      refine ⟨.body i, _, hstep, hs.next hstep rfl, ?_⟩
      show stepsLeft (s.workers.set i .getq) < stepsLeft s.workers
      omega
  | left => exact absurd rfl hne

/-- With no step left the destructor is stuck. -/
theorem Doomed.stuck {n : Nat} {s : Shutdown} (hs : s.Doomed n)
    (hzero : stepsLeft s.workers = 0) : s.DestructorStuck := by
  have hleft := stepsLeft_eq_zero_iff.mp hzero
  have hfull := hs.full
  rw [backlog_left hleft] at hfull
  exact ⟨hs.stopped, hs.toStop, hfull, hleft⟩

end Shutdown

/-! ## §6. When shutdown gets stuck. -/

/-- **Shutdown gets stuck exactly on a long backlog.**  ~SVCMgr clears g_run in a state that
a run reaches: whatever happens then, nobody waits for ever, if and only if the messages
that are left when each worker in getq or in the body of its loop has taken one hold fewer
bytes than the high-water mark. -/
theorem shutdown_unstuck_iff {n : Nat} (hn : 1 ≤ n) {events : List ShutdownStep} {s : Shutdown}
    (h : replay Shutdown.step (Shutdown.start n) events = some s) (hrun : s.gRun = true) :
    (∀ later, Always Shutdown.step Shutdown.Unstuck s (.stop :: later))
      ↔ taskBytes s.backlog < highWaterMark := by
  have henough : s.Enough n :=
    replay_invariant' (fun _ _ _ hs hstep => Shutdown.step_enough hs hstep) events _ _
      (Shutdown.Enough.start n) h
  have hstop : s.step .stop = some { s with gRun := false } := if_pos hrun
  have henough' := Shutdown.step_enough henough hstop
  constructor
  · -- with a longer backlog, the workers leave first and the destructor waits
    intro hall
    by_contra hnot
    have hdoomed : Shutdown.Doomed n { s with gRun := false } := by
      refine ⟨henough', rfl, ?_, Nat.le_of_not_lt hnot⟩
      show 0 < s.toStop
      rw [(henough.before hrun).1]
      exact hn
    have hmove : ∀ t : Shutdown, t.Doomed n → 0 < stepsLeft t.workers →
        ∃ a t', True ∧ t.step a = some t' ∧ t'.Doomed n
          ∧ stepsLeft t'.workers < stepsLeft t.workers := by
      intro t ht hpos
      obtain ⟨a, t', ha⟩ := ht.move hpos
      exact ⟨a, t', trivial, ha⟩
    obtain ⟨later, t, -, hlater, ht, hzero⟩ :=
      exists_replay_of_measure (fun t : Shutdown => stepsLeft t.workers) hmove hdoomed
    exact ((hall later).2 _ hstop |>.last hlater).destructor (ht.stuck hzero)
  · intro hlt later
    refine ⟨henough.unstuck (fun hno => absurd (hrun.symm.trans hno) (by simp)), ?_⟩
    intro s' hs'
    obtain rfl : { s with gRun := false } = s' := Option.some.inj (hstop.symm.trans hs')
    exact henough'.always_unstuck rfl hlt later

/-- Two workers, and a message of 16388 bytes that one of them takes. -/
theorem shutdown_unstuck_iff_one_message :
    Always Shutdown.step Shutdown.Unstuck
      ⟨[DATask.put 5 (.new 16384)], [.getq, .getq], true, 2⟩
      [.stop, .getq 0, .finalize, .test 0, .finalize, .getq 1, .test 1] :=
  (@shutdown_unstuck_iff 2 (by decide) [.put 5 (.new 16384)] _ rfl rfl).mpr (by decide) _

/-- One worker leaves with a first message that leaves room, and nobody takes the second. -/
theorem stuck_behind {b b' : MessageBlock} (hb : 4 + b.totalSize < highWaterMark)
    (hb' : highWaterMark ≤ 4 + b'.totalSize) :
    ¬ Always Shutdown.step Shutdown.Unstuck (Shutdown.start 1)
      [.put 3 b, .put 3 b', .stop, .getq 0, .test 0] := by
  have hsecond : Shutdown.step ⟨[DATask.put 3 b], [.getq], true, 1⟩ (.put 3 b')
      = some ⟨[DATask.put 3 b, DATask.put 3 b'], [.getq], true, 1⟩ := if_pos ⟨rfl, hb⟩
  have hrun : replay Shutdown.step (Shutdown.start 1)
      [.put 3 b, .put 3 b', .stop, .getq 0, .test 0]
      = some ⟨[DATask.put 3 b'], [.left], false, 1⟩ :=
    replay_cons.mpr ⟨_, rfl, replay_cons.mpr ⟨_, hsecond, rfl⟩⟩
  intro h
  refine (h.last hrun).destructor ⟨rfl, Nat.one_pos, hb', ?_⟩
  exact fun pc hpc => List.mem_singleton.mp hpc

/-- An empty frame, and one of 16380 bytes. -/
theorem shutdown_stuck :
    ¬ Always Shutdown.step Shutdown.Unstuck (Shutdown.start 1)
      [.put 3 ((MessageBlock.new 4).copy (frameOf [])),
        .put 3 ((MessageBlock.new 16380).copy (frameOf (List.replicate 16376 0x41))),
        .stop, .getq 0, .test 0] := by
  refine stuck_behind ?_ ?_
  · rw [MessageBlock.totalSize, MessageBlock.copy_size]
    decide
  · rw [MessageBlock.totalSize, MessageBlock.copy_size]
    decide

end TcpFramework
