/-
  TcpFramework.WorkQueue — every message of the work queue is handled once.

  handle_input puts frames into the queue of DATask, ~SVCMgr puts stop messages, and any
  number of workers take them out.  A worker that has taken a message reads g_run, asks
  isExist, calls the processor or drops the message, and takes the next one; a worker that
  finds g_run cleared leaves with the message it has taken.

  The workers of Requests are watched here by a ledger: the messages are numbered in the
  order in which they are put, and the number that a worker holds goes with it until the
  message is settled.

  `handled_once` says that messages are taken in the order in which they were put, and
  that none is lost, handled twice or held by two workers, whatever connections do and
  whenever the service stops.
-/
import TcpFramework.Lib.Handout
import TcpFramework.Requests

namespace TcpFramework

open StepSystem

/-! ## §1. The ledger. -/

/-- What has become of a message that was taken. -/
inductive Outcome where
  /-- `process` was called with it. -/
  | processed
  /-- isExist did not know the descriptor. -/
  | unknown
  /-- It was MB_STOP, and the worker left. -/
  | stopped
  /-- g_run was cleared, and the worker left with it. -/
  | dropped
  deriving DecidableEq

/-- The service, the messages put so far, who holds which of them, and what has become of
those that were taken. -/
structure Ledger where
  service : Service
  put : List Queued
  handout : Handout Nat
  outcome : Nat → Option Outcome

/-- Nothing has been put. -/
def Ledger.start : Ledger := ⟨Service.start, [], .start, fun _ => none⟩

/-- Worker `t` settles the message it holds. -/
def Ledger.settle (t : Nat) (o : Outcome) (l : Ledger) : Ledger :=
  match l.handout.holds t with
  | none => l
  | some n => { l with
      handout := l.handout.settle t, outcome := Function.update l.outcome n (some o) }

/-- Worker `t` takes the next message. -/
def Ledger.took (t : Nat) (l : Ledger) : Ledger := { l with handout := l.handout.take t }

/-- One step of the service, with its entry in the ledger. -/
def Ledger.step (l : Ledger) (a : ServiceStep) : Option Ledger :=
  (l.service.step a).map fun s =>
    match a with
    | .getq t => { l with service := s }.took t
    | .test t =>
        if l.service.gRun then { l with service := s }
        else { l with service := s }.settle t .dropped
    | .isExist t =>
        match s.worker t with
        | .call _ => { l with service := s }
        | .exited => { l with service := s }.settle t .stopped
        | _ => { l with service := s }.settle t .unknown
    | .process t => { l with service := s }.settle t .processed
    | _ => { l with service := s, put := l.put ++ s.queue.drop l.service.queue.length }

/-! ## §2. Handled once. -/

/-- The message that a worker holds. -/
def WorkerPc.message : WorkerPc → Option Queued
  | .taken q => some q
  | .check q => some q
  | .call q => some q
  | _ => none

/-- What an outcome says about its message. -/
def Outcome.explains (gRun : Bool) (q : Option Queued) : Outcome → Prop
  | .processed => ∃ conn mblk, q = some (.request conn mblk)
  | .unknown => ∃ conn mblk, q = some (.request conn mblk)
  | .stopped => q = some .stop
  | .dropped => gRun = false

/-- **Every message is handled once**: the messages taken are the first ones put, and the
queue holds the others, in order; each message taken is held by exactly one worker or has
exactly one outcome, and the outcome has a reason. -/
structure Ledger.HandledOnce (l : Ledger) : Prop where
  taken : l.handout.taken ≤ l.put.length
  queue : l.service.queue = l.put.drop l.handout.taken
  once : l.handout.Once
  held : ∀ t, (l.service.worker t).message = (l.handout.holds t).bind (l.put[·]?)
  calling : ∀ t q, l.service.worker t = .call q → ∃ conn mblk, q = .request conn mblk
  settled : ∀ n, n ∈ l.handout.settled ↔ (l.outcome n).isSome = true
  explained : ∀ n o, l.outcome n = some o → o.explains l.service.gRun l.put[n]?

namespace Ledger

/-- The ledger only watches. -/
theorem settle_service (t : Nat) (o : Outcome) (l : Ledger) :
    (l.settle t o).service = l.service := by
  unfold settle
  cases l.handout.holds t <;> rfl

theorem step_service (l : Ledger) (a : ServiceStep) :
    (l.step a).map Ledger.service = l.service.step a := by
  unfold step
  rw [Option.map_map]
  refine (Option.map_congr (fun s _ => ?_)).trans Option.map_id'
  cases a with
  | test t =>
      dsimp only [Function.comp]
      split
      · rfl
      · exact settle_service t _ _
  | isExist t =>
      dsimp only [Function.comp]
      split
      · rfl
      · exact settle_service t _ _
      · exact settle_service t _ _
  | process t => exact settle_service t _ _
  | _ => rfl

theorem HandledOnce.start : Ledger.start.HandledOnce where
  taken := Nat.le_refl _
  queue := rfl
  once := .start
  held := fun _ => rfl
  calling := fun _ _ h => by simp [Ledger.start, Service.start] at h
  settled := fun n => by simp [Ledger.start, Handout.start]
  explained := fun n o h => by simp [Ledger.start] at h

/-- A worker that holds a message of the service holds its number in the ledger. -/
theorem HandledOnce.holds {l : Ledger} (h : l.HandledOnce) {t : Nat} {q : Queued}
    (hq : (l.service.worker t).message = some q) :
    ∃ n, l.handout.holds t = some n ∧ l.put[n]? = some q := by
  rw [h.held t, Option.bind_eq_some_iff] at hq
  exact hq

/-- A number that is held stands for a message. -/
theorem HandledOnce.number {l : Ledger} (h : l.HandledOnce) {t n : Nat}
    (ht : l.handout.holds t = some n) : ∃ q, l.put[n]? = some q :=
  ⟨_, List.getElem?_eq_getElem (Nat.lt_of_lt_of_le (h.once.held_lt ht) h.taken)⟩

/-- A worker at its getq holds nothing. -/
theorem HandledOnce.free {l : Ledger} (h : l.HandledOnce) {t : Nat}
    (ht : (l.service.worker t).message = none) : l.handout.holds t = none := by
  cases hn : l.handout.holds t with
  | none => rfl
  | some n =>
      obtain ⟨q, hq⟩ := h.number hn
      rw [h.held t, hn, Option.bind_some, hq] at ht
      exact absurd ht (by simp)

/-- Steps that put something, or leave the queue as it is, and do not move a worker. -/
theorem HandledOnce.puts {l : Ledger} (h : l.HandledOnce) {s : Service} (more : List Queued)
    (hqueue : s.queue = l.service.queue ++ more) (hworker : s.worker = l.service.worker)
    (hrun : s.gRun = true → l.service.gRun = true) :
    ({ l with service := s, put := l.put ++ s.queue.drop l.service.queue.length } :
      Ledger).HandledOnce := by
  have hmore : s.queue.drop l.service.queue.length = more := by rw [hqueue, List.drop_left]
  -- numbers that are in use keep their messages
  have hkeep : ∀ n, n < l.put.length → (l.put ++ more)[n]? = l.put[n]? :=
    fun n hn => List.getElem?_append_left hn
  rw [hmore]
  refine ⟨?_, ?_, h.once, fun t => ?_, hworker ▸ h.calling, h.settled, fun n o ho => ?_⟩
  · show l.handout.taken ≤ (l.put ++ more).length
    have htaken := h.taken
    rw [List.length_append]
    omega
  · show s.queue = (l.put ++ more).drop l.handout.taken
    rw [hqueue, h.queue, List.drop_append_of_le_length h.taken]
  · show (s.worker t).message = (l.handout.holds t).bind ((l.put ++ more)[·]?)
    rw [hworker, h.held t]
    cases ht : l.handout.holds t with
    | none => rfl
    | some n =>
        have hn : n < l.put.length := Nat.lt_of_lt_of_le (h.once.held_lt ht) h.taken
        exact (hkeep n hn).symm
  · have hn : n < l.put.length := by
      have hmem : n ∈ l.handout.settled := (h.settled n).mpr (by rw [ho]; rfl)
      exact Nat.lt_of_lt_of_le ((h.once.accounted n).mpr (Or.inl hmem)) h.taken
    have hold := h.explained n o ho
    show o.explains s.gRun (l.put ++ more)[n]?
    rw [hkeep n hn]
    cases o with
    | dropped =>
        have hstop : l.service.gRun = false := hold
        cases hs : s.gRun with
        | false => rfl
        | true => exact absurd (hrun hs) (by rw [hstop]; simp)
    | _ => exact hold

/-- A worker takes the first message of the queue. -/
theorem HandledOnce.took {l : Ledger} (h : l.HandledOnce) {t : Nat} {q : Queued}
    {rest : List Queued} (hfree : (l.service.worker t).message = none)
    (hqueue : l.service.queue = q :: rest) :
    ({ l with service := { l.service with queue := rest }.moved t (.taken q) } : Ledger).took
      t |>.HandledOnce := by
  -- its number is that of the first message that has not been taken
  have hdrop : l.put.drop l.handout.taken = q :: rest := by rw [← h.queue, hqueue]
  have hlt : l.handout.taken < l.put.length := by
    have hlen := congrArg List.length hdrop
    rw [List.length_drop, List.length_cons] at hlen
    omega
  rw [List.drop_eq_getElem_cons hlt, List.cons.injEq] at hdrop
  obtain ⟨hq, hrest⟩ := hdrop
  refine ⟨hlt, hrest.symm, h.once.take (h.free hfree), fun t' => ?_, fun t' q' hc => ?_,
    h.settled, h.explained⟩
  swap
  · by_cases ht : t' = t
    · simp [Ledger.took, Service.moved, ht] at hc
    · exact h.calling t' q' (by simpa [Ledger.took, Service.moved, ht] using hc)
  show (Function.update l.service.worker t (.taken q) t').message
    = ((l.handout.take t).holds t').bind (l.put[·]?)
  rw [Handout.holds_take]
  by_cases ht : t' = t
  · subst ht
    rw [Function.update_self, if_pos rfl, Option.bind_some, List.getElem?_eq_getElem hlt, hq]
    rfl
  · rw [Function.update_of_ne ht, if_neg ht]
    exact h.held t'

/-- A worker settles the message it holds, and holds none. -/
theorem HandledOnce.settles {l : Ledger} (h : l.HandledOnce) (o : Outcome) {t : Nat}
    {q : Queued} (hq : (l.service.worker t).message = some q)
    (hwhy : o.explains l.service.gRun (some q)) (pc : WorkerPc) (hpc : pc.message = none) :
    ({ l with service := l.service.moved t pc } : Ledger).settle t o |>.HandledOnce := by
  obtain ⟨n, hn, hput⟩ := h.holds hq
  have hled : ({ l with service := l.service.moved t pc } : Ledger).settle t o
      = { service := l.service.moved t pc, put := l.put, handout := l.handout.settle t,
          outcome := Function.update l.outcome n (some o) } := by
    unfold settle
    simp only [hn]
  have hsettled : (l.handout.settle t).settled = l.handout.settled ++ [n] := by
    show l.handout.settled ++ (l.handout.holds t).toList = _
    rw [hn]
    rfl
  rw [hled]
  refine ⟨h.taken, h.queue, h.once.settle hn, fun t' => ?_, fun t' q' hc => ?_, fun m => ?_,
    fun m o' ho' => ?_⟩
  · show (Function.update l.service.worker t pc t').message
      = ((l.handout.settle t).holds t').bind (l.put[·]?)
    rw [Handout.holds_settle]
    by_cases ht : t' = t
    · subst ht
      rw [Function.update_self, if_pos rfl, hpc]
      rfl
    · rw [Function.update_of_ne ht, if_neg ht]
      exact h.held t'
  · by_cases ht : t' = t
    · have hcall : pc = .call q' := by simpa [Service.moved, ht] using hc
      rw [hcall] at hpc
      exact absurd hpc (by simp [WorkerPc.message])
    · exact h.calling t' q' (by simpa [Service.moved, ht] using hc)
  · show m ∈ (l.handout.settle t).settled ↔ (Function.update l.outcome n (some o) m).isSome = true
    rw [hsettled, List.mem_append, List.mem_singleton, h.settled m]
    by_cases hm : m = n <;> simp [hm]
  · show o'.explains l.service.gRun l.put[m]?
    by_cases hm : m = n
    · subst hm
      obtain rfl : o = o' := by simpa using ho'
      rwa [hput]
    · exact h.explained m o' (by simpa [hm] using ho')

/-- A worker goes on with the message it holds. -/
theorem HandledOnce.goesOn {l : Ledger} (h : l.HandledOnce) {t : Nat} {q : Queued}
    (hq : (l.service.worker t).message = some q) {pc : WorkerPc} (hpc : pc.message = some q)
    (hcall : ∀ q', pc = .call q' → ∃ conn mblk, q' = .request conn mblk) :
    ({ l with service := l.service.moved t pc } : Ledger).HandledOnce := by
  refine ⟨h.taken, h.queue, h.once, fun t' => ?_, fun t' q' hc => ?_, h.settled, h.explained⟩
  · show (Function.update l.service.worker t pc t').message = _
    by_cases ht : t' = t
    · subst ht
      rw [Function.update_self, ← h.held t', hq, hpc]
    · rw [Function.update_of_ne ht]
      exact h.held t'
  · by_cases ht : t' = t
    · exact hcall q' (by simpa [Service.moved, ht] using hc)
    · exact h.calling t' q' (by simpa [Service.moved, ht] using hc)

/-- **One step.** -/
theorem HandledOnce.step {l l' : Ledger} (h : l.HandledOnce) {a : ServiceStep}
    (hstep : l.step a = some l') : l'.HandledOnce := by
  obtain ⟨s, hs, rfl⟩ := Option.map_eq_some_iff.mp hstep
  cases a with
  | opened env handle peer origin =>
      simp only [Service.step] at hs
      split at hs
      next =>
        obtain rfl := Option.some.inj hs
        exact h.puts [] (List.append_nil _).symm rfl id
      next => exact absurd hs (by simp)
  | closed handle =>
      simp only [Service.step] at hs
      split at hs
      next => exact absurd hs (by simp)
      next =>
        obtain rfl := Option.some.inj hs
        exact h.puts [] (List.append_nil _).symm rfl id
  | put handle mblk =>
      simp only [Service.step] at hs
      split at hs
      next => exact absurd hs (by simp)
      next svc _ =>
        obtain rfl := Option.some.inj hs
        exact h.puts [.request svc mblk] rfl rfl id
  | stop =>
      obtain rfl := Option.some.inj hs
      exact h.puts [] (List.append_nil _).symm rfl (fun hrun => absurd hrun (by simp))
  | finalize =>
      obtain rfl := Option.some.inj hs
      exact h.puts [.stop] rfl rfl id
  | getq t =>
      simp only [Service.step] at hs
      split at hs
      next q rest hpc hqueue =>
        obtain rfl := Option.some.inj hs
        exact h.took (by rw [hpc]; rfl) hqueue
      next => exact absurd hs (by simp)
  | test t =>
      simp only [Service.step] at hs
      split at hs
      next q hpc =>
        obtain rfl := Option.some.inj hs
        have hq : (l.service.worker t).message = some q := by rw [hpc]; rfl
        dsimp only
        cases hrun : l.service.gRun with
        | true => exact h.goesOn hq rfl (fun _ hc => by cases hc)
        | false => exact h.settles .dropped hq hrun .exited rfl
      next => exact absurd hs (by simp)
  | isExist t =>
      simp only [Service.step] at hs
      split at hs
      next q hpc =>
        obtain rfl := Option.some.inj hs
        have hq : (l.service.worker t).message = some q := by rw [hpc]; rfl
        have hworker : (l.service.moved t (q.checked l.service.world)).worker t
            = q.checked l.service.world := Function.update_self ..
        dsimp only
        rw [hworker]
        -- MB_STOP, a descriptor that is known, and one that is not
        cases q with
        | stop => exact h.settles .stopped hq rfl .exited rfl
        | request conn mblk =>
            by_cases hex : ConnMgr.isExist conn.handle l.service.world = true
            · have hpc' : (Queued.request conn mblk).checked l.service.world
                  = .call (.request conn mblk) := if_pos hex
              rw [hpc']
              refine h.goesOn hq rfl (fun q' hc => ?_)
              obtain rfl := WorkerPc.call.inj hc
              exact ⟨conn, mblk, rfl⟩
            · have hpc' : (Queued.request conn mblk).checked l.service.world = .getq :=
                if_neg hex
              rw [hpc']
              exact h.settles .unknown hq ⟨conn, mblk, rfl⟩ .getq rfl
      next => exact absurd hs (by simp)
  | process t =>
      simp only [Service.step] at hs
      split at hs
      next q hpc =>
        obtain rfl := Option.some.inj hs
        have hq : (l.service.worker t).message = some q := by rw [hpc]; rfl
        obtain ⟨conn, mblk, rfl⟩ := h.calling t q hpc
        exact h.settles .processed hq ⟨conn, mblk, rfl⟩ .getq rfl
      next => exact absurd hs (by simp)

end Ledger

/-- So none is forgotten: when the queue is empty and no worker holds a message, every message
that was ever put has its outcome, one settlement for each. -/
structure Ledger.Accounted (l : Ledger) : Prop where
  handled : l.HandledOnce
  complete : l.service.queue = [] → (∀ t, (l.service.worker t).message = none) →
    l.handout.settled.Perm (List.range l.put.length)
      ∧ ∀ n, n < l.put.length → (l.outcome n).isSome = true

theorem Ledger.HandledOnce.accounted {l : Ledger} (h : l.HandledOnce) : l.Accounted := by
  refine ⟨h, fun hqueue hidle => ?_⟩
  have hall := h.once.all_settled (fun t => h.free (hidle t))
  have hlen : l.handout.taken = l.put.length := by
    have hle := List.drop_eq_nil_iff.mp (h.queue.symm.trans hqueue)
    exact Nat.le_antisymm h.taken hle
  rw [hlen] at hall
  exact ⟨hall, fun n hn => (h.settled n).mp (hall.mem_iff.mpr (List.mem_range.mpr hn))⟩

/-- **Every message of the work queue is handled once**, in every state of every run: with
any number of workers, whatever connections do and whenever the service stops. -/
theorem handled_once (acts : List ServiceStep) :
    Always Ledger.step Ledger.Accounted Ledger.start acts :=
  Along.always (fun _ _ _ _ h hs => h.step hs) (fun _ h => h.accounted) acts Ledger.start
    Ledger.HandledOnce.start (along_true acts Ledger.start)

end TcpFramework
