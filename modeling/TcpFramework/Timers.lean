/-
  TcpFramework.Timers — onRegistTimer, the timer queue of the reactor and TimerTask::svc.

  A registered timer is entered in m_mTProc under the id that schedule_timer gave it, and
  nothing is ever taken out of that table.  The reactor gives the id of a one-shot timer
  away again once the timer has expired; addTimeProc then finds the old entry and refuses
  the new timer.  As long as that does not happen, what expires under an id belongs to the
  entry that is there, and svc calls its processor.

  `timers_correct_iff` says so for whole histories.  A registration, an expiry and a
  dispatch are one atomic step each.
-/
import TcpFramework.Lib.StepSystem

namespace TcpFramework

open StepSystem

/-! ## §1. The timers. -/

/-- A DataTimer.  The number of its registration stands for the object and for its
TimerProcessor. -/
structure DataTimer where
  registration : Nat
  mThandle : Int
  periodic : Bool
  deriving DecidableEq

/-- What handle_timeout queues, and the registration whose timer expired. -/
structure TimerMessage where
  thandle : Int
  epoch : Int
  source : Nat
  deriving DecidableEq

/-- The timer queue of the reactor, the table and the message queue of TimerTask, and the
record of what has happened. -/
structure TimerService where
  /-- The timers that ACE has scheduled, by id. -/
  scheduled : Int → Option DataTimer
  /-- The ids of the one-shot timers that have expired. -/
  expired : List Int
  mTProc : Int → Option DataTimer
  queue : List TimerMessage
  nextRegistration : Nat
  /-- The answer of each schedule_timer, and what onRegistTimer returned then. -/
  registered : List (Int × Bool)
  /-- For each message dispatched: whose timer it was, and whose processor was called. -/
  dispatched : List (Nat × Option Nat)

/-- No timer has been registered. -/
def TimerService.start : TimerService := ⟨fun _ => none, [], fun _ => none, [], 0, [], []⟩

/-- `~DataTimer`: the timer is cancelled. -/
def DataTimer.destroy (t : DataTimer) (s : TimerService) : TimerService :=
  if t.mThandle ≠ -1 then { s with scheduled := Function.update s.scheduled t.mThandle none }
  else s

/-- `DataTimer::handle_timeout`: the message for TimerTask. -/
def DataTimer.handleTimeout (t : DataTimer) (epoch : Int) : TimerMessage :=
  ⟨t.mThandle, epoch, t.registration⟩

/-- `TimerTask::addTimeProc`. -/
def TimerTask.addTimeProc (t : DataTimer) (s : TimerService) : Bool × TimerService :=
  if t.mThandle ≠ -1 then
    match s.mTProc t.mThandle with
    | none => (true, { s with mTProc := Function.update s.mTProc t.mThandle (some t) })
    | some _ => (false, s)
  else (false, s)

/-- What `TimerTask::svc` does with a message: the timer whose processor it calls. -/
def TimerTask.dispatch (m : TimerMessage) (s : TimerService) : Option DataTimer :=
  s.mTProc m.thandle

/-- The constructor of DataTimer: schedule_timer has given it this id, or -1. -/
def DataTimer.schedule (interval id : Int) (s : TimerService) : DataTimer × TimerService :=
  let t : DataTimer := ⟨s.nextRegistration, id, 0 < interval⟩
  (t, { s with
    nextRegistration := s.nextRegistration + 1
    scheduled := if id = -1 then s.scheduled else Function.update s.scheduled id (some t) })

/-- `SVCMgr::onRegistTimer`; `pProc` is false for NULL. -/
def SVCMgr.onRegistTimer (pProc : Bool) (interval id : Int) (s : TimerService) :
    Bool × TimerService :=
  if pProc = false then (false, s)
  else
    let (ptimer, s₁) := DataTimer.schedule interval id s
    if ptimer.mThandle ≠ -1 ∧ (TimerTask.addTimeProc ptimer s₁).1 = true then
      (true, (TimerTask.addTimeProc ptimer s₁).2)
    else
      -- the new timer is deleted, which cancels it
      (false, ptimer.destroy s₁)

/-! ## §2. Histories. -/

/-- What happens next. -/
inductive TimerEvent where
  /-- onRegistTimer is called; schedule_timer, if it is called, answers `id`. -/
  | regist (pProc : Bool) (interval id : Int)
  /-- The timer with this id expires. -/
  | expire (id epoch : Int)
  /-- svc takes the next message. -/
  | dispatch
  deriving DecidableEq

/-- One step.  schedule_timer does not give away the id of a timer that is scheduled. -/
def TimerService.step (s : TimerService) : TimerEvent → Option TimerService
  | .regist pProc interval id =>
      if pProc = false then some (SVCMgr.onRegistTimer pProc interval id s).2
      else if id = -1 ∨ s.scheduled id = none then
        let r := SVCMgr.onRegistTimer pProc interval id s
        some { r.2 with registered := s.registered ++ [(id, r.1)] }
      else none
  | .expire id epoch =>
      match s.scheduled id with
      | none => none
      | some t =>
          if t.periodic then some { s with queue := s.queue ++ [t.handleTimeout epoch] }
          else some { s with
            -- a one-shot timer leaves the timer queue, and stays in m_mTProc
            queue := s.queue ++ [t.handleTimeout epoch]
            scheduled := Function.update s.scheduled id none
            expired := id :: s.expired }
  | .dispatch =>
      match s.queue with
      | [] => none
      | m :: q => some { s with
          queue := q
          dispatched := s.dispatched
            ++ [(m.source, (TimerTask.dispatch m s).map DataTimer.registration)] }

/-- Every registration that got an id was accepted, and every message dispatched has called
the processor of the registration whose timer expired. -/
structure TimerService.Correct (s : TimerService) : Prop where
  accepted : ∀ r ∈ s.registered, r.1 ≠ -1 → r.2 = true
  called : ∀ d ∈ s.dispatched, d.2 = some d.1

/-- The condition: schedule_timer does not answer with the id of a one-shot timer that has
expired. -/
def TimerEvent.freshId (s : TimerService) : TimerEvent → Prop
  | .regist pProc _ id => pProc = true → id ≠ -1 → id ∉ s.expired
  | _ => True

/-! ## §3. The invariant. -/

/-- The table holds what is scheduled and what has expired, each timer under its own id, and
the messages in the queue come from timers of the table. -/
structure TimerService.Inv (s : TimerService) : Prop where
  correct : s.Correct
  scheduled : ∀ id t, s.scheduled id = some t → s.mTProc id = some t
  known : ∀ id t, s.mTProc id = some t → s.scheduled id = some t ∨ id ∈ s.expired
  own : ∀ id t, s.mTProc id = some t → t.mThandle = id
  expired : ∀ id ∈ s.expired, (∃ t, s.mTProc id = some t) ∧ s.scheduled id = none
  queued : ∀ m ∈ s.queue, ∃ t, s.mTProc m.thandle = some t ∧ t.registration = m.source

namespace TimerService

theorem Inv.start : TimerService.start.Inv where
  correct := ⟨fun _ hr => absurd hr List.not_mem_nil, fun _ hd => absurd hd List.not_mem_nil⟩
  scheduled := fun _ _ h => absurd h (by simp [TimerService.start])
  known := fun _ _ h => absurd h (by simp [TimerService.start])
  own := fun _ _ h => absurd h (by simp [TimerService.start])
  expired := fun _ h => absurd h List.not_mem_nil
  queued := fun _ h => absurd h List.not_mem_nil

/-- What a registration does. -/
theorem onRegistTimer_cases (interval id : Int) (s : TimerService) :
    (id = -1 ∧ SVCMgr.onRegistTimer true interval id s
        = (false, { s with nextRegistration := s.nextRegistration + 1 })) ∨
    (id ≠ -1 ∧ s.mTProc id = none ∧ SVCMgr.onRegistTimer true interval id s
        = (true, { s with
            nextRegistration := s.nextRegistration + 1
            scheduled := Function.update s.scheduled id
              (some ⟨s.nextRegistration, id, 0 < interval⟩)
            mTProc := Function.update s.mTProc id
              (some ⟨s.nextRegistration, id, 0 < interval⟩) })) ∨
    (id ≠ -1 ∧ (∃ t, s.mTProc id = some t) ∧ SVCMgr.onRegistTimer true interval id s
        = (false, { s with
            nextRegistration := s.nextRegistration + 1
            scheduled := Function.update s.scheduled id none })) := by
  unfold SVCMgr.onRegistTimer DataTimer.schedule TimerTask.addTimeProc DataTimer.destroy
  by_cases hid : id = -1
  · exact Or.inl ⟨hid, by simp [hid]⟩
  · cases ht : s.mTProc id with
    | none => exact Or.inr (Or.inl ⟨hid, rfl, by simp [hid, ht]⟩)
    | some t => exact Or.inr (Or.inr ⟨hid, ⟨t, rfl⟩, by simp [hid, ht]⟩)

/-- A registration without an id changes nothing but the record. -/
theorem Inv.noId {s : TimerService} (hs : s.Inv) :
    ({ s with nextRegistration := s.nextRegistration + 1,
              registered := s.registered ++ [(-1, false)] } : TimerService).Inv := by
  refine ⟨⟨fun r hr hne => ?_, hs.correct.called⟩, hs.scheduled, hs.known, hs.own, hs.expired,
    hs.queued⟩
  rcases List.mem_append.mp hr with hr | hr
  · exact hs.correct.accepted r hr hne
  · rw [List.mem_singleton.mp hr] at hne
    exact absurd rfl hne

/-- A registration that is entered in the table. -/
theorem Inv.entered {s : TimerService} (hs : s.Inv) {id : Int} {t : DataTimer}
    (hnone : s.mTProc id = none) (ht : t.mThandle = id) :
    ({ s with nextRegistration := s.nextRegistration + 1,
              scheduled := Function.update s.scheduled id (some t),
              mTProc := Function.update s.mTProc id (some t),
              registered := s.registered ++ [(id, true)] } : TimerService).Inv := by
  -- the table has nothing under the id, so what it has is under others
  have hother : ∀ {j : Int} {u : DataTimer}, s.mTProc j = some u → j ≠ id := by
    intro j u hu hj
    rw [hj, hnone] at hu
    exact absurd hu (by simp)
  refine ⟨⟨fun r hr hne => ?_, hs.correct.called⟩, fun j u hu => ?_, fun j u hu => ?_,
    fun j u hu => ?_, fun j hj => ?_, fun m hm => ?_⟩
  · rcases List.mem_append.mp hr with hr | hr
    · exact hs.correct.accepted r hr hne
    · rw [List.mem_singleton.mp hr]
  · show Function.update s.mTProc id (some t) j = some u
    have hu' : Function.update s.scheduled id (some t) j = some u := hu
    by_cases hj : j = id
    · rw [hj, Function.update_self] at hu' ⊢
      exact hu'
    · rw [Function.update_of_ne hj] at hu' ⊢
      exact hs.scheduled j u hu'
  · show Function.update s.scheduled id (some t) j = some u ∨ j ∈ s.expired
    have hu' : Function.update s.mTProc id (some t) j = some u := hu
    by_cases hj : j = id
    · rw [hj, Function.update_self] at hu' ⊢
      exact Or.inl hu'
    · rw [Function.update_of_ne hj] at hu' ⊢
      exact hs.known j u hu'
  · have hu' : Function.update s.mTProc id (some t) j = some u := hu
    by_cases hj : j = id
    · rw [hj, Function.update_self] at hu'
      rw [← Option.some.inj hu', ht, hj]
    · rw [Function.update_of_ne hj] at hu'
      exact hs.own j u hu'
  · obtain ⟨⟨u, hu⟩, hfree⟩ := hs.expired j hj
    have hne := hother hu
    refine ⟨⟨u, ?_⟩, ?_⟩
    · show Function.update s.mTProc id (some t) j = some u
      rw [Function.update_of_ne hne, hu]
    · show Function.update s.scheduled id (some t) j = none
      rw [Function.update_of_ne hne, hfree]
  · obtain ⟨u, hu, hreg⟩ := hs.queued m hm
    refine ⟨u, ?_, hreg⟩
    show Function.update s.mTProc id (some t) m.thandle = some u
    rw [Function.update_of_ne (hother hu), hu]

/-- The message of a timer that expires. -/
theorem Inv.put {s : TimerService} (hs : s.Inv) {id : Int} {t : DataTimer}
    (ht : s.scheduled id = some t) (epoch : Int) :
    ({ s with queue := s.queue ++ [t.handleTimeout epoch] } : TimerService).Inv := by
  refine ⟨⟨hs.correct.accepted, hs.correct.called⟩, hs.scheduled, hs.known, hs.own, hs.expired,
    fun m hm => ?_⟩
  rcases List.mem_append.mp hm with hm | hm
  · exact hs.queued m hm
  · have hm' := hs.scheduled id t ht
    rw [List.mem_singleton.mp hm]
    refine ⟨t, ?_, rfl⟩
    show s.mTProc t.mThandle = some t
    rw [hs.own id t hm', hm']

/-- A one-shot timer that is no longer scheduled. -/
theorem Inv.finished {s : TimerService} (hs : s.Inv) {id : Int} {t : DataTimer}
    (ht : s.scheduled id = some t) :
    ({ s with scheduled := Function.update s.scheduled id none,
              expired := id :: s.expired } : TimerService).Inv := by
  refine ⟨⟨hs.correct.accepted, hs.correct.called⟩, fun j u hu => ?_, fun j u hu => ?_, hs.own,
    fun j hj => ?_, hs.queued⟩
  · have hu' : Function.update s.scheduled id none j = some u := hu
    by_cases hj : j = id
    · rw [hj, Function.update_self] at hu'
      exact absurd hu' (by simp)
    · rw [Function.update_of_ne hj] at hu'
      exact hs.scheduled j u hu'
  · show Function.update s.scheduled id none j = some u ∨ j ∈ id :: s.expired
    by_cases hj : j = id
    · exact Or.inr (hj ▸ List.mem_cons_self)
    · rw [Function.update_of_ne hj]
      exact (hs.known j u hu).imp (fun h => h) (List.mem_cons_of_mem id)
  · show (∃ t, s.mTProc j = some t) ∧ Function.update s.scheduled id none j = none
    by_cases hjid : j = id
    · rw [hjid, Function.update_self]
      exact ⟨⟨t, hs.scheduled id t ht⟩, rfl⟩
    · rw [Function.update_of_ne hjid]
      exact hs.expired j ((List.mem_cons.mp hj).resolve_left hjid)

/-- A message that svc takes calls the processor of its own registration. -/
theorem Inv.dispatched {s : TimerService} (hs : s.Inv) {m : TimerMessage} {q : List TimerMessage}
    (hq : s.queue = m :: q) :
    ({ s with queue := q, dispatched := s.dispatched
        ++ [(m.source, (TimerTask.dispatch m s).map DataTimer.registration)] } :
      TimerService).Inv := by
  have hmem : ∀ m' ∈ q, m' ∈ s.queue := fun m' hm' => hq ▸ List.mem_cons_of_mem m hm'
  refine ⟨⟨hs.correct.accepted, fun d hd => ?_⟩, hs.scheduled, hs.known, hs.own, hs.expired,
    fun m' hm' => hs.queued m' (hmem m' hm')⟩
  rcases List.mem_append.mp hd with hd | hd
  · exact hs.correct.called d hd
  · obtain ⟨t, ht, hreg⟩ := hs.queued m (hq ▸ List.mem_cons_self)
    rw [List.mem_singleton.mp hd]
    show (s.mTProc m.thandle).map DataTimer.registration = some m.source
    rw [ht, ← hreg]
    rfl

/-- **One step** keeps the invariant when schedule_timer answers with a fresh id. -/
theorem step_inv {s s' : TimerService} {i : TimerEvent} (hok : i.freshId s) (hs : s.Inv)
    (h : s.step i = some s') : s'.Inv := by
  cases i with
  | regist pProc interval id =>
      cases pProc with
      | false =>
          -- onRegistTimer returns at once
          obtain rfl : s = s' := Option.some.inj h
          exact hs
      | true =>
          simp only [TimerService.step, Bool.true_eq_false, if_false] at h
          split at h
          next hfree =>
            obtain rfl := Option.some.inj h
            rcases onRegistTimer_cases interval id s with
              ⟨rfl, he⟩ | ⟨hid, hnone, he⟩ | ⟨hid, hsome, he⟩
            · rw [he]
              exact hs.noId
            · rw [he]
              exact hs.entered hnone rfl
            · -- an id in the table is of a scheduled timer or an expired one
              obtain ⟨t, ht⟩ := hsome
              rcases hs.known id t ht with hsched | hexp
              · rw [hfree.resolve_left hid] at hsched
                exact absurd hsched (by simp)
              · exact absurd hexp (hok rfl hid)
          next => exact absurd h (by simp)
  | expire id epoch =>
      simp only [TimerService.step] at h
      cases ht : s.scheduled id with
      | none => simp [ht] at h
      | some t =>
          simp only [ht] at h
          split at h
          · -- a periodic timer stays scheduled
            obtain rfl := Option.some.inj h
            exact hs.put ht epoch
          · obtain rfl := Option.some.inj h
            exact (hs.put ht epoch).finished ht
  | dispatch =>
      simp only [TimerService.step] at h
      cases hq : s.queue with
      | nil => simp [hq] at h
      | cons m q =>
          simp only [hq, Option.some.injEq] at h
          subst h
          exact hs.dispatched hq

/-- **A step that breaks the condition** refuses a registration. -/
theorem step_refuses {s : TimerService} {i : TimerEvent} (hs : s.Inv) (hno : ¬ i.freshId s) :
    ∃ s', s.step i = some s' ∧ ¬ s'.Correct := by
  cases i with
  | regist pProc interval id =>
      obtain ⟨rfl, hid, hexp⟩ : pProc = true ∧ id ≠ -1 ∧ id ∈ s.expired := by
        simpa [TimerEvent.freshId] using hno
      obtain ⟨⟨t, ht⟩, hfree⟩ := hs.expired id hexp
      simp only [TimerService.step, Bool.true_eq_false, if_false]
      rw [if_pos (Or.inr hfree)]
      refine ⟨_, rfl, fun hc => ?_⟩
      rcases onRegistTimer_cases interval id s with ⟨h, -⟩ | ⟨-, hnone, -⟩ | ⟨-, -, he⟩
      · exact hid h
      · rw [ht] at hnone
        exact absurd hnone (by simp)
      · rw [he] at hc
        have hmem : (id, false) ∈ s.registered ++ [(id, false)] :=
          List.mem_append_right _ (List.mem_singleton_self _)
        exact absurd (hc.accepted (id, false) hmem hid) (by simp)
  | expire id epoch => exact absurd trivial hno
  | dispatch => exact absurd trivial hno

end TimerService

/-- **Timer registrations stay correct, exactly when ids of expired one-shot timers are not
given away again**: over every history of registrations, expiries and dispatches. -/
theorem timers_correct_iff (events : List TimerEvent) :
    Always TimerService.step TimerService.Correct TimerService.start events
      ↔ Along TimerService.step (fun s i => i.freshId s) TimerService.start events :=
  always_iff_along (fun _ _ _ hok hs h => TimerService.step_inv hok hs h)
    (fun _ hs => hs.correct) (fun _ _ hs hno => TimerService.step_refuses hs hno) events
    TimerService.Inv.start

/-- A one-shot timer expires, and the next registration gets its id: it is refused. -/
theorem registration_refused :
    ¬ Always TimerService.step TimerService.Correct TimerService.start
      [.regist true 0 1, .expire 1 100, .dispatch, .regist true 0 1] := by
  have hrun : ∃ s, replay TimerService.step TimerService.start
      [.regist true 0 1, .expire 1 100, .dispatch, .regist true 0 1] = some s
      ∧ s.registered = [(1, true), (1, false)] := ⟨_, rfl, rfl⟩
  obtain ⟨s, hs, hreg⟩ := hrun
  intro h
  obtain ⟨s₁, hs₁, hr₁⟩ := replay_cons.mp hs
  obtain ⟨s₂, hs₂, hr₂⟩ := replay_cons.mp hr₁
  obtain ⟨s₃, hs₃, hr₃⟩ := replay_cons.mp hr₂
  obtain ⟨s₄, hs₄, hr₄⟩ := replay_cons.mp hr₃
  obtain rfl : s₄ = s := by simpa using hr₄
  have hlast := (((h.2 s₁ hs₁).2 s₂ hs₂).2 s₃ hs₃).2 s₄ hs₄
  have hmem : ((1, false) : Int × Bool) ∈ s₄.registered := by
    rw [hreg]
    decide
  exact absurd (Always.start hlast |>.accepted (1, false) hmem (by decide)) (by decide)

end TcpFramework
