/-
  TcpFramework.TimerDelivery — what the processors of the timers see.

  A timer that expires queues a message with its id and the time, and TimerTask::svc looks
  the id up when it takes the message out.  Here the expiries and the calls of onProcessor
  are written down, each with the registration it belongs to and the time.

  `timers_delivered` says that the calls are the expiries, in order and once each, with those
  still queued missing at the end; and that a one-shot timer fires at most once.
-/
import Mathlib.Data.List.Nodup
import TcpFramework.Timers

namespace TcpFramework

open StepSystem

/-! ## §1. The log. -/

/-- The timer service, the timers constructed, in the order of their registrations, the
expiries, and the calls of onProcessor. -/
structure TimerLog where
  service : TimerService
  timers : List DataTimer
  expiries : List (Nat × Int)
  calls : List (Nat × Int)

def TimerLog.start : TimerLog := ⟨TimerService.start, [], [], []⟩

/-- The expiry of the timer with this id. -/
def TimerService.expiry (id epoch : Int) (s : TimerService) : Option (Nat × Int) :=
  (s.scheduled id).map fun t => (t.registration, epoch)

/-- The call that svc makes for the next message. -/
def TimerService.nextCall (s : TimerService) : Option (Nat × Int) :=
  s.queue.head?.bind fun m =>
    (TimerTask.dispatch m s).map fun t => (t.registration, m.epoch)

/-- One step of the service, with its entry in the log. -/
def TimerLog.step (l : TimerLog) (e : TimerEvent) : Option TimerLog :=
  (l.service.step e).map fun s =>
    match e with
    | .regist pProc interval id => { l with
        service := s
        timers := if pProc then l.timers ++ [(DataTimer.schedule interval id l.service).1]
          else l.timers }
    | .expire id epoch => { l with
        service := s, expiries := l.expiries ++ (l.service.expiry id epoch).toList }
    | .dispatch => { l with service := s, calls := l.calls ++ l.service.nextCall.toList }

/-- How often the timer of a registration has expired. -/
def TimerLog.fired (l : TimerLog) (registration : Nat) : Nat :=
  (l.expiries.map Prod.fst).count registration

/-- **Delivered**: the calls so far and the messages in the queue are the expiries, in order;
and a one-shot timer has not fired twice. -/
structure TimerLog.Delivered (l : TimerLog) : Prop where
  inOrder : l.expiries = l.calls ++ l.service.queue.map fun m => (m.source, m.epoch)
  oneShot : ∀ t ∈ l.timers, t.periodic = false → l.fired t.registration ≤ 1

/-! ## §2. The invariant. -/

/-- Registrations are numbered, and a one-shot timer that is still scheduled has not
fired. -/
structure TimerLog.Inv (l : TimerLog) : Prop where
  service : l.service.Inv
  delivered : l.Delivered
  numbered : l.timers.map DataTimer.registration = List.range l.service.nextRegistration
  known : ∀ id t, l.service.scheduled id = some t → t ∈ l.timers
  past : ∀ e ∈ l.expiries, e.1 < l.service.nextRegistration
  pending : ∀ id t, l.service.scheduled id = some t → t.periodic = false →
    l.fired t.registration = 0

namespace TimerLog

theorem Inv.start : TimerLog.start.Inv where
  service := TimerService.Inv.start
  delivered := ⟨rfl, fun _ ht => absurd ht List.not_mem_nil⟩
  numbered := rfl
  known := fun _ _ h => absurd h (by simp [TimerLog.start, TimerService.start])
  past := fun _ h => absurd h List.not_mem_nil
  pending := fun _ _ h => absurd h (by simp [TimerLog.start, TimerService.start])

/-- A registration stands for one timer. -/
theorem Inv.unique {l : TimerLog} (h : l.Inv) {t u : DataTimer} (ht : t ∈ l.timers)
    (hu : u ∈ l.timers) (hreg : t.registration = u.registration) : t = u := by
  have hnd : (l.timers.map DataTimer.registration).Nodup := h.numbered ▸ List.nodup_range
  exact List.inj_on_of_nodup_map hnd ht hu hreg

/-- A registration that is to come has not fired. -/
theorem Inv.unfired {l : TimerLog} (h : l.Inv) : l.fired l.service.nextRegistration = 0 := by
  refine List.count_eq_zero.mpr (fun hm => ?_)
  obtain ⟨e, he, heq⟩ := List.mem_map.mp hm
  exact absurd (h.past e he) (by rw [heq]; exact Nat.lt_irrefl _)

/-- A registration: a new timer, scheduled or not, under the next number. -/
theorem Inv.constructed {l : TimerLog} (h : l.Inv) {s : TimerService} (hs : s.Inv)
    {t : DataTimer} (hreg : t.registration = l.service.nextRegistration)
    (hnext : s.nextRegistration = l.service.nextRegistration + 1)
    (hqueue : s.queue = l.service.queue)
    (hsched : ∀ id u, s.scheduled id = some u → u = t ∨ l.service.scheduled id = some u) :
    ({ l with service := s, timers := l.timers ++ [t] } : TimerLog).Inv := by
  refine ⟨hs, ⟨?_, fun u hu hone => ?_⟩, ?_, fun id u hu => ?_, fun e he => ?_,
    fun id u hu hone => ?_⟩
  · show l.expiries = l.calls ++ s.queue.map _
    rw [hqueue]
    exact h.delivered.inOrder
  · rcases List.mem_append.mp hu with hu | hu
    · exact h.delivered.oneShot u hu hone
    · obtain rfl := List.mem_singleton.mp hu
      show l.fired u.registration ≤ 1
      rw [hreg, h.unfired]
      exact Nat.zero_le 1
  · show (l.timers ++ [t]).map DataTimer.registration = List.range s.nextRegistration
    rw [List.map_append, h.numbered, hnext, List.range_succ, ← hreg]
    rfl
  · rcases hsched id u hu with rfl | hold
    · exact List.mem_append_right _ (List.mem_singleton_self _)
    · exact List.mem_append_left _ (h.known id u hold)
  · show e.1 < s.nextRegistration
    rw [hnext]
    exact Nat.lt_succ_of_lt (h.past e he)
  · show l.fired u.registration = 0
    rcases hsched id u hu with rfl | hold
    · rw [hreg, h.unfired]
    · exact h.pending id u hold hone

theorem fired_append (l : TimerLog) (s : TimerService) (e : Nat × Int) (r : Nat) :
    ({ l with service := s, expiries := l.expiries ++ [e] } : TimerLog).fired r
      = l.fired r + if e.1 = r then 1 else 0 := by
  unfold fired
  rw [List.map_append, List.count_append, List.map_singleton, List.count_singleton]
  simp

/-- An expiry. -/
theorem Inv.expired {l : TimerLog} (h : l.Inv) {s : TimerService} (hs : s.Inv) {id : Int}
    {t : DataTimer} (epoch : Int) (ht : l.service.scheduled id = some t)
    (hnext : s.nextRegistration = l.service.nextRegistration)
    (hqueue : s.queue = l.service.queue ++ [t.handleTimeout epoch])
    (hsched : ∀ j u, s.scheduled j = some u → l.service.scheduled j = some u
      ∧ (t.periodic = false → j ≠ id)) :
    ({ l with service := s, expiries := l.expiries ++ [(t.registration, epoch)] } :
      TimerLog).Inv := by
  have htimer := h.known id t ht
  refine ⟨hs, ⟨?_, fun u hu hone => ?_⟩, ?_, fun j u hu => h.known j u (hsched j u hu).1,
    fun e he => ?_, fun j u hu hone => ?_⟩
  · show l.expiries ++ [(t.registration, epoch)] = l.calls ++ s.queue.map _
    rw [hqueue, List.map_append, ← List.append_assoc, ← h.delivered.inOrder]
    rfl
  · rw [fired_append]
    by_cases hreg : t.registration = u.registration
    · -- it is the timer that expires now, for the first time
      obtain rfl := h.unique htimer hu hreg
      have hzero := h.pending id t ht hone
      rw [if_pos rfl]
      omega
    · rw [if_neg hreg]
      exact h.delivered.oneShot u hu hone
  · show l.timers.map _ = List.range s.nextRegistration
    rw [hnext]
    exact h.numbered
  · show e.1 < s.nextRegistration
    rw [hnext]
    rcases List.mem_append.mp he with he | he
    · exact h.past e he
    · obtain rfl := List.mem_singleton.mp he
      have hmem : t.registration ∈ List.range l.service.nextRegistration := by
        rw [← h.numbered]
        exact List.mem_map_of_mem htimer
      exact List.mem_range.mp hmem
  · obtain ⟨hold, hne⟩ := hsched j u hu
    rw [fired_append, h.pending j u hold hone, if_neg]
    intro hreg
    -- a one-shot timer is scheduled under one id, and no longer under that
    obtain rfl := h.unique htimer (h.known j u hold) hreg
    have hown := h.service.own j t (h.service.scheduled j t hold)
    have hown' := h.service.own id t (h.service.scheduled id t ht)
    exact hne hone (hown.symm.trans hown')

/-- **One step** keeps the invariant when schedule_timer answers with a fresh id. -/
theorem Inv.step {l l' : TimerLog} {e : TimerEvent} (hok : e.freshId l.service) (h : l.Inv)
    (hstep : l.step e = some l') : l'.Inv := by
  obtain ⟨s, hs, rfl⟩ := Option.map_eq_some_iff.mp hstep
  have hinv := TimerService.step_inv hok h.service hs
  cases e with
  | regist pProc interval id =>
      cases pProc with
      | false =>
          obtain rfl : l.service = s := Option.some.inj hs
          exact h
      | true =>
          simp only [TimerService.step, Bool.true_eq_false, if_false] at hs
          split at hs
          next =>
            obtain rfl := Option.some.inj hs
            dsimp only
            rw [if_pos rfl]
            -- scheduled under its id, or cancelled again, or never scheduled
            rcases TimerService.onRegistTimer_cases interval id l.service with
              ⟨rfl, he⟩ | ⟨hid, hnone, he⟩ | ⟨hid, hsome, he⟩
            · rw [he] at hinv ⊢
              exact h.constructed hinv rfl rfl rfl (fun j u hu => Or.inr hu)
            · rw [he] at hinv ⊢
              refine h.constructed hinv rfl rfl rfl (fun j u hu => ?_)
              have hu' : Function.update l.service.scheduled id _ j = some u := hu
              by_cases hj : j = id
              · rw [hj, Function.update_self] at hu'
                exact Or.inl (Option.some.inj hu').symm
              · rw [Function.update_of_ne hj] at hu'
                exact Or.inr hu'
            · rw [he] at hinv ⊢
              refine h.constructed hinv rfl rfl rfl (fun j u hu => ?_)
              have hu' : Function.update l.service.scheduled id none j = some u := hu
              by_cases hj : j = id
              · rw [hj, Function.update_self] at hu'
                exact absurd hu' (by simp)
              · rw [Function.update_of_ne hj] at hu'
                exact Or.inr hu'
          next => exact absurd hs (by simp)
  | expire id epoch =>
      simp only [TimerService.step] at hs
      cases ht : l.service.scheduled id with
      | none => simp [ht] at hs
      | some t =>
          have hexp : l.service.expiry id epoch = some (t.registration, epoch) := by
            simp [TimerService.expiry, ht]
          simp only [ht] at hs
          dsimp only
          rw [hexp]
          split at hs
          next hper =>
            obtain rfl := Option.some.inj hs
            refine h.expired hinv epoch ht rfl rfl (fun j u hu => ⟨hu, fun hone => ?_⟩)
            exact absurd hper (by rw [hone]; simp)
          next =>
            obtain rfl := Option.some.inj hs
            refine h.expired hinv epoch ht rfl rfl (fun j u hu => ?_)
            have hu' : Function.update l.service.scheduled id none j = some u := hu
            by_cases hj : j = id
            · rw [hj, Function.update_self] at hu'
              exact absurd hu' (by simp)
            · rw [Function.update_of_ne hj] at hu'
              exact ⟨hu', fun _ => hj⟩
  | dispatch =>
      simp only [TimerService.step] at hs
      cases hq : l.service.queue with
      | nil => simp [hq] at hs
      | cons m q =>
          simp only [hq, Option.some.injEq] at hs
          obtain rfl := hs
          -- the table has the timer that expired under the id of the message
          obtain ⟨t, ht, hreg⟩ := h.service.queued m (hq ▸ List.mem_cons_self)
          have hcall : l.service.nextCall = some (m.source, m.epoch) := by
            simp [TimerService.nextCall, hq, TimerTask.dispatch, ht, hreg]
          dsimp only
          rw [hcall]
          refine ⟨hinv, ⟨?_, h.delivered.oneShot⟩, h.numbered, h.known, h.past, h.pending⟩
          show l.expiries = (l.calls ++ [(m.source, m.epoch)]) ++ q.map _
          rw [h.delivered.inOrder, hq, List.append_assoc]
          rfl

end TimerLog

end TcpFramework
