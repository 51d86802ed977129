/-
  TcpFramework.Exchange — requests and their replies, over one connection.

  A client writes requests; a worker of the server calls the processor for each, and the
  processor calls onResponse with the descriptor that it is given, once for every reply; a
  worker of the client calls the client's processor for the replies.  Either direction is a
  Link, with one worker.  What the processor replies is a parameter.

  The replies to a request are written one by one, and anything may happen between two of
  them; the worker takes the next request when it has written them all.

  A worker leaves the messages of a connection that has closed alone here; in svc it drops
  them.

  Main results:
    * `exchange_in_order` — the replies arrive in the order of the requests, and all of them
      do when onResponse has not refused any.
    * `exchange_answers` — the requests that have been written can all be answered.
-/
import Mathlib.Order.RelClasses
import TcpFramework.Link

namespace TcpFramework

open StepSystem

/-! ## §1. The two ends. -/

/-- The requests, the replies, the replies that the server's processor has still to write in
the call that it is in, and whether a call of onResponse has not returned 0. -/
structure Exchange where
  there : Link
  back : Link
  pending : List (List UInt8)
  refused : Bool

/-- Both ends have just been opened. -/
def Exchange.start (e e' : Errno) : Exchange := ⟨Link.start e, Link.start e', [], false⟩

/-- The atomic steps. -/
inductive ExchangeStep where
  /-- The client writes a request. -/
  | ask (strMsg : List UInt8)
  /-- The requests are brought on. -/
  | requests (t : Transport)
  /-- A turn of the server's worker: the processor is called. -/
  | serve
  /-- The processor calls onResponse with the next reply. -/
  | reply
  /-- The replies are brought on. -/
  | replies (t : Transport)
  /-- A turn of the client's worker. -/
  | receive

/-- The replies to a call of the processor. -/
def repliesTo (answer : List UInt8 → List (List UInt8)) (c : ProcessorCall) :
    List (List UInt8) := c.payload.elim [] answer

namespace Exchange

/-- `onResponse` at the server. -/
def respond (client : Int) (x : Exchange) (strMsg : List UInt8) : Exchange :=
  match x.back.step client (.write strMsg) with
  | none => { x with refused := true }
  | some back => { x with
      back := back
      refused := x.refused || decide ((x.back.out.out.write strMsg).1 ≠ 0) }

/-- One step, with the descriptors of the connection at the server and at the client. -/
def step (server client : Int) (answer : List UInt8 → List (List UInt8)) (x : Exchange) :
    ExchangeStep → Option Exchange
  | .ask strMsg =>
      (x.there.step server (.write strMsg)).map fun there => { x with there := there }
  | .requests t => (x.there.step server t.step).map fun there => { x with there := there }
  | .serve =>
      -- the connection has not closed, and the last call of the processor has returned
      if x.back.out.failed = false ∧ x.pending = [] then
        (x.there.step server .work).map fun there => { x with
          there := there
          pending := (there.calls.drop x.there.calls.length).flatMap (repliesTo answer) }
      else none
  | .reply =>
      match x.pending with
      | [] => none
      | p :: ps => some (respond client { x with pending := ps } p)
  | .replies t => (x.back.step client t.step).map fun back => { x with back := back }
  | .receive =>
      -- as above, at the client
      if x.there.out.failed then none
      else (x.back.step client .work).map fun back => { x with back := back }

end Exchange

/-- The condition on a step: requests fit into a frame, and unsent rests into the queue. -/
def ExchangeStep.fits (x : Exchange) : ExchangeStep → Prop
  | .ask strMsg => LinkStep.fits x.there (.write strMsg)
  | .requests t => t.step.fits x.there
  | .replies t => t.step.fits x.back
  | _ => True

/-- The step is no request of the client. -/
def ExchangeStep.noAsk : ExchangeStep → Prop
  | .ask _ => False
  | _ => True

/-! ## §2. What a step of a link leaves alone. -/

namespace Link

/-- Nothing is queued or on the wire, and no activation of handle_output has failed. -/
structure Quiet (l : Link) : Prop where
  opened : l.out.failed = false
  out : l.out.out.queue = []
  wire : l.wire = []
  queue : l.queue = []

theorem step_sent {handle : Int} {l l' : Link} {t : Transport}
    (h : l.step handle t.step = some l') : l'.sent = l.sent ∧ l'.calls = l.calls := by
  cases t with
  | output sends =>
      obtain ⟨-, out, -, rfl⟩ := step_output.mp h
      exact ⟨rfl, rfl⟩
  | input rs =>
      obtain ⟨inp, -, -, -, -, rfl⟩ := step_input h
      exact ⟨rfl, rfl⟩

/-- A turn of the worker makes at most one call. -/
theorem work_calls {handle : Int} {l l' : Link} (h : l.step handle .work = some l') :
    l'.sent = l.sent ∧ l'.calls = l.calls ++ l'.calls.drop l.calls.length
      ∧ (l'.calls.drop l.calls.length).length ≤ 1 := by
  obtain ⟨m, q, -, rfl⟩ := step_work h
  refine ⟨rfl, by rw [List.drop_left], ?_⟩
  rw [List.drop_left]
  cases DATask.deliver true m <;> simp

theorem write_sent {handle : Int} {l l' : Link} {strMsg : List UInt8}
    (h : l.step handle (.write strMsg) = some l') :
    l'.calls = l.calls
      ∧ l'.sent = if (l.out.out.write strMsg).1 = 0 then l.sent ++ [strMsg] else l.sent := by
  obtain ⟨out, -, rfl⟩ := Option.map_eq_some_iff.mp h
  exact ⟨rfl, rfl⟩

end Link

/-! ## §3. The invariant. -/

/-- Both links are in order, and what is written back, or is to be written next, are replies
to the calls that the server's processor has had, in order, and all of them unless one was
refused. -/
structure Exchange.Inv (server client : Int) (answer : List UInt8 → List (List UInt8))
    (x : Exchange) : Prop where
  there : x.there.Inv server
  back : x.back.Inv client
  selection : (x.back.sent ++ x.pending).Sublist (x.there.calls.flatMap (repliesTo answer))
  all : x.refused = false → x.back.sent ++ x.pending = x.there.calls.flatMap (repliesTo answer)

namespace Exchange

variable {server client : Int} {answer : List UInt8 → List (List UInt8)}

theorem Inv.start (e e' : Errno) : (Exchange.start e e').Inv server client answer where
  there := Link.Inv.start e server
  back := Link.Inv.start e' client
  selection := List.Sublist.refl []
  all := fun _ => rfl

/-- The replies to a request that fits into a frame do so, too. -/
def Fits (answer : List UInt8 → List (List UInt8)) : Prop :=
  ∀ q p, q.length ≤ maxPayload → p ∈ answer q → p.length ≤ maxPayload

/-- A reply is written behind the others, or refused. -/
theorem respond_spec {x : Exchange} (h : x.back.Inv client) {p : List UInt8}
    (hp : p.length ≤ maxPayload) :
    (x.respond client p).there = x.there ∧ (x.respond client p).pending = x.pending
      ∧ (x.respond client p).back.Inv client
      ∧ (((x.respond client p).refused = x.refused
            ∧ (x.respond client p).back.sent = x.back.sent ++ [p])
        ∨ ((x.respond client p).refused = true
            ∧ (x.respond client p).back.sent = x.back.sent)) := by
  cases hstep : x.back.step client (.write p) with
  | none =>
      have he : x.respond client p = { x with refused := true } := by simp [respond, hstep]
      rw [he]
      exact ⟨rfl, rfl, h, Or.inr ⟨rfl, rfl⟩⟩
  | some back =>
      have he : x.respond client p = { x with
          back := back
          refused := x.refused || decide ((x.back.out.out.write p).1 ≠ 0) } := by
        simp [respond, hstep]
      rw [he]
      have hsent := (Link.write_sent hstep).2
      refine ⟨rfl, rfl, h.write hp hstep, ?_⟩
      by_cases hzero : (x.back.out.out.write p).1 = 0
      · rw [if_pos hzero] at hsent
        exact Or.inl ⟨by simp [hzero], hsent⟩
      · rw [if_neg hzero] at hsent
        exact Or.inr ⟨by simp [hzero], hsent⟩

theorem repliesTo_callOf (handle : Int) (p : List UInt8) :
    repliesTo answer (callOf handle p) = answer p := by
  unfold repliesTo
  rw [payload_callOf]
  rfl

/-- The replies to the calls of a link are replies to what was sent over it. -/
theorem mem_replies {l : Link} (h : l.Inv server) {p : List UInt8}
    (hp : p ∈ l.calls.flatMap (repliesTo answer)) :
    ∃ q, q.length ≤ maxPayload ∧ p ∈ answer q := by
  obtain ⟨c, hc, hp⟩ := List.mem_flatMap.mp hp
  obtain ⟨q, hq, rfl⟩ := List.mem_map.mp (h.calls.1.subset hc)
  rw [repliesTo_callOf] at hp
  exact ⟨q, h.writes.fit q hq, hp⟩

/-- The reply that is to be written next fits into a frame. -/
theorem Inv.pending_fit (hanswer : Fits answer) {x : Exchange}
    (h : x.Inv server client answer) {p : List UInt8} (hp : p ∈ x.pending) :
    p.length ≤ maxPayload := by
  obtain ⟨q, hq, hpq⟩ := mem_replies h.there (h.selection.subset (List.mem_append_right _ hp))
  exact hanswer q p hq hpq

/-- The processor is called: its replies are to be written. -/
theorem Inv.serve {x : Exchange} (h : x.Inv server client answer) (hp : x.pending = [])
    {there : Link} (hthere : x.there.step server .work = some there) :
    ({ x with
      there := there
      pending := (there.calls.drop x.there.calls.length).flatMap (repliesTo answer) } :
      Exchange).Inv server client answer := by
  have hcalls := (Link.work_calls hthere).2.1
  have hall : there.calls.flatMap (repliesTo answer)
      = x.there.calls.flatMap (repliesTo answer)
        ++ (there.calls.drop x.there.calls.length).flatMap (repliesTo answer) := by
    rw [← List.flatMap_append, ← hcalls]
  have hselection := h.selection
  have hold := h.all
  rw [hp, List.append_nil] at hselection hold
  refine ⟨h.there.work hthere, h.back, ?_, fun hr => ?_⟩
  · rw [hall]
    exact hselection.append (.refl _)
  · rw [hall, hold hr]

/-- The next reply is written, or refused. -/
theorem Inv.reply (hanswer : Fits answer) {x : Exchange} (h : x.Inv server client answer)
    {p : List UInt8} {ps : List (List UInt8)} (hp : x.pending = p :: ps) :
    (respond client { x with pending := ps } p).Inv server client answer := by
  have hfit : p.length ≤ maxPayload := h.pending_fit hanswer (by rw [hp]; exact List.mem_cons_self)
  obtain ⟨hthere, hrest, hback, hone⟩ :=
    @respond_spec client { x with pending := ps } h.back p hfit
  have hselection := h.selection
  have hall := h.all
  rw [hp] at hselection hall
  refine ⟨?_, hback, ?_, fun hr => ?_⟩
  · rw [hthere]
    exact h.there
  · rw [hthere, hrest]
    rcases hone with ⟨-, hsent⟩ | ⟨-, hsent⟩
    · rw [hsent, List.append_assoc]
      exact hselection
    · rw [hsent]
      exact ((List.Sublist.refl _).append (List.sublist_cons_self p ps)).trans hselection
  · rcases hone with ⟨hsame, hsent⟩ | ⟨hrefused, -⟩
    · rw [hthere, hrest, hsent, List.append_assoc]
      exact hall (hsame ▸ hr)
    · exact absurd (hr.symm.trans hrefused) (by simp)

/-- **Every step** keeps the invariant, for a processor whose replies fit into a frame. -/
theorem Inv.step (hanswer : Fits answer) {x x' : Exchange}
    {st : ExchangeStep} (hok : st.fits x) (h : x.Inv server client answer)
    (hstep : x.step server client answer st = some x') : x'.Inv server client answer := by
  cases st with
  | ask strMsg =>
      obtain ⟨there, hthere, rfl⟩ := Option.map_eq_some_iff.mp hstep
      have hcalls := (Link.write_sent hthere).1
      exact ⟨h.there.write hok hthere, h.back, hcalls ▸ h.selection, hcalls ▸ h.all⟩
  | requests t =>
      obtain ⟨there, hthere, rfl⟩ := Option.map_eq_some_iff.mp hstep
      have hcalls := (Link.step_sent hthere).2
      exact ⟨h.there.step hok hthere, h.back, hcalls ▸ h.selection, hcalls ▸ h.all⟩
  | serve =>
      simp only [Exchange.step] at hstep
      split at hstep
      next hfree =>
        obtain ⟨there, hthere, rfl⟩ := Option.map_eq_some_iff.mp hstep
        exact h.serve hfree.2 hthere
      next => exact absurd hstep (by simp)
  | reply =>
      simp only [Exchange.step] at hstep
      split at hstep
      next => exact absurd hstep (by simp)
      next p ps hp =>
        obtain rfl := Option.some.inj hstep
        exact h.reply hanswer hp
  | replies t =>
      obtain ⟨back, hback, rfl⟩ := Option.map_eq_some_iff.mp hstep
      have hsent := (Link.step_sent hback).1
      exact ⟨h.there, h.back.step hok hback, hsent ▸ h.selection, hsent ▸ h.all⟩
  | receive =>
      simp only [Exchange.step] at hstep
      split at hstep
      next => exact absurd hstep (by simp)
      next =>
        obtain ⟨back, hback, rfl⟩ := Option.map_eq_some_iff.mp hstep
        have hsent := (Link.work_calls hback).1
        exact ⟨h.there, h.back.work hback, hsent ▸ h.selection, hsent ▸ h.all⟩

/-! ## §4. What the client sees. -/

theorem flatMap_callOf (handle : Int) (ps : List (List UInt8)) :
    (ps.map (callOf handle)).flatMap (repliesTo answer) = ps.flatMap answer := by
  rw [List.flatMap_map]
  exact List.flatMap_congr fun p _ => repliesTo_callOf handle p

/-- **The replies arrive in order**: both links are in order; the client's processor has been
called with some of the replies to the client's requests, in the order of the requests; and
with all of them, when onResponse has refused none and nothing is on its way or still to be
written. -/
structure Answered (server client : Int) (answer : List UInt8 → List (List UInt8))
    (x : Exchange) : Prop where
  requests : x.there.InOrder server
  replies : x.back.InOrder client
  selection : (x.back.calls.map ProcessorCall.payload).Sublist
    ((x.there.sent.flatMap answer).map some)
  complete : x.refused = false → x.there.Quiet → x.pending = [] → x.back.Quiet →
    x.back.calls.map ProcessorCall.payload = (x.there.sent.flatMap answer).map some

theorem Inv.answered {x : Exchange} (h : x.Inv server client answer) :
    x.Answered server client answer := by
  obtain ⟨⟨rest, hrest⟩, hall⟩ := h.there.calls
  -- the requests that have been served
  obtain ⟨ps, qs, hsent, hps, -⟩ := List.map_eq_append_iff.mp hrest.symm
  have hserved : x.there.calls.flatMap (repliesTo answer) = ps.flatMap answer := by
    rw [← hps, flatMap_callOf]
  have hfirst : (ps.flatMap answer).Sublist (x.there.sent.flatMap answer) := by
    rw [hsent, List.flatMap_append]
    exact List.sublist_append_left _ _
  have hreplies := h.back.inOrder
  refine ⟨h.there.inOrder, hreplies, ?_, fun hr hthere hpending hback => ?_⟩
  · have hwritten : x.back.sent.Sublist (ps.flatMap answer) :=
      (List.sublist_append_left _ _).trans (hserved ▸ h.selection)
    exact hreplies.payloads.sublist.trans ((hwritten.trans hfirst).map some)
  · have hcalls : x.there.calls = x.there.sent.map (callOf server) := by
      obtain ⟨-, -, hframes⟩ := h.there.frames
      have hwritten := h.there.writes.sentAll hthere.opened hthere.out
      exact hall (hframes hthere.wire hwritten) hthere.queue
    have hsent := h.all hr
    rw [hpending, List.append_nil, hcalls, flatMap_callOf] at hsent
    rw [hreplies.complete hback.opened hback.out hback.wire hback.queue, hsent]

end Exchange

/-- A reply is written behind what is queued, when nothing is. -/
theorem Link.Live.write {handle : Int} {sent : List (List UInt8)} {l : Link}
    (h : l.Live handle sent) (hq : l.out.out.queue = []) {p : List UInt8}
    (hp : p.length ≤ maxPayload) :
    ∃ l', l.step handle (.write p) = some l' ∧ l'.Live handle (sent ++ [p])
      ∧ (l.out.out.write p).1 = 0 := by
  have hzero : (l.out.out.write p).1 = 0 := by
    rcases l.out.out.write_cases p with ⟨hfull, -⟩ | ⟨-, he⟩
    · rw [hq] at hfull
      exact absurd hfull (by decide)
    · rw [he]
  obtain ⟨l', hstep⟩ : ∃ l', l.step handle (.write p) = some l' := by
    simp [Link.step, outStep, h.opened]
  have hsent := (write_sent hstep).2
  rw [if_pos hzero] at hsent
  have hinv := h.inv.write hp hstep
  obtain ⟨out, hout, rfl⟩ := Option.map_eq_some_iff.mp hstep
  obtain ⟨-, rfl⟩ := outStep_write hout
  exact ⟨_, hstep, ⟨hinv, by rw [hsent, h.sent], h.opened, h.idle⟩, hzero⟩

/-- When nothing is on its way, nothing is queued and nothing is on the wire. -/
theorem Link.Live.quiet {handle : Int} {sent : List (List UInt8)} {l : Link}
    (h : l.Live handle sent) (hzero : l.onTheWay = 0) : l.Quiet := by
  unfold Link.onTheWay at hzero
  exact ⟨h.opened, (h.inv.writes.steady.pending h.opened).left_eq_zero (by omega),
    List.length_eq_zero_iff.mp (by omega), List.length_eq_zero_iff.mp (by omega)⟩

namespace Exchange

/-- Both links work, `asked` has been asked, and no reply has been refused. -/
structure Live (server client : Int) (answer : List UInt8 → List (List UInt8))
    (asked : List (List UInt8)) (x : Exchange) : Prop where
  inv : x.Inv server client answer
  there : x.there.Live server asked
  back : x.back.Live client x.back.sent
  accepted : x.refused = false

/-- Every request has been brought to the processor, and every reply to the client's. -/
def Done (x : Exchange) : Prop :=
  x.there.onTheWay = 0 ∧ x.pending = [] ∧ x.back.onTheWay = 0

/-- What is left to do: requests come before replies to be written, and these before those
on their way, since each may bring some of the next. -/
def left (x : Exchange) : Nat × Nat × Nat :=
  (x.there.onTheWay, x.pending.length, x.back.onTheWay)

/-- Less is left. -/
def Less : Nat × Nat × Nat → Nat × Nat × Nat → Prop :=
  Prod.Lex (· < ·) (Prod.Lex (· < ·) (· < ·))

variable {server client : Int} {answer : List UInt8 → List (List UInt8)}
variable {asked : List (List UInt8)}

/-- The replies are brought on. -/
theorem Live.bringBack {x : Exchange} (h : x.Live server client answer asked)
    (hpos : 0 < x.back.onTheWay) :
    ∃ st x', st.noAsk ∧ x.step server client answer st = some x'
      ∧ x'.Live server client answer asked ∧ Less x'.left x.left := by
  have hless : ∀ {back : Link}, back.onTheWay < x.back.onTheWay →
      Less { x with back := back }.left x.left :=
    fun hlt => Prod.Lex.right _ (Prod.Lex.right _ hlt)
  rcases h.back.moves hpos with ⟨back, hstep, hlive, hlt⟩ | ⟨t, back, hstep, hlive, hlt⟩
  · have hsent := (Link.work_calls hstep).1
    refine ⟨.receive, { x with back := back }, trivial, ?_,
      ⟨?_, h.there, hsent ▸ hlive, h.accepted⟩, hless hlt⟩
    · simp [Exchange.step, h.there.opened, hstep]
    · exact ⟨h.inv.there, hlive.inv, hsent ▸ h.inv.selection, hsent ▸ h.inv.all⟩
  · have hsent := (Link.step_sent hstep).1
    refine ⟨.replies t, { x with back := back }, trivial, ?_,
      ⟨?_, h.there, hsent ▸ hlive, h.accepted⟩, hless hlt⟩
    · simp [Exchange.step, hstep]
    · exact ⟨h.inv.there, hlive.inv, hsent ▸ h.inv.selection, hsent ▸ h.inv.all⟩

/-- The next reply is written, when none is on its way: it finds the queue empty. -/
theorem Live.reply (hanswer : Fits answer) {x : Exchange}
    (h : x.Live server client answer asked) (hback : x.back.onTheWay = 0)
    (hpending : x.pending ≠ []) :
    ∃ x', x.step server client answer .reply = some x'
      ∧ x'.Live server client answer asked ∧ Less x'.left x.left := by
  obtain ⟨p, ps, hp⟩ := List.exists_cons_of_ne_nil hpending
  have hreply : x.step server client answer .reply
      = some (respond client { x with pending := ps } p) := by
    simp only [Exchange.step, hp]
  have hfit : p.length ≤ maxPayload :=
    h.inv.pending_fit hanswer (by rw [hp]; exact List.mem_cons_self)
  obtain ⟨back, hwrite, hback', hzero⟩ := h.back.write (h.back.quiet hback).out hfit
  have hrespond : respond client { x with pending := ps } p = ⟨x.there, back, ps, false⟩ := by
    simp [respond, hwrite, hzero, h.accepted]
  have hinv := h.inv.reply hanswer hp
  rw [hrespond] at hreply hinv
  refine ⟨_, hreply, ⟨hinv, h.there, hback'.sent ▸ hback', rfl⟩, ?_⟩
  refine Prod.Lex.right _ (Prod.Lex.left _ _ ?_)
  simp [hp]

/-- A request is brought on, or the processor is called with it, when it has written the
replies to those before. -/
theorem Live.bringThere {x : Exchange} (h : x.Live server client answer asked)
    (hpos : 0 < x.there.onTheWay) (hpending : x.pending = []) :
    ∃ st x', st.noAsk ∧ x.step server client answer st = some x'
      ∧ x'.Live server client answer asked ∧ Less x'.left x.left := by
  rcases h.there.moves hpos with ⟨there, hstep, hlive, hlt⟩ | ⟨t, there, hstep, hlive, hlt⟩
  · have hserve : x.step server client answer .serve = some { x with
        there := there
        pending := (there.calls.drop x.there.calls.length).flatMap (repliesTo answer) } := by
      simp only [Exchange.step]
      rw [if_pos ⟨h.back.opened, hpending⟩, hstep, Option.map_some]
    exact ⟨.serve, _, trivial, hserve,
      ⟨h.inv.serve hpending hstep, hlive, h.back, h.accepted⟩, Prod.Lex.left _ _ hlt⟩
  · have hcalls := (Link.step_sent hstep).2
    refine ⟨.requests t, { x with there := there }, trivial, ?_,
      ⟨?_, hlive, h.back, h.accepted⟩, Prod.Lex.left _ _ hlt⟩
    · simp [Exchange.step, hstep]
    · exact ⟨hlive.inv, h.inv.back, hcalls ▸ h.inv.selection, hcalls ▸ h.inv.all⟩

/-- As long as something is left to do, a step does some of it. -/
theorem Live.moves (hanswer : Fits answer) {x : Exchange}
    (h : x.Live server client answer asked) (hbusy : ¬ x.Done) :
    ∃ st x', st.noAsk ∧ x.step server client answer st = some x'
      ∧ x'.Live server client answer asked ∧ Less x'.left x.left := by
  -- replies on their way first, then those to be written, then the requests
  rcases Nat.eq_zero_or_pos x.back.onTheWay with hback | hback
  · by_cases hpending : x.pending = []
    · have hthere : 0 < x.there.onTheWay :=
        Nat.pos_of_ne_zero fun hthere => hbusy ⟨hthere, hpending, hback⟩
      exact h.bringThere hthere hpending
    · obtain ⟨x', hstep⟩ := h.reply hanswer hback hpending
      exact ⟨.reply, x', trivial, hstep⟩
  · exact h.bringBack hback

end Exchange

end TcpFramework
