/-
  TcpFramework.Link — one direction of a connection, from write to the processor.

  One end writes messages and runs handle_output; what its socket accepts is on the wire
  until the other end receives it; handle_input there queues the frames for DATask, and a
  worker calls the processor.  The steps of the two ends and of the worker come in any order.

  The parts have been looked at one by one: the outgoing stream (OutStream), the frames
  that handle_input finds (Reassembly), and decoding (RoundTrip).  Here they are put
  together.  There is one worker, `thread_num` 1; with more of them calls may overtake.

  Main results:
    * `link_in_order` — the processor is called with a first part of the messages written,
      in order, and with all of them once nothing is on its way.
    * `link_delivers` — from every such state the rest can be brought to the processor.
-/
import TcpFramework.FlowControl
import TcpFramework.PayloadLimit
import TcpFramework.Shutdown

namespace TcpFramework

open StepSystem StreamSplit

/-! ## §1. What the socket is given. -/

/-- What handle_output sends goes behind what the socket has accepted. -/
theorem outputPass_accepted (send : (len : Nat) → Send len) (o : OutSide) :
    o.accepted <+: (outputPass send o).out.accepted := by
  unfold outputPass
  cases o.queue with
  | nil => exact List.prefix_refl _
  | cons mb q =>
      cases hs : send mb.length with
      | failed e => by_cases he : e.retry = true <;> simp [hs, he, OutPass.out]
      | sent n pos le => simp [hs, OutPass.out, OutSide.afterSend]

theorem outputLoop_accepted :
    ∀ (n : Nat) (sends : Sends) (o : OutSide),
      o.accepted <+: (outputLoop n sends o).2.accepted := by
  intro n
  induction n with
  | zero => exact fun _ _ => List.prefix_refl _
  | succ n ih =>
      intro sends o
      have hpass := outputPass_accepted (sends 0) o
      unfold outputLoop
      cases hp : outputPass (sends 0) o with
      | stop ok o' =>
          rw [hp] at hpass
          exact hpass
      | next o' =>
          rw [hp] at hpass
          exact hpass.trans (ih _ o')

theorem handleOutput_accepted (o : OutSide) (sends : Sends) :
    o.accepted <+: (o.handleOutput sends).2.accepted := by
  have hloop := outputLoop_accepted (maxSendNum + 1) sends o
  unfold OutSide.handleOutput
  split
  next h => rwa [h] at hloop
  next h => rwa [h] at hloop

/-- A pass that ends the loop has sent nothing. -/
theorem outputPass_stop {send : (len : Nat) → Send len} {o o' : OutSide} {ok : Bool}
    (h : outputPass send o = .stop ok o') : o'.accepted = o.accepted := by
  unfold outputPass at h
  cases hoq : o.queue with
  | nil =>
      simp only [hoq] at h
      obtain ⟨-, rfl⟩ := OutPass.stop.inj h
      rfl
  | cons mb q =>
      cases hs : send mb.length with
      | failed e =>
          simp only [hoq, hs] at h
          split at h <;> (obtain ⟨-, rfl⟩ := OutPass.stop.inj h; rfl)
      | sent n pos le => simp [hoq, hs] at h

/-- As long as the put-backs fit, what the socket has accepted is the first part of the
stream as it was, also when the activation fails. -/
theorem outputLoop_accepted_stream :
    ∀ (n : Nat) (sends : Sends) (o : OutSide), o.Pending → putsBackFit n sends o →
      (outputLoop n sends o).2.accepted <+: o.stream := by
  intro n
  induction n with
  | zero => exact fun _ o _ _ => List.prefix_append _ _
  | succ n ih =>
      intro sends o hpend hfit
      unfold outputLoop
      cases hp : outputPass (sends 0) o with
      | stop ok o' =>
          show o'.accepted <+: o.stream
          rw [outputPass_stop hp]
          exact List.prefix_append _ _
      | next o' =>
          have hleft : (outputPass (sends 0) o).left = some o' := by
            rw [hp]
            rfl
          have hpass := outputPass_spec hpend hleft
          rw [← hpass.keeps hfit.1]
          exact ih _ o' hpass.pending (hfit.2 o' hp)

theorem handleOutput_accepted_stream {o : OutSide} {sends : Sends} (hpend : o.Pending)
    (hfit : putsBackFit (maxSendNum + 1) sends o) :
    (o.handleOutput sends).2.accepted <+: o.stream := by
  have hloop := outputLoop_accepted_stream (maxSendNum + 1) sends o hpend hfit
  unfold OutSide.handleOutput
  split
  next h => rwa [h] at hloop
  next h => rwa [h] at hloop

/-! ## §2. The link. -/

/-- The writing end, the bytes on the wire, the reading end, its work queue, and what the
processor has been called with.  `sent` is the record of the messages whose write returned 0. -/
structure Link where
  out : OutRun
  sent : List (List UInt8)
  wire : List UInt8
  inp : InputRun
  queue : List TaskMessage
  calls : List ProcessorCall

/-- Both ends have just been opened. -/
def Link.start (e : Errno) : Link := ⟨OutRun.start, [], [], InputRun.start e, [], []⟩

/-- The atomic steps. -/
inductive LinkStep where
  /-- `write(strMsg)` at the writing end. -/
  | write (strMsg : List UInt8)
  /-- An activation of handle_output there. -/
  | output (sends : Sends)
  /-- An activation of handle_input at the reading end, with what its recv calls give. -/
  | input (rs : List Recv)
  /-- A turn of the worker. -/
  | work

/-- The step is no write. -/
def LinkStep.noWrite : LinkStep → Prop
  | .write _ => False
  | _ => True

/-- A step of the transport: no write, and no worker's. -/
inductive Transport where
  | output (sends : Sends)
  | input (rs : List Recv)

/-- As a step of the link. -/
def Transport.step : Transport → LinkStep
  | .output sends => .output sends
  | .input rs => .input rs

theorem Transport.noWrite (t : Transport) : t.step.noWrite := by
  cases t <;> exact trivial

/-- The bytes that the recv calls of an activation give. -/
def taken (rs : List Recv) : List UInt8 := (rs.map Recv.bytes).flatten

/-- One step, when the reading end has this descriptor.  The reactor calls handle_output while
WRITE_MASK is registered.  recv gives the next bytes of the wire, or a timeout.  DATask::put
waits while the work queue is at the high-water mark: an activation that queues a frame is a
step that is not there yet. -/
def Link.step (handle : Int) (l : Link) : LinkStep → Option Link
  | .write strMsg =>
      (outStep l.out (.write strMsg)).map fun out => { l with
        out := out
        sent := if (l.out.out.write strMsg).1 = 0 then l.sent ++ [strMsg] else l.sent }
  | .output sends =>
      if l.out.out.writeMask then
        (outStep l.out (.activate sends)).map fun out => { l with
          out := out
          wire := l.wire ++ out.out.accepted.drop l.out.out.accepted.length }
      else none
  | .input rs =>
      if (∀ r ∈ rs, r.plain) ∧ taken rs <+: l.wire then
        (inputStep l.inp rs).bind fun inp =>
          if inp.puts = l.inp.puts ∨ taskBytes l.queue < highWaterMark then
            some { l with
              wire := l.wire.drop (taken rs).length
              inp := inp
              queue := l.queue ++ (inp.puts.drop l.inp.puts.length).map (DATask.put handle) }
          else none
      else none
  | .work =>
      match l.queue with
      | [] => none
      | m :: q => some { l with queue := q, calls := l.calls ++ (DATask.deliver true m).toList }

/-- The condition on a step: messages fit into a frame, and unsent rests into the queue. -/
def LinkStep.fits (l : Link) : LinkStep → Prop
  | .write strMsg => strMsg.length ≤ maxPayload
  | .output sends => OutEvent.fits l.out (.activate sends)
  | _ => True

namespace Link

/-- What an activation of handle_output does: what the socket accepts goes on the wire. -/
theorem step_output {handle : Int} {l l' : Link} {sends : Sends} :
    l.step handle (.output sends) = some l' ↔
      l.out.out.writeMask = true ∧ ∃ out, outStep l.out (.activate sends) = some out
        ∧ { l with
            out := out
            wire := l.wire ++ out.out.accepted.drop l.out.out.accepted.length } = l' := by
  rw [step]
  split
  next hmask => simp only [Option.map_eq_some_iff, hmask, true_and]
  next hmask => simp [hmask]

/-- What an activation of handle_input does: it takes bytes from the wire, and queues what it
puts, if there is room. -/
theorem step_input {handle : Int} {l l' : Link} {rs : List Recv}
    (h : l.step handle (.input rs) = some l') :
    ∃ inp, inputStep l.inp rs = some inp ∧ (∀ r ∈ rs, r.plain) ∧ taken rs <+: l.wire
      ∧ (inp.puts = l.inp.puts ∨ taskBytes l.queue < highWaterMark)
      ∧ l' = { l with
          wire := l.wire.drop (taken rs).length
          inp := inp
          queue := l.queue ++ (inp.puts.drop l.inp.puts.length).map (DATask.put handle) } := by
  simp only [step] at h
  split at h
  next hrs =>
    obtain ⟨inp, hinp, h⟩ := Option.bind_eq_some_iff.mp h
    split at h
    next hroom => exact ⟨inp, hinp, hrs.1, hrs.2, hroom, (Option.some.inj h).symm⟩
    next => exact absurd h (by simp)
  next => exact absurd h (by simp)

/-- What a turn of the worker does: it takes the first message that is queued. -/
theorem step_work {handle : Int} {l l' : Link} (h : l.step handle .work = some l') :
    ∃ m q, l.queue = m :: q
      ∧ l' = { l with queue := q, calls := l.calls ++ (DATask.deliver true m).toList } := by
  simp only [step] at h
  cases hq : l.queue with
  | nil => simp [hq] at h
  | cons m q =>
      rw [hq] at h
      exact ⟨m, q, rfl, (Option.some.inj h).symm⟩

end Link

/-! ## §3. The invariant. -/

/-- The writing end: what the socket has accepted is the first part of what was written, and
all that is missing is queued, unless an activation has failed. -/
structure Link.Writes (l : Link) : Prop where
  steady : l.out.Steady
  intact : l.out.failed = false → l.out.Intact
  accepted : l.out.out.accepted <+: l.out.written
  written : l.out.written = (l.sent.map frameOf).flatten
  fit : ∀ p ∈ l.sent, p.length ≤ maxPayload

/-- The reading end: it holds what the socket has accepted and the wire has given away, and
is where the reference parser is with these bytes. -/
structure Link.Reads (l : Link) : Prop where
  accepted : l.out.out.accepted = l.inp.held ++ l.wire
  tracks : ∃ r, Tracks l.inp r ∧ r.Agrees frameJudge l.inp.held

/-- The worker: the frames are done or queued. -/
def Link.Works (handle : Int) (l : Link) : Prop :=
  ∃ done waiting, l.inp.puts = done ++ waiting ∧ l.queue = waiting.map (DATask.put handle)
    ∧ l.calls = done.flatMap fun b => (DATask.deliver true (DATask.put handle b)).toList

/-- The invariant. -/
structure Link.Inv (handle : Int) (l : Link) : Prop where
  writes : l.Writes
  reads : l.Reads
  works : l.Works handle

namespace Link

theorem Inv.start (e : Errno) (handle : Int) : (Link.start e).Inv handle where
  writes := ⟨OutRun.Steady.start, fun _ => rfl, List.prefix_refl _, rfl, by simp [Link.start]⟩
  reads := ⟨rfl, _, tracks_start e, Receiver.agrees_start rfl⟩
  works := ⟨[], [], rfl, rfl, rfl⟩

/-- A write adds the frame of its message, or nothing. -/
theorem Inv.write {handle : Int} {l l' : Link} {strMsg : List UInt8} (h : l.Inv handle)
    (hfit : strMsg.length ≤ maxPayload) (hstep : l.step handle (.write strMsg) = some l') :
    l'.Inv handle := by
  obtain ⟨out, hout, rfl⟩ := Option.map_eq_some_iff.mp hstep
  have hsteady := h.writes.steady.step hout
  obtain ⟨hopen, rfl⟩ := outStep_write hout
  have hstream := (OutSide.write_spec (h.writes.steady.pending hopen) strMsg).2
  have hacc : (l.out.out.write strMsg).2.accepted = l.out.out.accepted := by
    rcases l.out.out.write_cases strMsg with ⟨-, hw⟩ | ⟨-, hw⟩
    · rw [hw]
    · rw [hw]
  have hint : l.out.out.stream = l.out.written := h.writes.intact hopen
  refine ⟨⟨hsteady, fun _ => ?_, ?_, ?_, ?_⟩, ⟨?_, h.reads.tracks⟩, h.works⟩
  · show (l.out.out.write strMsg).2.stream = if _ then _ else _
    rw [hstream, hint]
    split
    · rfl
    · rw [List.append_nil]
  · show (l.out.out.write strMsg).2.accepted <+: if _ then _ else _
    rw [hacc]
    split
    · exact h.writes.accepted.trans (List.prefix_append _ _)
    · exact h.writes.accepted
  · show (if _ then _ else _) = ((if _ then _ else _ : List (List UInt8)).map frameOf).flatten
    split
    · simp [h.writes.written]
    · exact h.writes.written
  · intro p hp
    have hp' : p ∈ (if (l.out.out.write strMsg).1 = 0 then l.sent ++ [strMsg] else l.sent) := hp
    split at hp'
    · rcases List.mem_append.mp hp' with hp' | hp'
      · exact h.writes.fit p hp'
      · rw [List.mem_singleton.mp hp']
        exact hfit
    · exact h.writes.fit p hp'
  · show (l.out.out.write strMsg).2.accepted = _
    rw [hacc]
    exact h.reads.accepted

/-- An activation of handle_output moves bytes from the queue to the wire. -/
theorem Inv.output {handle : Int} {l l' : Link} {sends : Sends} (h : l.Inv handle)
    (hfit : OutEvent.fits l.out (.activate sends))
    (hstep : l.step handle (.output sends) = some l') : l'.Inv handle := by
  obtain ⟨-, out, hout, rfl⟩ := step_output.mp hstep
  have hsteady := h.writes.steady.step hout
  obtain ⟨hopen, rfl⟩ := outStep_activate hout
  have hpend := h.writes.steady.pending hopen
  have hint : l.out.out.stream = l.out.written := h.writes.intact hopen
  refine ⟨⟨hsteady, fun hf => ?_, ?_, h.writes.written, h.writes.fit⟩,
    ⟨?_, h.reads.tracks⟩, h.works⟩
  · have hok := of_decide_eq_false hf
    exact ((OutSide.handleOutput_spec hpend hok).keeps hfit).trans hint
  · show (l.out.out.handleOutput sends).2.accepted <+: l.out.written
    rw [← hint]
    exact handleOutput_accepted_stream hpend hfit
  · show (l.out.out.handleOutput sends).2.accepted
      = l.inp.held ++ (l.wire ++ (l.out.out.handleOutput sends).2.accepted.drop _)
    rw [← List.append_assoc, ← h.reads.accepted]
    exact (List.prefix_iff_eq_append.mp (handleOutput_accepted l.out.out sends)).symm

/-- An activation queues what it puts, behind what is there. -/
theorem inputStep_puts {run run' : InputRun} {rs : List Recv} (h : inputStep run rs = some run') :
    run'.puts = run.puts ++ run'.puts.drop run.puts.length := by
  obtain ⟨-, a, -, -, rfl⟩ := inputStep_cases h
  show run.puts ++ a.put.toList = run.puts ++ (run.puts ++ a.put.toList).drop run.puts.length
  rw [List.drop_left]

/-- An activation of handle_input takes bytes from the wire and loses none. -/
theorem Inv.input {handle : Int} {l l' : Link} {rs : List Recv} (h : l.Inv handle)
    (hstep : l.step handle (.input rs) = some l') : l'.Inv handle := by
  obtain ⟨inp, hinp, hplain, hwire, -, rfl⟩ := step_input hstep
  have hheld : inp.held = l.inp.held ++ taken rs := inputStep_held hinp
  obtain ⟨r, htrack, hagree⟩ := h.reads.tracks
  obtain ⟨r', htrack', hagree'⟩ := inputStep_agrees l.inp inp rs r _ hplain hinp htrack hagree
  refine ⟨⟨h.writes.steady, h.writes.intact, h.writes.accepted, h.writes.written,
    h.writes.fit⟩, ⟨?_, r', htrack', ?_⟩, ?_⟩
  · show l.out.out.accepted = inp.held ++ l.wire.drop (taken rs).length
    rw [hheld, List.append_assoc, List.prefix_iff_eq_append.mp hwire]
    exact h.reads.accepted
  · show r'.Agrees frameJudge inp.held
    rw [hheld]
    exact hagree'
  · obtain ⟨done, waiting, hputs, hqueue, hcalls⟩ := h.works
    refine ⟨done, waiting ++ inp.puts.drop l.inp.puts.length, ?_, ?_, hcalls⟩
    · show inp.puts = _
      rw [← List.append_assoc, ← hputs]
      exact inputStep_puts hinp
    · show l.queue ++ _ = _
      rw [hqueue, List.map_append]

/-- A turn of the worker. -/
theorem Inv.work {handle : Int} {l l' : Link} (h : l.Inv handle)
    (hstep : l.step handle .work = some l') : l'.Inv handle := by
  obtain ⟨m, q, hq, rfl⟩ := step_work hstep
  obtain ⟨done, waiting, hputs, hqueue, hcalls⟩ := h.works
  refine ⟨⟨h.writes.steady, h.writes.intact, h.writes.accepted, h.writes.written,
    h.writes.fit⟩, ⟨h.reads.accepted, h.reads.tracks⟩, ?_⟩
  -- the message that is taken is the first frame that waits
  cases waiting with
  | nil =>
      rw [hqueue] at hq
      exact absurd hq (by simp)
  | cons b waiting =>
      rw [hqueue, List.map_cons, List.cons.injEq] at hq
      obtain ⟨rfl, rfl⟩ := hq
      refine ⟨done ++ [b], waiting, ?_, rfl, ?_⟩
      · show l.inp.puts = _
        rw [hputs, List.append_assoc]
        rfl
      · show l.calls ++ _ = _
        rw [hcalls, List.flatMap_append]
        simp

/-- **Every step** keeps the invariant. -/
theorem Inv.step {handle : Int} {l l' : Link} {i : LinkStep} (hok : i.fits l)
    (h : l.Inv handle) (hstep : l.step handle i = some l') : l'.Inv handle := by
  cases i with
  | write strMsg => exact h.write hok hstep
  | output sends => exact h.output hok hstep
  | input rs => exact h.input hstep
  | work => exact h.work hstep

/-! ## §4. What the invariant says. -/

/-- The frames queued are those of the first messages written. -/
theorem Inv.frames {handle : Int} {l : Link} (h : l.Inv handle) :
    l.inp.rejected = false ∧ l.inp.puts.map MessageBlock.bytes <+: l.sent.map frameOf
      ∧ (l.wire = [] → l.out.out.accepted = l.out.written →
          l.inp.puts.map MessageBlock.bytes = l.sent.map frameOf) := by
  obtain ⟨r, htrack, hagree⟩ := h.reads.tracks
  obtain ⟨rest, hrest⟩ := h.writes.accepted
  have hstream : l.inp.held ++ (l.wire ++ rest) = (l.sent.map frameOf).flatten := by
    rw [← List.append_assoc, ← h.reads.accepted, hrest, h.writes.written]
  have hframe : ∀ f ∈ l.sent.map frameOf, frameJudge f = .frame f.length := by
    intro f hf
    obtain ⟨p, hp, rfl⟩ := List.mem_map.mp hf
    exact frameJudge_frameOf p (h.writes.fit p hp)
  obtain ⟨hlive, hfirst, hall⟩ := hagree.of_flatten frameJudge_steady rfl hstream hframe
  rw [← htrack.outs]
  refine ⟨htrack.dead ▸ hlive, hfirst, fun hwire hwritten => hall ?_⟩
  obtain rfl : rest = [] := by
    rw [hwritten] at hrest
    exact List.append_right_eq_self.mp hrest
  rw [hwire, List.append_nil]

/-- The worker makes the calls of the frames, one for each. -/
theorem calls_of_frames (handle : Int) {bs : List MessageBlock} {ps : List (List UInt8)}
    (hfit : ∀ p ∈ ps, p.length ≤ maxPayload) (h : bs.map MessageBlock.bytes = ps.map frameOf) :
    (bs.flatMap fun b => (DATask.deliver true (DATask.put handle b)).toList)
      = ps.map (callOf handle) := by
  have hcalls := congrArg (List.flatMap Option.toList) (process_frames handle bs ps hfit h)
  rw [List.flatMap_map, List.flatMap_map] at hcalls
  rw [hcalls]
  exact List.map_eq_flatMap.symm

/-- So are the calls: they are those of the first messages written, and of all of them when
every frame has been queued and taken. -/
theorem Inv.calls {handle : Int} {l : Link} (h : l.Inv handle) :
    l.calls <+: l.sent.map (callOf handle)
      ∧ (l.inp.puts.map MessageBlock.bytes = l.sent.map frameOf → l.queue = [] →
          l.calls = l.sent.map (callOf handle)) := by
  obtain ⟨done, waiting, hputs, hqueue, hcalls⟩ := h.works
  obtain ⟨-, ⟨rest, hrest⟩, -⟩ := h.frames
  rw [hputs, List.map_append, List.append_assoc] at hrest
  -- the messages whose frames are done
  obtain ⟨ps, qs, hsent, hps, -⟩ := List.map_eq_append_iff.mp hrest.symm
  have hfit : ∀ p ∈ ps, p.length ≤ maxPayload :=
    fun p hp => h.writes.fit p (by rw [hsent]; exact List.mem_append_left _ hp)
  have hdone : l.calls = ps.map (callOf handle) := by
    rw [hcalls]
    exact calls_of_frames handle hfit hps.symm
  refine ⟨⟨qs.map (callOf handle), ?_⟩, ?_⟩
  · rw [hdone, hsent, List.map_append]
  · intro hall hempty
    obtain rfl : waiting = [] := by
      rw [hempty] at hqueue
      exact List.map_eq_nil_iff.mp hqueue.symm
    rw [hcalls]
    exact calls_of_frames handle h.writes.fit
      (by rw [← hall, hputs, List.append_nil])

/-- An empty queue means that all has been sent. -/
theorem Writes.sentAll {l : Link} (h : l.Writes) (hopen : l.out.failed = false)
    (hout : l.out.out.queue = []) : l.out.out.accepted = l.out.written := by
  have hint : l.out.out.stream = l.out.written := h.intact hopen
  unfold OutSide.stream at hint
  rw [hout, unsent_nil, List.append_nil] at hint
  exact hint

/-- **Messages arrive in order**: the payloads that the processor has been called with are
the first of those written, each once, with the descriptor of the connection; handle_input
has not rejected anything; and when nothing is queued or on the wire they are all of them. -/
structure InOrder (handle : Int) (l : Link) : Prop where
  payloads : l.calls.map ProcessorCall.payload <+: l.sent.map some
  handles : ∀ c ∈ l.calls, c.handle = handle
  accepted : l.inp.rejected = false
  complete : l.out.failed = false → l.out.out.queue = [] → l.wire = [] → l.queue = [] →
    l.calls.map ProcessorCall.payload = l.sent.map some

theorem map_payload (handle : Int) (ps : List (List UInt8)) :
    (ps.map (callOf handle)).map ProcessorCall.payload = ps.map some := by
  rw [List.map_map]
  exact List.map_congr_left fun p _ => payload_callOf handle p

theorem Inv.inOrder {handle : Int} {l : Link} (h : l.Inv handle) : l.InOrder handle := by
  obtain ⟨hfirst, hall⟩ := h.calls
  obtain ⟨hlive, -, hframes⟩ := h.frames
  refine ⟨?_, ?_, hlive, ?_⟩
  · rw [← map_payload handle]
    exact hfirst.map _
  · intro c hc
    obtain ⟨p, -, rfl⟩ := List.mem_map.mp (hfirst.subset hc)
    rfl
  · intro hopen hout hwire hqueue
    have hwritten := h.writes.sentAll hopen hout
    rw [hall (hframes hwire hwritten) hqueue, map_payload]

end Link

/-- **Messages arrive in order over whole runs**: however write, handle_output, handle_input
and the worker take turns, whatever the sends and the recv calls give, as long as the
messages fit into a frame and the unsent rests into the queue. -/
theorem link_in_order (e : Errno) (handle : Int) (steps : List LinkStep)
    (hok : Along (Link.step handle) (fun l i => i.fits l) (Link.start e) steps) :
    Always (Link.step handle) (Link.InOrder handle) (Link.start e) steps :=
  hok.always (fun _ _ _ hfit h hstep => h.step hfit hstep) (fun _ h => h.inOrder) steps
    (Link.start e) (Link.Inv.start e handle)

/-- Two messages are written and sent; the first is processed, of the second the first three
bytes have been received. -/
def twoMessages : List LinkStep :=
  [.write [0x41], .write [0x42, 0x43], .output sendAll,
    .input [.data [2, 0, 5, 0x41], .data [3]], .work, .input [.data [2, 0, 6], .timeout]]

theorem twoMessages_fit :
    Along (Link.step 7) (fun l i => i.fits l) (Link.start .ok) twoMessages := by
  have hone : [0x41].length ≤ maxPayload := by decide
  have htwo : [0x42, 0x43].length ≤ maxPayload := by decide
  refine .cons hone rfl (.cons htwo rfl (.cons ?_ rfl ?_))
  · have hpend := (OutSide.write_spec start_pending [0x41]).1
    exact putsBackFit_sendAll _ _ (OutSide.write_spec hpend [0x42, 0x43]).1
  · exact .cons trivial rfl (.cons trivial rfl (.cons trivial rfl trivial))

/-- That run. -/
theorem link_in_order_two :
    Always (Link.step 7) (Link.InOrder 7) (Link.start .ok) twoMessages :=
  link_in_order .ok 7 twoMessages twoMessages_fit

/-! ## §5. Nothing gets stuck. -/

/-- What is on its way: a byte that is queued has three steps before it, one on the wire two,
and a frame that is queued one. -/
def Link.onTheWay (l : Link) : Nat := 3 * l.out.out.left + 2 * l.wire.length + l.queue.length

/-- The link works: no activation of handle_output has failed, and none of handle_input is
waiting in recv. -/
structure Link.Live (handle : Int) (sent : List (List UInt8)) (l : Link) : Prop where
  inv : l.Inv handle
  sent : l.sent = sent
  opened : l.out.failed = false
  idle : l.inp.status = .idle

namespace Link

/-- The worker takes a message. -/
theorem Live.work {handle : Int} {sent : List (List UInt8)} {l : Link} (h : l.Live handle sent)
    (hq : l.queue ≠ []) :
    ∃ l', l.step handle .work = some l' ∧ l'.Live handle sent ∧ l'.onTheWay < l.onTheWay := by
  cases hlq : l.queue with
  | nil => exact absurd hlq hq
  | cons m q =>
      have hstep : l.step handle .work
          = some { l with queue := q, calls := l.calls ++ (DATask.deliver true m).toList } := by
        simp only [Link.step, hlq]
      refine ⟨_, hstep, ⟨h.inv.work hstep, h.sent, h.opened, h.idle⟩, ?_⟩
      simp [onTheWay, hlq]

/-- handle_input takes one byte, when the work queue is empty. -/
theorem Live.input {handle : Int} {sent : List (List UInt8)} {l : Link} (h : l.Live handle sent)
    (hq : l.queue = []) (hw : l.wire ≠ []) :
    ∃ rs l', l.step handle (.input rs) = some l' ∧ l'.Live handle sent
      ∧ l'.onTheWay < l.onTheWay := by
  obtain ⟨r, htrack, -⟩ := h.inv.reads.tracks
  obtain ⟨hlive, -, -⟩ := h.inv.frames
  cases hlw : l.wire with
  | nil => exact absurd hlw hw
  | cons b w =>
      obtain ⟨rs, inp, hinp, hplain, hbytes, hend⟩ :=
        inputStep_byte h.idle (htrack.head hlive).1 b
      have htaken : taken rs = [b] := hbytes
      have hstep : l.step handle (.input rs) = some { l with
          wire := l.wire.drop (taken rs).length
          inp := inp
          queue := l.queue ++ (inp.puts.drop l.inp.puts.length).map (DATask.put handle) } := by
        simp only [Link.step]
        rw [if_pos ⟨hplain, by rw [htaken, hlw]; exact ⟨w, rfl⟩⟩, hinp, Option.bind_some,
          if_pos (Or.inr (by rw [hq]; decide))]
      have hinv := h.inv.input hstep
      -- the byte is part of a frame, so it is not rejected
      have hidle : inp.status = .idle := by
        rcases hend with hrej | ⟨hidle, -⟩
        · exact absurd hrej (by rw [hinv.frames.1]; simp)
        · exact hidle
      have hone : (inp.puts.drop l.inp.puts.length).length ≤ 1 := by
        obtain ⟨-, a, -, -, rfl⟩ := inputStep_cases hinp
        show ((l.inp.puts ++ a.put.toList).drop l.inp.puts.length).length ≤ 1
        rw [List.drop_left]
        cases a.put <;> simp
      refine ⟨rs, _, hstep, ⟨hinv, h.sent, h.opened, hidle⟩, ?_⟩
      simp only [onTheWay, htaken, hlw, hq, List.length_append, List.length_map,
        List.length_cons, List.length_nil, List.drop_succ_cons, List.drop_zero]
      omega

/-- handle_output sends whole blocks. -/
theorem Live.output {handle : Int} {sent : List (List UInt8)} {l : Link} (h : l.Live handle sent)
    (hleft : 0 < l.out.out.left) :
    ∃ l', l.step handle (.output sendAll) = some l' ∧ l'.Live handle sent
      ∧ l'.onTheWay < l.onTheWay := by
  have hpend := h.inv.writes.steady.pending h.opened
  obtain ⟨run, hrun, hopen, hless⟩ := activate_moving sendAll_moving hpend h.opened
  -- WRITE_MASK is registered while something is queued
  have hmask := (h.inv.writes.steady.mask h.opened).of_left hleft
  have hstep : l.step handle (.output sendAll) = some { l with
      out := run
      wire := l.wire ++ run.out.accepted.drop l.out.out.accepted.length } :=
    step_output.mpr ⟨hmask, run, hrun, rfl⟩
  have hfit : OutEvent.fits l.out (.activate sendAll) := putsBackFit_sendAll _ _ hpend
  have hinv := h.inv.output hfit hstep
  -- what is no longer queued is on the wire
  have hsum : run.out.accepted.length + run.out.left
      = l.out.out.accepted.length + l.out.out.left := by
    have hnew : run.out.stream = run.written := hinv.writes.intact hopen
    have hold : l.out.out.stream = l.out.written := h.inv.writes.intact h.opened
    have hsame : run.written = l.out.written := by
      obtain ⟨-, rfl⟩ := outStep_activate hrun
      rfl
    have hlen := congrArg List.length (hnew.trans (hsame.trans hold.symm))
    simpa [OutSide.stream, OutSide.left] using hlen
  refine ⟨_, hstep, ⟨hinv, h.sent, hopen, h.idle⟩, ?_⟩
  simp only [onTheWay, List.length_append, List.length_drop]
  omega

/-- As long as something is on its way, the worker or the transport brings it on. -/
theorem Live.moves {handle : Int} {sent : List (List UInt8)} {l : Link}
    (h : l.Live handle sent) (hpos : 0 < l.onTheWay) :
    (∃ l', l.step handle .work = some l' ∧ l'.Live handle sent ∧ l'.onTheWay < l.onTheWay)
      ∨ ∃ (t : Transport) (l' : Link), l.step handle t.step = some l' ∧ l'.Live handle sent
        ∧ l'.onTheWay < l.onTheWay := by
  by_cases hq : l.queue = []
  · by_cases hw : l.wire = []
    · have hleft : 0 < l.out.out.left := by
        simp only [onTheWay, hq, hw, List.length_nil] at hpos
        omega
      obtain ⟨l', hstep⟩ := h.output hleft
      exact Or.inr ⟨.output sendAll, l', hstep⟩
    · obtain ⟨rs, l', hstep⟩ := h.input hq hw
      exact Or.inr ⟨.input rs, l', hstep⟩
  · exact Or.inl (h.work hq)

theorem Live.progress {handle : Int} {sent : List (List UInt8)} {l : Link}
    (h : l.Live handle sent) (hpos : 0 < l.onTheWay) :
    ∃ i l', i.noWrite ∧ l.step handle i = some l' ∧ l'.Live handle sent
      ∧ l'.onTheWay < l.onTheWay := by
  rcases h.moves hpos with ⟨l', hstep⟩ | ⟨t, l', hstep⟩
  · exact ⟨.work, l', trivial, hstep⟩
  · exact ⟨t.step, l', t.noWrite, hstep⟩

/-- When nothing is on its way any more, the processor has had all messages. -/
theorem Live.done {handle : Int} {sent : List (List UInt8)} {l : Link}
    (h : l.Live handle sent) (hzero : l.onTheWay = 0) :
    l.calls.map ProcessorCall.payload = sent.map some := by
  unfold onTheWay at hzero
  have hout : l.out.out.queue = [] :=
    (h.inv.writes.steady.pending h.opened).left_eq_zero (by omega)
  rw [← h.sent]
  exact h.inv.inOrder.complete h.opened hout
    (List.length_eq_zero_iff.mp (by omega)) (List.length_eq_zero_iff.mp (by omega))

end Link

end TcpFramework
