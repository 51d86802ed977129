/-
  TcpFramework.FlowControl — how full an output queue gets, and how it empties.

  putq looks at the high-water mark before it queues a block, so all blocks but the last are
  below the mark, and handle_output never adds one.  That bounds the memory of a connection.
  It also says when an unsent rest finds room: whenever the front block is at least as large
  as the last one.

  Main results:
    * `outputLoop_sizes` — an activation leaves the sizes of a rear part of the queue.
    * `queue_bounded` — the bytes queued, over whole runs.
    * `falling_lengths_intact` — messages that never grow are never lost.
    * `queue_drains` — how many activations empty a queue.
-/
import Mathlib.Algebra.GroupWithZero.Nat
import Mathlib.Data.List.Infix
import TcpFramework.OutStream

namespace TcpFramework

open StepSystem

/-! ## §1. The sizes of the queued blocks. -/

/-- The capacities of the queued blocks, front first. -/
def MessageQueue.sizes (q : MessageQueue) : List Nat := q.map MessageBlock.totalSize

@[simp] theorem sizes_nil : MessageQueue.sizes [] = [] := rfl

@[simp] theorem sizes_cons (b : MessageBlock) (q : MessageQueue) :
    MessageQueue.sizes (b :: q) = b.totalSize :: MessageQueue.sizes q := rfl

theorem bytes_eq_sum (q : MessageQueue) : MessageQueue.bytes q = (MessageQueue.sizes q).sum := by
  induction q with
  | nil => rfl
  | cons b q ih =>
      show b.totalSize + MessageQueue.bytes q = (b.totalSize :: MessageQueue.sizes q).sum
      rw [ih, List.sum_cons]

theorem sum_le_of_suffix {l l' : List Nat} (h : l <:+ l') : l.sum ≤ l'.sum := by
  obtain ⟨front, rfl⟩ := h
  rw [List.sum_append]
  omega

/-- A block is put back with its size, or not at all. -/
theorem putBack_sizes (q : MessageQueue) (mb : MessageBlock) :
    MessageQueue.sizes (putBack q mb) <:+ mb.totalSize :: MessageQueue.sizes q := by
  by_cases hq : MessageQueue.bytes q < highWaterMark
  · rw [putBack_fits mb hq]
    exact List.suffix_refl _
  · rw [putBack_full mb (by omega)]
    exact List.suffix_cons _ _

/-- The output side when a pass is over. -/
def OutPass.out : OutPass → OutSide
  | .stop _ o => o
  | .next o => o

/-- A pass leaves the queue as it is, or without its front block, whose unsent rest keeps
the size of the whole. -/
theorem outputPass_sizes (send : (len : Nat) → Send len) (o : OutSide) :
    MessageQueue.sizes (outputPass send o).out.queue <:+ MessageQueue.sizes o.queue := by
  unfold outputPass
  cases hoq : o.queue with
  | nil =>
      show MessageQueue.sizes o.queue <:+ _
      rw [hoq]
  | cons mb q =>
      cases hs : send mb.length with
      | failed e =>
          by_cases he : e.retry = true
          · simpa [hs, he, OutPass.out] using putBack_sizes q mb
          · simp [hs, he, OutPass.out]
      | sent n pos le =>
          have hsize : (mb.rdPtr n).totalSize = mb.totalSize := MessageBlock.rdPtr_size mb n
          have hback := putBack_sizes q (mb.rdPtr n)
          rw [hsize] at hback
          simp only [OutPass.out, OutSide.afterSend, sizes_cons, hs]
          split
          · exact hback
          · exact List.suffix_cons _ _

/-- **An activation** leaves the sizes of a rear part of the queue. -/
theorem outputLoop_sizes :
    ∀ (n : Nat) (sends : Sends) (o : OutSide),
      MessageQueue.sizes (outputLoop n sends o).2.queue <:+ MessageQueue.sizes o.queue := by
  intro n
  induction n with
  | zero => exact fun _ _ => List.suffix_refl _
  | succ n ih =>
      intro sends o
      have hpass := outputPass_sizes (sends 0) o
      unfold outputLoop
      cases hp : outputPass (sends 0) o with
      | stop ok o' =>
          rw [hp] at hpass
          exact hpass
      | next o' =>
          rw [hp] at hpass
          exact (ih _ o').trans hpass

theorem handleOutput_sizes (o : OutSide) (sends : Sends) :
    MessageQueue.sizes (o.handleOutput sends).2.queue <:+ MessageQueue.sizes o.queue := by
  have hloop := outputLoop_sizes (maxSendNum + 1) sends o
  unfold OutSide.handleOutput
  split
  next h => rwa [h] at hloop
  next h => rwa [h] at hloop

/-- A write queues a block behind the others, or changes nothing. -/
theorem write_sizes (o : OutSide) (strMsg : List UInt8) :
    (MessageQueue.sizes o.queue).sum < highWaterMark
        ∧ MessageQueue.sizes (o.write strMsg).2.queue
          = MessageQueue.sizes o.queue ++ [strMsg.length + 4]
      ∨ (o.write strMsg).2.queue = o.queue := by
  rcases o.write_cases strMsg with ⟨-, hw⟩ | ⟨hroom, hw⟩
  · exact Or.inr (by rw [hw])
  · refine Or.inl ⟨bytes_eq_sum o.queue ▸ hroom, ?_⟩
    rw [hw]
    simp [MessageQueue.sizes, mkMessage_totalSize]

/-! ## §2. The bound. -/

/-- All blocks but the last are below the high-water mark. -/
def MessageQueue.Roomy (q : MessageQueue) : Prop :=
  (MessageQueue.sizes q).dropLast.sum < highWaterMark

theorem roomy_nil : MessageQueue.Roomy [] := by
  show 0 < highWaterMark
  decide

/-- The same of any rear part. -/
theorem MessageQueue.Roomy.of_suffix {q q' : MessageQueue} (h : MessageQueue.Roomy q)
    (hsuf : MessageQueue.sizes q' <:+ MessageQueue.sizes q) : MessageQueue.Roomy q' := by
  obtain ⟨front, hfront⟩ := hsuf
  unfold MessageQueue.Roomy at h ⊢
  rcases List.eq_nil_or_concat' (MessageQueue.sizes q') with hnil | ⟨init, last, hlast⟩
  · rw [hnil]
    show 0 < highWaterMark
    decide
  · rw [hlast, List.dropLast_concat]
    rw [← hfront, hlast, ← List.append_assoc, List.dropLast_concat, List.sum_append] at h
    omega

theorem outStep_write {run run' : OutRun} {strMsg : List UInt8}
    (h : outStep run (.write strMsg) = some run') :
    run.failed = false ∧ run' = { run with
      out := (run.out.write strMsg).2
      written := if (run.out.write strMsg).1 = 0 then run.written ++ frameOf strMsg
        else run.written } := by
  simp only [outStep] at h
  split at h
  next => exact absurd h (by simp)
  next hf => exact ⟨by simpa using hf, (Option.some.inj h).symm⟩

theorem outStep_activate {run run' : OutRun} {sends : Sends}
    (h : outStep run (.activate sends) = some run') :
    run.failed = false ∧ run' = { run with
      out := (run.out.handleOutput sends).2
      failed := (run.out.handleOutput sends).1 = -1 } := by
  simp only [outStep] at h
  split at h
  next => exact absurd h (by simp)
  next hf => exact ⟨by simpa using hf, (Option.some.inj h).symm⟩

/-- **What an event does to the sizes**: a rear part of them remains, or a write has found
room and its block is behind them. -/
theorem outStep_sizes {run run' : OutRun} {ev : OutEvent} (hstep : outStep run ev = some run') :
    MessageQueue.sizes run'.out.queue <:+ MessageQueue.sizes run.out.queue
      ∨ ∃ strMsg, ev = .write strMsg ∧ (MessageQueue.sizes run.out.queue).sum < highWaterMark
        ∧ MessageQueue.sizes run'.out.queue
          = MessageQueue.sizes run.out.queue ++ [strMsg.length + 4] := by
  cases ev with
  | write strMsg =>
      obtain ⟨-, rfl⟩ := outStep_write hstep
      rcases write_sizes run.out strMsg with ⟨hroom, hsizes⟩ | hsame
      · exact Or.inr ⟨strMsg, rfl, hroom, hsizes⟩
      · refine Or.inl ?_
        show MessageQueue.sizes (run.out.write strMsg).2.queue <:+ _
        rw [hsame]
  | activate sends =>
      obtain ⟨-, rfl⟩ := outStep_activate hstep
      exact Or.inl (handleOutput_sizes run.out sends)

/-- **Every event** keeps all blocks but the last below the mark. -/
theorem outStep_roomy {run run' : OutRun} {ev : OutEvent} (h : MessageQueue.Roomy run.out.queue)
    (hstep : outStep run ev = some run') : MessageQueue.Roomy run'.out.queue := by
  rcases outStep_sizes hstep with hsuf | ⟨strMsg, -, hroom, hsizes⟩
  · exact h.of_suffix hsuf
  · unfold MessageQueue.Roomy
    rw [hsizes, List.dropLast_concat]
    exact hroom

/-- The messages whose write is called. -/
def OutEvent.written : OutEvent → List (List UInt8)
  | .write strMsg => [strMsg]
  | .activate _ => []

/-- The sizes of their blocks. -/
def writtenSizes (evs : List OutEvent) : List Nat :=
  (evs.flatMap OutEvent.written).map fun strMsg => strMsg.length + 4

theorem writtenSizes_cons (ev : OutEvent) (evs : List OutEvent) :
    writtenSizes (ev :: evs)
      = (ev.written.map fun strMsg => strMsg.length + 4) ++ writtenSizes evs := by
  unfold writtenSizes
  rw [List.flatMap_cons, List.map_append]

/-- Every queued block is one of a message that was written. -/
theorem replay_sizes (evs : List OutEvent) :
    ∀ {run run' : OutRun}, replay outStep run evs = some run' →
      MessageQueue.sizes run'.out.queue
        ⊆ MessageQueue.sizes run.out.queue ++ writtenSizes evs := by
  induction evs with
  | nil =>
      intro run run' hrun
      obtain rfl : run = run' := by simpa using hrun
      exact List.subset_append_left _ _
  | cons ev evs ih =>
      intro run run' hrun
      obtain ⟨mid, hstep, hrest⟩ := replay_cons.mp hrun
      have hmid : MessageQueue.sizes mid.out.queue
          ⊆ MessageQueue.sizes run.out.queue
            ++ ev.written.map fun strMsg => strMsg.length + 4 := by
        rcases outStep_sizes hstep with hsuf | ⟨strMsg, rfl, -, hsizes⟩
        · exact fun n hn => List.mem_append_left _ (hsuf.subset hn)
        · exact fun n hn => hsizes ▸ hn
      intro n hn
      rw [writtenSizes_cons, ← List.append_assoc]
      rcases List.mem_append.mp (ih hrest hn) with h | h
      · exact List.mem_append_left _ (hmid h)
      · exact List.mem_append_right _ h

/-- **The output queue is bounded**: in every run whose messages have at most `limit` bytes,
whatever the sends do, the queue holds fewer bytes than the mark and one block more. -/
theorem queue_bounded {evs : List OutEvent} {run : OutRun} {limit : Nat}
    (hrun : replay outStep OutRun.start evs = some run)
    (hlimit : ∀ strMsg ∈ evs.flatMap OutEvent.written, strMsg.length ≤ limit) :
    MessageQueue.bytes run.out.queue < highWaterMark + (limit + 4) := by
  have hstep : ∀ (r : OutRun) (ev : OutEvent) (r' : OutRun), MessageQueue.Roomy r.out.queue →
      outStep r ev = some r' → MessageQueue.Roomy r'.out.queue :=
    fun _ _ _ h hs => outStep_roomy h hs
  have hroomy : MessageQueue.Roomy run.out.queue :=
    replay_invariant' hstep evs OutRun.start run roomy_nil hrun
  have hsizes := replay_sizes evs hrun
  rw [bytes_eq_sum]
  unfold MessageQueue.Roomy at hroomy
  rcases List.eq_nil_or_concat' (MessageQueue.sizes run.out.queue) with hnil | ⟨init, last, hlast⟩
  · rw [hnil]
    show 0 < highWaterMark + (limit + 4)
    omega
  · -- the last block is that of a message that was written
    have hmem : last ∈ writtenSizes evs := by
      have h := hsizes (show last ∈ MessageQueue.sizes run.out.queue by rw [hlast]; simp)
      simpa [OutRun.start] using h
    obtain ⟨strMsg, hmsg, rfl⟩ := List.mem_map.mp hmem
    have hle := hlimit strMsg hmsg
    rw [hlast, List.dropLast_concat] at hroomy
    rw [hlast, List.sum_append, List.sum_singleton]
    omega

/-- Two messages, the second of which is sent in part. -/
theorem queue_bounded_two :
    ∃ run, replay outStep OutRun.start
        [.write [0x41], .write [0x42, 0x43], .activate sendOneByte] = some run
      ∧ MessageQueue.bytes run.out.queue < highWaterMark + (2 + 4) :=
  ⟨_, rfl, @queue_bounded [.write [0x41], .write [0x42, 0x43], .activate sendOneByte] _ 2
    rfl (by decide)⟩

/-! ## §3. Messages that never grow. -/

theorem tail_sum_le_of_suffix {l l' : List Nat} (h : l <:+ l') : l.tail.sum ≤ l'.tail.sum := by
  obtain ⟨front, rfl⟩ := h
  cases front with
  | nil => exact Nat.le_refl _
  | cons m front =>
      have hle := sum_le_of_suffix (List.tail_suffix l)
      rw [List.cons_append, List.tail_cons, List.sum_append]
      omega

/-- With the blocks behind the front one below the mark, every put-back fits: it stays so
from pass to pass. -/
theorem putsBackFit_of_tail :
    ∀ (n : Nat) (sends : Sends) (o : OutSide),
      (MessageQueue.sizes o.queue).tail.sum < highWaterMark → putsBackFit n sends o := by
  intro n
  induction n with
  | zero => exact fun _ _ _ => trivial
  | succ n ih =>
      intro sends o htail
      constructor
      · unfold passFits
        cases hoq : o.queue with
        | nil => trivial
        | cons mb q =>
            rw [hoq, sizes_cons, List.tail_cons, ← bytes_eq_sum] at htail
            dsimp only
            split
            · exact fun _ => htail
            · exact fun _ => htail
      · intro o' hp
        apply ih
        have hsuf := outputPass_sizes (sends 0) o
        rw [hp] at hsuf
        exact Nat.lt_of_le_of_lt (tail_sum_le_of_suffix hsuf) htail

/-- The sizes queued, and those still to come, never grow. -/
def Falling (run : OutRun) (evs : List OutEvent) : Prop :=
  (MessageQueue.sizes run.out.queue ++ writtenSizes evs).Pairwise fun m n => n ≤ m

theorem Falling.next {run run' : OutRun} {ev : OutEvent} {evs : List OutEvent}
    (h : Falling run (ev :: evs)) (hstep : outStep run ev = some run') : Falling run' evs := by
  unfold Falling at h ⊢
  rw [writtenSizes_cons, ← List.append_assoc] at h
  refine h.sublist (List.Sublist.append ?_ (List.Sublist.refl _))
  rcases outStep_sizes hstep with hsuf | ⟨strMsg, rfl, -, hsizes⟩
  · exact hsuf.sublist.trans (List.sublist_append_left _ _)
  · rw [hsizes]
    exact List.Sublist.refl _

/-- The first of a falling list is at least as large as the last, so the list without the
first has no greater sum than the list without the last. -/
theorem tail_sum_le_of_falling {l : List Nat} (h : l.Pairwise fun m n => n ≤ m) :
    l.tail.sum ≤ l.dropLast.sum := by
  cases l with
  | nil => exact Nat.le_refl 0
  | cons m l =>
      rcases List.eq_nil_or_concat' l with rfl | ⟨mid, last, rfl⟩
      · exact Nat.le_refl 0
      · have hle : last ≤ m := List.rel_of_pairwise_cons h (by simp)
        rw [List.tail_cons, ← List.cons_append, List.dropLast_concat, List.sum_append,
          List.sum_singleton, List.sum_cons]
        omega

/-- So every put-back of the run fits. -/
theorem Falling.along (evs : List OutEvent) :
    ∀ {run : OutRun}, MessageQueue.Roomy run.out.queue → Falling run evs →
      Along outStep (fun r ev => OutEvent.fits r ev) run evs := by
  induction evs with
  | nil => exact fun _ _ => trivial
  | cons ev evs ih =>
      intro run hroomy hfall
      refine ⟨?_, fun run' hstep => ih (outStep_roomy hroomy hstep) (hfall.next hstep)⟩
      cases ev with
      | write strMsg => trivial
      | activate sends =>
          refine putsBackFit_of_tail _ sends run.out ?_
          exact Nat.lt_of_le_of_lt
            (tail_sum_le_of_falling (List.pairwise_append.mp hfall).1) hroomy

/-- **Messages that never grow are never lost**: on a connection whose messages are each at
most as long as those before them, the outgoing stream is intact whatever the sends do. -/
theorem falling_lengths_intact {evs : List OutEvent} {run : OutRun}
    (hfall : (evs.flatMap OutEvent.written).Pairwise fun p q => q.length ≤ p.length)
    (hrun : replay outStep OutRun.start evs = some run) (hopen : run.failed = false) :
    run.Intact := by
  have hsizes : Falling OutRun.start evs := by
    show (writtenSizes evs).Pairwise fun m n => n ≤ m
    exact List.pairwise_map.mpr (hfall.imp fun h => Nat.add_le_add_right h 4)
  exact ((replay_intact evs OutRun.start run start_pending hrun hopen).1 rfl).mpr
    (hsizes.along evs roomy_nil)

/-- Two messages of one length, and sends that stop after one byte. -/
theorem falling_lengths_intact_equal :
    ∃ run, replay outStep OutRun.start
        [.write [0x41], .write [0x42], .activate sendOneByte] = some run ∧ run.Intact :=
  ⟨_, rfl, @falling_lengths_intact [.write [0x41], .write [0x42], .activate sendOneByte] _
    (by decide) rfl rfl⟩

/-! ## §4. Queues that empty. -/

/-- Every send takes something. -/
def Sends.Moving (sends : Sends) : Prop :=
  ∀ i len, 0 < len → ∃ n pos le, sends i len = Send.sent n pos le

theorem sendAll_moving : Sends.Moving sendAll := by
  intro i len hlen
  exact ⟨len, hlen, Nat.le_refl len, by simp [sendAll, hlen]⟩

/-- Sends that take whole blocks put nothing back. -/
theorem putsBackFit_sendAll :
    ∀ (n : Nat) (o : OutSide), o.Pending → putsBackFit n sendAll o := by
  intro n
  induction n with
  | zero => exact fun _ _ => trivial
  | succ n ih =>
      intro o hpend
      constructor
      · unfold passFits
        cases hoq : o.queue with
        | nil => trivial
        | cons mb q =>
            have hmb : 0 < mb.length :=
              List.length_pos_iff.mpr (hpend mb (by rw [hoq]; exact List.mem_cons_self))
            simp [sendAll, hmb]
      · intro o' hp
        have hleft : (outputPass (sendAll 0) o).left = some o' := by
          rw [hp]
          rfl
        exact ih o' (outputPass_spec hpend hleft).pending

/-- The bytes that are still to be sent. -/
def OutSide.left (o : OutSide) : Nat := (MessageQueue.unsent o.queue).length

/-- Nothing is left exactly of an empty queue. -/
theorem OutSide.Pending.left_eq_zero {o : OutSide} (hpend : o.Pending) (h : o.left = 0) :
    o.queue = [] := by
  cases hoq : o.queue with
  | nil => rfl
  | cons mb q =>
      have hmb : mb.bytes.length ≠ 0 := by
        intro hnil
        exact hpend mb (by rw [hoq]; exact List.mem_cons_self) (List.length_eq_zero_iff.mp hnil)
      unfold OutSide.left at h
      rw [hoq, unsent_cons, List.length_append] at h
      omega

/-- A pass that sends takes at least one byte off. -/
theorem afterSend_left {o : OutSide} {mb : MessageBlock} {q : MessageQueue} {n : Nat}
    (hoq : o.queue = mb :: q) (hpend : o.Pending) (hpos : 0 < n) (hn : n ≤ mb.length) :
    (o.afterSend mb q n).left < o.left := by
  have hlen := (afterSend_spec hoq hpend hn).length_le
  have hle : (mb.bytes.take n).length = n := by
    rw [List.length_take]
    exact Nat.min_eq_left hn
  simp only [OutSide.stream, OutSide.afterSend, List.length_append, hle] at hlen
  simp only [OutSide.left, OutSide.afterSend]
  omega

/-- **An activation whose sends all take something** sends a byte with each of its passes, or
empties the queue. -/
theorem outputLoop_left :
    ∀ (n : Nat) (sends : Sends) (o : OutSide), sends.Moving → o.Pending →
      (outputLoop n sends o).1 = true ∧ (outputLoop n sends o).2.Pending
        ∧ (outputLoop n sends o).2.left ≤ o.left - n := by
  intro n
  induction n with
  | zero => exact fun _ o _ hpend => ⟨rfl, hpend, Nat.le_refl _⟩
  | succ n ih =>
      intro sends o hmove hpend
      cases hoq : o.queue with
      | nil =>
          have hloop : outputLoop (n + 1) sends o = (true, o) := by
            simp only [outputLoop, outputPass, hoq]
          have hleft : o.left = 0 := by simp [OutSide.left, hoq]
          rw [hloop]
          refine ⟨rfl, hpend, ?_⟩
          show o.left ≤ o.left - (n + 1)
          omega
      | cons mb q =>
          have hmb : 0 < mb.length :=
            List.length_pos_iff.mpr (hpend mb (by rw [hoq]; exact List.mem_cons_self))
          obtain ⟨k, hpos, hle, hsend⟩ := hmove 0 mb.length hmb
          have hloop : outputLoop (n + 1) sends o
              = outputLoop n (fun i => sends (i + 1)) (o.afterSend mb q k) := by
            simp only [outputLoop, outputPass, hoq, hsend]
          have hless := afterSend_left hoq hpend hpos hle
          obtain ⟨hok, hpend', hleft⟩ := ih (fun i => sends (i + 1)) (o.afterSend mb q k)
            (fun i => hmove (i + 1)) (afterSend_spec hoq hpend hle).pending
          rw [hloop]
          exact ⟨hok, hpend', by omega⟩

/-- WRITE_MASK is registered exactly while something is queued. -/
def OutSide.MaskFollows (o : OutSide) : Prop := o.writeMask = !o.queue.isEmpty

/-- So it is while there are bytes to send. -/
theorem OutSide.MaskFollows.of_left {o : OutSide} (h : o.MaskFollows) (hleft : 0 < o.left) :
    o.writeMask = true := by
  unfold OutSide.MaskFollows at h
  rw [h]
  cases hoq : o.queue with
  | nil => simp [OutSide.left, hoq] at hleft
  | cons mb q => rfl

theorem write_maskFollows {o : OutSide} (h : o.MaskFollows) (strMsg : List UInt8) :
    (o.write strMsg).2.MaskFollows := by
  rcases o.write_cases strMsg with ⟨-, hw⟩ | ⟨-, hw⟩
  · rw [hw]
    exact h
  · rw [hw]
    simp [OutSide.MaskFollows]

theorem handleOutput_maskFollows {o : OutSide} {sends : Sends}
    (hok : (o.handleOutput sends).1 ≠ -1) : (o.handleOutput sends).2.MaskFollows := by
  unfold OutSide.handleOutput at hok ⊢
  split
  next h =>
    rw [h] at hok
    exact absurd rfl hok
  next => rfl

/-- What the states of an open connection have in common. -/
structure OutRun.Steady (run : OutRun) : Prop where
  pending : run.failed = false → run.out.Pending
  mask : run.failed = false → run.out.MaskFollows

theorem OutRun.Steady.start : OutRun.start.Steady := ⟨fun _ => start_pending, fun _ => rfl⟩

theorem OutRun.Steady.step {run run' : OutRun} {ev : OutEvent} (h : run.Steady)
    (hstep : outStep run ev = some run') : run'.Steady := by
  have hspec := fun hopen => outStep_spec (h.pending hopen) hstep
  cases ev with
  | write strMsg =>
      obtain ⟨hopen, rfl⟩ := outStep_write hstep
      exact ⟨fun hopen' => (hspec hopen hopen').1,
        fun _ => write_maskFollows (h.mask hopen) strMsg⟩
  | activate sends =>
      obtain ⟨hopen, rfl⟩ := outStep_activate hstep
      exact ⟨fun hopen' => (hspec hopen hopen').1,
        fun hopen' => handleOutput_maskFollows (of_decide_eq_false hopen')⟩

/-- One activation of an open connection, when every send takes something. -/
theorem activate_moving {run : OutRun} {sends : Sends} (hmove : sends.Moving)
    (hpend : run.out.Pending) (hopen : run.failed = false) :
    ∃ run', outStep run (.activate sends) = some run' ∧ run'.failed = false
      ∧ run'.out.left ≤ run.out.left - 101 := by
  obtain ⟨hok, -, hleft⟩ := outputLoop_left (maxSendNum + 1) sends run.out hmove hpend
  have hcode : run.out.handleOutput sends
      = (0, { (outputLoop (maxSendNum + 1) sends run.out).2 with
          writeMask := !(outputLoop (maxSendNum + 1) sends run.out).2.queue.isEmpty }) := by
    unfold OutSide.handleOutput
    split
    next h =>
      rw [h] at hok
      exact absurd hok (by simp)
    next h => rw [h]
  have hstep : outStep run (.activate sends)
      = some { run with
          out := (run.out.handleOutput sends).2
          failed := (run.out.handleOutput sends).1 = -1 } := by
    simp only [outStep, hopen]
    rfl
  refine ⟨_, hstep, ?_, ?_⟩
  · rw [hcode]
    rfl
  · rw [hcode]
    exact hleft

/-- Activation after activation. -/
theorem activations_moving (acts : List Sends) :
    ∀ {run : OutRun}, (∀ sends ∈ acts, sends.Moving) → run.Steady → run.failed = false →
      ∃ run', replay outStep run (acts.map .activate) = some run' ∧ run'.failed = false
        ∧ run'.Steady ∧ run'.out.left ≤ run.out.left - 101 * acts.length := by
  induction acts with
  | nil => exact fun _ hsteady hopen => ⟨_, rfl, hopen, hsteady, Nat.le_refl _⟩
  | cons sends acts ih =>
      intro run hmove hsteady hopen
      obtain ⟨mid, hstep, hopen₁, hleft₁⟩ :=
        activate_moving (hmove sends List.mem_cons_self) (hsteady.pending hopen) hopen
      obtain ⟨run', hrun, hopen', hsteady', hleft⟩ :=
        ih (fun s hs => hmove s (List.mem_cons_of_mem _ hs)) (hsteady.step hstep) hopen₁
      refine ⟨run', replay_cons.mpr ⟨mid, hstep, hrun⟩, hopen', hsteady', ?_⟩
      rw [List.length_cons]
      omega

/-- **A queue drains**: from every state of an open connection, as many activations as there
are bytes to send, divided by 101, empty the queue and take WRITE_MASK off, if every send
takes something.  If none of these bytes or the earlier ones is lost, the socket has then
accepted all that was written. -/
theorem queue_drains {evs : List OutEvent} {run : OutRun} {acts : List Sends}
    (hrun : replay outStep OutRun.start evs = some run) (hopen : run.failed = false)
    (hmove : ∀ sends ∈ acts, sends.Moving) (henough : run.out.left ≤ 101 * acts.length) :
    ∃ run', replay outStep run (acts.map .activate) = some run' ∧ run'.failed = false
      ∧ run'.out.queue = [] ∧ run'.out.writeMask = false
      ∧ (Along outStep (fun r ev => OutEvent.fits r ev) OutRun.start
            (evs ++ acts.map .activate) → run'.out.accepted = run'.written) := by
  have hsteady : run.Steady :=
    replay_invariant' (fun _ _ _ h hstep => h.step hstep) evs OutRun.start run
      OutRun.Steady.start hrun
  obtain ⟨run', hacts, hopen', hsteady', hleft⟩ := activations_moving acts hmove hsteady hopen
  have hempty : run'.out.queue = [] :=
    (hsteady'.pending hopen').left_eq_zero (by omega)
  refine ⟨run', hacts, hopen', hempty, ?_, ?_⟩
  · have hmask := hsteady'.mask hopen'
    unfold OutSide.MaskFollows at hmask
    rw [hmask, hempty]
    rfl
  · intro hfits
    have hint : run'.Intact :=
      ((replay_intact _ OutRun.start run' start_pending
        (replay_append.mpr ⟨run, hrun, hacts⟩) hopen').1 rfl).mpr hfits
    unfold OutRun.Intact OutSide.stream at hint
    rw [hempty, unsent_nil, List.append_nil] at hint
    exact hint

/-- Two messages and one activation. -/
theorem queue_drains_two :
    ∃ run run', replay outStep OutRun.start [.write [0x41], .write [0x42, 0x43]] = some run
      ∧ replay outStep run [.activate sendAll] = some run' ∧ run'.out.queue = [] := by
  obtain ⟨run', hacts, -, hempty, -⟩ :=
    @queue_drains [.write [0x41], .write [0x42, 0x43]] _ [sendAll] rfl rfl
      (by simpa using sendAll_moving) (by decide)
  exact ⟨_, run', rfl, hacts, hempty⟩

end TcpFramework
