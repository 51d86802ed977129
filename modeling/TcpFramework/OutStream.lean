/-
  TcpFramework.OutStream — the outgoing byte stream of one connection.

  The bytes the socket has accepted, followed by the unsent bytes still queued,
  should be the frames of the messages written so far.  That holds as long as every
  put-back of an unsent rest finds room in the queue.  One that does not loses the
  rest of the block, and the stream never recovers.

  Main results:
    * `outputLoop_spec` — one activation.
    * `outStream_intact_iff` — runs: intact exactly when every put-back fits.
-/
import TcpFramework.HandleOutput

namespace TcpFramework

open StepSystem ParsePkg

/-! ## §1. What write queues. -/

@[simp] theorem length_mkMsgHead (strMsg : List UInt8) : (mkMsgHead strMsg).length = 3 := rfl

@[simp] theorem length_mkMsgTail (strMsg : List UInt8) : (mkMsgTail strMsg).length = 1 := rfl

theorem length_frameOf (strMsg : List UInt8) :
    (frameOf strMsg).length = strMsg.length + 4 := by
  unfold frameOf
  simp only [List.length_append, length_mkMsgHead, length_mkMsgTail]
  omega

/-- The three copies fill the block with exactly the frame. -/
theorem mkMessage_bytes (strMsg : List UInt8) :
    (mkMessage strMsg).bytes = frameOf strMsg := by
  let b := MessageBlock.new (strMsg.length + minMsgSize)
  have h₁ : (b.copy (mkMsgHead strMsg)).bytes = mkMsgHead strMsg := by
    rw [MessageBlock.copy_bytes _ _ (by show 0 + 0 + 3 ≤ strMsg.length + 4; omega)]
    rfl
  have h₂ : ((b.copy (mkMsgHead strMsg)).copy strMsg).bytes = mkMsgHead strMsg ++ strMsg := by
    rw [MessageBlock.copy_bytes _ _ (by
      rw [h₁, MessageBlock.copy_size, MessageBlock.copy_rd]
      show 0 + 3 + strMsg.length ≤ strMsg.length + 4
      omega), h₁]
  show (((b.copy (mkMsgHead strMsg)).copy strMsg).copy (mkMsgTail strMsg)).bytes = _
  rw [MessageBlock.copy_bytes _ _ (by
    rw [h₂]
    simp only [MessageBlock.copy_size, MessageBlock.copy_rd, List.length_append]
    show 0 + (3 + strMsg.length) + 1 ≤ strMsg.length + 4
    omega), h₂]
  rfl

theorem mkMessage_totalSize (strMsg : List UInt8) :
    (mkMessage strMsg).totalSize = strMsg.length + 4 := by
  simp only [mkMessage, MessageBlock.totalSize, MessageBlock.copy_size, MessageBlock.new_size]
  rfl

@[simp] theorem unsent_nil : MessageQueue.unsent [] = [] := rfl

@[simp] theorem unsent_cons (b : MessageBlock) (q : MessageQueue) :
    MessageQueue.unsent (b :: q) = b.bytes ++ MessageQueue.unsent q := by
  simp [MessageQueue.unsent]

theorem unsent_append (q r : MessageQueue) :
    MessageQueue.unsent (q ++ r) = MessageQueue.unsent q ++ MessageQueue.unsent r := by
  simp [MessageQueue.unsent]

/-! ## §2. The stream of one output side. -/

/-- The bytes on their way: accepted by the socket, then queued. -/
def OutSide.stream (o : OutSide) : List UInt8 := o.accepted ++ MessageQueue.unsent o.queue

/-- Every queued block has something left to send. -/
def OutSide.Pending (o : OutSide) : Prop := ∀ b ∈ o.queue, b.bytes ≠ []

/-- The put-back of one pass finds the queue below the high-water mark: a send that
leaves part of the front block (a short count, or an errno to retry) happens only while
the blocks behind it hold fewer bytes than that. -/
def passFits (send : (len : Nat) → Send len) (o : OutSide) : Prop :=
  match o.queue with
  | [] => True
  | mb :: q =>
      match send mb.length with
      | .failed e => e.retry = true → MessageQueue.bytes q < highWaterMark
      | .sent n _ _ => n < mb.length → MessageQueue.bytes q < highWaterMark

/-- Every put-back of the loop fits. -/
def putsBackFit : Nat → Sends → OutSide → Prop
  | 0, _, _ => True
  | n + 1, sends, o =>
      passFits (sends 0) o
        ∧ ∀ o', outputPass (sends 0) o = .next o' →
            putsBackFit n (fun i => sends (i + 1)) o'

theorem putBack_fits {q : MessageQueue} (mb : MessageBlock)
    (h : MessageQueue.bytes q < highWaterMark) : putBack q mb = mb :: q := by
  unfold putBack MessageQueue.ungetq
  rw [if_neg (by omega)]
  rfl

theorem putBack_full {q : MessageQueue} (mb : MessageBlock)
    (h : highWaterMark ≤ MessageQueue.bytes q) : putBack q mb = q := by
  unfold putBack MessageQueue.ungetq
  rw [if_pos h]
  rfl

theorem mem_putBack {q : MessageQueue} {mb b : MessageBlock} (h : b ∈ putBack q mb) :
    b = mb ∨ b ∈ q := by
  by_cases hq : MessageQueue.bytes q < highWaterMark
  · rw [putBack_fits mb hq] at h
    exact List.mem_cons.mp h
  · rw [putBack_full mb (by omega)] at h
    exact Or.inr h

/-- What is left of a block after a send of `n` of its bytes. -/
theorem rdPtr_length (mb : MessageBlock) (n : Nat) (hn : n ≤ mb.length) :
    (mb.rdPtr n).length = mb.length - n := by
  unfold MessageBlock.length at *
  rw [MessageBlock.rdPtr_bytes mb n hn, List.length_drop]

/-- The output side `o'` after `o`: what is queued has something left to send; the stream is
unchanged under the condition, and shorter without it. -/
structure OutSide.Accounts (fits : Prop) (o o' : OutSide) : Prop where
  pending : o'.Pending
  keeps : fits → o'.stream = o.stream
  loses : ¬ fits → o'.stream.length < o.stream.length

namespace OutSide.Accounts

variable {fits fits' : Prop} {o o₁ o' : OutSide}

theorem refl (h : o.Pending) : Accounts True o o := ⟨h, fun _ => rfl, fun h => absurd trivial h⟩

theorem congr (hiff : fits' ↔ fits) (h : Accounts fits o o') : Accounts fits' o o' :=
  ⟨h.pending, fun hf => h.keeps (hiff.mp hf), fun hf => h.loses fun hf' => hf (hiff.mpr hf')⟩

/-- In no case is the stream longer. -/
theorem length_le (h : Accounts fits o o') : o'.stream.length ≤ o.stream.length := by
  by_cases hf : fits
  · exact Nat.le_of_eq (congrArg List.length (h.keeps hf))
  · exact Nat.le_of_lt (h.loses hf)

/-- One after the other: nothing is lost when both conditions hold. -/
theorem trans (h₁ : Accounts fits o o₁) (h₂ : Accounts fits' o₁ o') :
    Accounts (fits ∧ fits') o o' where
  pending := h₂.pending
  keeps := fun hf => (h₂.keeps hf.2).trans (h₁.keeps hf.1)
  loses := by
    intro hf
    have hle₁ := h₁.length_le
    have hle₂ := h₂.length_le
    by_cases h : fits
    · have hlt := h₂.loses fun h' => hf ⟨h, h'⟩
      omega
    · have hlt := h₁.loses h
      omega

end OutSide.Accounts

/-- **One pass that sends** loses nothing exactly if its put-back fits. -/
theorem afterSend_spec {o : OutSide} {mb : MessageBlock} {q : MessageQueue} {n : Nat}
    (hoq : o.queue = mb :: q) (hpend : o.Pending) (hn : n ≤ mb.length) :
    OutSide.Accounts (n < mb.length → MessageQueue.bytes q < highWaterMark) o
      (o.afterSend mb q n) := by
  have hlen := rdPtr_length mb n hn
  have hbytes := MessageBlock.rdPtr_bytes mb n hn
  unfold MessageBlock.length at hn hlen
  have hstream : o.stream = o.accepted ++ (mb.bytes ++ MessageQueue.unsent q) := by
    rw [OutSide.stream, hoq, unsent_cons]
  refine ⟨?_, ?_, ?_⟩
  · -- a block that is put back has something left, the others had
    intro b hb
    have hq : ∀ c ∈ q, c.bytes ≠ [] := fun c hc => hpend c (by rw [hoq]; simp [hc])
    simp only [OutSide.afterSend] at hb
    split at hb
    next hpos =>
      rcases mem_putBack hb with rfl | h
      · exact List.length_pos_iff.mp hpos
      · exact hq b h
    next => exact hq b hb
  · intro hfit
    rw [hstream]
    simp only [OutSide.stream, OutSide.afterSend, MessageBlock.length, hlen] at *
    by_cases hrest : n < mb.bytes.length
    · rw [if_pos (by omega), putBack_fits _ (hfit hrest), unsent_cons, hbytes,
        List.append_assoc, ← List.append_assoc (mb.bytes.take n), List.take_append_drop]
    · rw [if_neg (by omega), List.take_of_length_le (by omega), List.append_assoc]
  · intro hfit
    rw [hstream]
    simp only [OutSide.stream, OutSide.afterSend, MessageBlock.length, hlen] at *
    obtain ⟨hrest, hfull⟩ := Classical.not_imp.mp hfit
    rw [if_pos (by omega), putBack_full _ (Nat.not_lt.mp hfull)]
    simp only [List.length_append, List.length_take]
    omega

/-- A pass whose send has to be tried again puts the whole block back. -/
theorem retry_spec {o : OutSide} {mb : MessageBlock} {q : MessageQueue}
    (hoq : o.queue = mb :: q) (hpend : o.Pending) :
    OutSide.Accounts (MessageQueue.bytes q < highWaterMark) o
      { o with queue := putBack q mb } := by
  have hmb : mb.bytes ≠ [] := hpend mb (by simp [hoq])
  have hstream : o.stream = o.accepted ++ (mb.bytes ++ MessageQueue.unsent q) := by
    rw [OutSide.stream, hoq, unsent_cons]
  refine ⟨?_, ?_, ?_⟩
  · intro b hb
    rcases mem_putBack hb with rfl | h
    · exact hmb
    · exact hpend b (by simp [hoq, h])
  · intro hfit
    rw [hstream, OutSide.stream, putBack_fits mb hfit, unsent_cons]
  · intro hfull
    have hpos := List.length_pos_iff.mpr hmb
    rw [hstream, OutSide.stream, putBack_full mb (Nat.not_lt.mp hfull)]
    simp only [List.length_append]
    omega

/-- The output side a pass leaves, unless it returns -1. -/
def OutPass.left : OutPass → Option OutSide
  | .stop true o => some o
  | .stop false _ => none
  | .next o => some o

/-- **One pass** that does not fail loses nothing exactly if its put-back fits. -/
theorem outputPass_spec {send : (len : Nat) → Send len} {o o' : OutSide}
    (hpend : o.Pending) (hpass : (outputPass send o).left = some o') :
    OutSide.Accounts (passFits send o) o o' := by
  unfold outputPass at hpass
  unfold passFits
  cases hoq : o.queue with
  | nil =>
      obtain rfl : o = o' := by simpa [hoq, OutPass.left] using hpass
      exact .refl hpend
  | cons mb q =>
      simp only [hoq] at hpass ⊢
      cases hs : send mb.length with
      | sent n pos le =>
          obtain rfl : o.afterSend mb q n = o' := by simpa [hs, OutPass.left] using hpass
          exact afterSend_spec hoq hpend le
      | failed e =>
          simp only [hs] at hpass ⊢
          by_cases hretry : e.retry = true
          · rw [if_pos hretry] at hpass
            obtain rfl : { o with queue := putBack q mb } = o' := by
              simpa [OutPass.left] using hpass
            exact (retry_spec hoq hpend).congr (by simp [hretry])
          · rw [if_neg hretry] at hpass
            simp [OutPass.left] at hpass

/-! ## §3. One activation. -/

/-- **One activation** that does not fail loses nothing exactly if all its put-backs fit. -/
theorem outputLoop_spec :
    ∀ (n : Nat) (sends : Sends) (o o' : OutSide), o.Pending →
      outputLoop n sends o = (true, o') → OutSide.Accounts (putsBackFit n sends o) o o' := by
  intro n
  induction n with
  | zero =>
      intro sends o o' hpend hloop
      obtain rfl : o = o' := by simpa [outputLoop] using hloop
      exact .refl hpend
  | succ n ih =>
      intro sends o o' hpend hloop
      simp only [outputLoop] at hloop
      cases hp : outputPass (sends 0) o with
      | stop ok o₁ =>
          -- the loop is left here
          simp only [hp, Prod.mk.injEq] at hloop
          obtain ⟨rfl, rfl⟩ := hloop
          have hleft : (outputPass (sends 0) o).left = some o₁ := by
            rw [hp]
            rfl
          exact (outputPass_spec hpend hleft).congr (by simp [putsBackFit, hp])
      | next o₁ =>
          simp only [hp] at hloop
          have hleft : (outputPass (sends 0) o).left = some o₁ := by
            rw [hp]
            rfl
          have hpass := outputPass_spec hpend hleft
          exact (hpass.trans (ih _ o₁ o' hpass.pending hloop)).congr (by simp [putsBackFit, hp])

/-! ## §4. Runs. -/

/-- **The stream is intact**: accepted bytes and queued bytes are the frames of the
messages whose write returned 0, in call order. -/
def OutRun.Intact (run : OutRun) : Prop := run.out.stream = run.written

/-- The condition on one event: the put-backs of an activation fit. -/
def OutEvent.fits (run : OutRun) : OutEvent → Prop
  | .write _ => True
  | .activate sends => putsBackFit (maxSendNum + 1) sends run.out

/-- What write does: it looks at the queue only. -/
theorem OutSide.write_cases (o : OutSide) (strMsg : List UInt8) :
    (MessageQueue.bytes o.queue ≥ highWaterMark ∧ o.write strMsg = (-1, o)) ∨
    (MessageQueue.bytes o.queue < highWaterMark
      ∧ o.write strMsg
        = (0, { o with queue := o.queue ++ [mkMessage strMsg], writeMask := true })) := by
  unfold OutSide.write MessageQueue.putq
  by_cases hfull : MessageQueue.bytes o.queue ≥ highWaterMark
  · rw [if_pos hfull]
    exact Or.inl ⟨hfull, rfl⟩
  · rw [if_neg hfull]
    exact Or.inr ⟨by omega, rfl⟩

/-- A write puts the frame behind the stream when it returns 0, and does nothing otherwise. -/
theorem OutSide.write_spec {o : OutSide} (hpend : o.Pending) (strMsg : List UInt8) :
    (o.write strMsg).2.Pending
      ∧ (o.write strMsg).2.stream
        = o.stream ++ if (o.write strMsg).1 = 0 then frameOf strMsg else [] := by
  rcases o.write_cases strMsg with ⟨-, he⟩ | ⟨-, he⟩
  · rw [he]
    exact ⟨hpend, (List.append_nil _).symm⟩
  · rw [he]
    constructor
    · intro b hb
      rcases List.mem_append.mp hb with h | h
      · exact hpend b h
      · rw [List.mem_singleton.mp h, mkMessage_bytes]
        exact List.length_pos_iff.mp (by rw [length_frameOf]; omega)
    · show o.accepted ++ MessageQueue.unsent (o.queue ++ [mkMessage strMsg]) = _
      rw [unsent_append, unsent_cons, unsent_nil, mkMessage_bytes, List.append_nil,
        ← List.append_assoc]
      rfl

theorem OutSide.handleOutput_spec {o : OutSide} (hpend : o.Pending) {sends : Sends}
    (hok : (o.handleOutput sends).1 ≠ -1) :
    OutSide.Accounts (putsBackFit (maxSendNum + 1) sends o) o (o.handleOutput sends).2 := by
  unfold OutSide.handleOutput at hok ⊢
  cases hloop : outputLoop (maxSendNum + 1) sends o with
  | mk ok o' =>
      cases ok with
      | false =>
          rw [hloop] at hok
          exact absurd rfl hok
      | true =>
          have haccounts := outputLoop_spec _ _ _ _ hpend hloop
          exact ⟨haccounts.pending, haccounts.keeps, haccounts.loses⟩

/-- What one event does to the stream and to the frames it should be. -/
theorem outStep_spec {run run' : OutRun} {ev : OutEvent} (hpend : run.out.Pending)
    (hstep : outStep run ev = some run') (hopen : run'.failed = false) :
    run'.out.Pending
      ∧ ∃ added, run'.written = run.written ++ added
        ∧ (ev.fits run → run'.out.stream = run.out.stream ++ added)
        ∧ (¬ ev.fits run →
            run'.out.stream.length < (run.out.stream ++ added).length) := by
  cases ev with
  | write strMsg =>
      simp only [outStep] at hstep
      split at hstep
      next => exact absurd hstep (by simp)
      next =>
        obtain rfl := Option.some.inj hstep
        obtain ⟨hpend', hstream⟩ := OutSide.write_spec hpend strMsg
        refine ⟨hpend', _, ?_, fun _ => hstream, fun h => absurd trivial h⟩
        show (if _ then _ else _) = _
        split
        · rfl
        · rw [List.append_nil]
  | activate sends =>
      simp only [outStep] at hstep
      split at hstep
      next => exact absurd hstep (by simp)
      next =>
        obtain rfl := Option.some.inj hstep
        have haccounts := OutSide.handleOutput_spec hpend (of_decide_eq_false hopen)
        refine ⟨haccounts.pending, [], (List.append_nil _).symm, ?_, ?_⟩
        · intro h
          rw [List.append_nil]
          exact haccounts.keeps h
        · intro h
          rw [List.append_nil]
          exact haccounts.loses h

/-- No event brings a connection back, so it was open all along. -/
theorem replay_open {run run' : OutRun} {evs : List OutEvent}
    (hrun : replay outStep run evs = some run') (hopen : run'.failed = false) :
    run.failed = false := by
  cases evs with
  | nil =>
      obtain rfl : run = run' := by simpa using hrun
      exact hopen
  | cons ev evs =>
      obtain ⟨mid, hstep, -⟩ := replay_cons.mp hrun
      cases hf : run.failed with
      | false => rfl
      | true => cases ev <;> simp [outStep, hf] at hstep

/-- The run lemma: the stream is intact at the end exactly when it was intact before and
every put-back fits, and a stream that has lost bytes stays too short. -/
theorem replay_intact :
    ∀ (evs : List OutEvent) (run run' : OutRun), run.out.Pending →
      replay outStep run evs = some run' → run'.failed = false →
      (run.Intact → (run'.Intact ↔ Along outStep (fun r ev => ev.fits r) run evs))
        ∧ (run.out.stream.length < run.written.length →
            run'.out.stream.length < run'.written.length) := by
  intro evs
  induction evs with
  | nil =>
      intro run run' _ hrun _
      obtain rfl : run = run' := by simpa using hrun
      exact ⟨fun h => ⟨fun _ => trivial, fun _ => h⟩, fun h => h⟩
  | cons ev evs ih =>
      intro run run' hpend hrun hopen
      obtain ⟨mid, hstep, hrest⟩ := replay_cons.mp hrun
      have hmid := replay_open hrest hopen
      obtain ⟨hpend', added, hwritten, hkeep, hlose⟩ := outStep_spec hpend hstep hmid
      obtain ⟨hint, hshort⟩ := ih mid run' hpend' hrest hopen
      constructor
      · intro hrunI
        rw [along_cons_iff hstep]
        by_cases hfit : ev.fits run
        · -- nothing is lost here: the events after it decide
          have hmidI : mid.Intact := by
            rw [OutRun.Intact, hkeep hfit, hwritten, hrunI]
          rw [hint hmidI]
          exact ⟨fun h => ⟨hfit, h⟩, fun h => h.2⟩
        · -- bytes are lost here, and no event brings them back
          have hlt : mid.out.stream.length < mid.written.length := by
            have := hlose hfit
            rw [hwritten, ← hrunI]
            exact this
          have hnot : ¬ run'.Intact := by
            intro h
            have := hshort hlt
            rw [h] at this
            omega
          exact ⟨fun h => absurd h hnot, fun h => absurd h.1 hfit⟩
      · intro hlt
        apply hshort
        rw [hwritten, List.length_append]
        by_cases hfit : ev.fits run
        · rw [hkeep hfit, List.length_append]
          omega
        · have := hlose hfit
          rw [List.length_append] at this
          omega

theorem start_pending : OutRun.start.out.Pending := by
  intro b hb
  exact absurd hb (by simp [OutRun.start])

/-- **Outgoing stream integrity, exactly**: on a connection no activation of which has
returned -1, the stream is intact if and only if every send that left bytes unsent found
fewer than 16384 bytes queued behind its block. -/
theorem outStream_intact_iff (evs : List OutEvent) (run : OutRun)
    (hrun : replay outStep OutRun.start evs = some run) (hopen : run.failed = false) :
    run.Intact ↔ Along outStep (fun r ev => OutEvent.fits r ev) OutRun.start evs :=
  (replay_intact evs OutRun.start run start_pending hrun hopen).1 rfl

/-- Sends of which the first takes one byte and the next would block. -/
def sendOneByte : Sends := fun i len =>
  if h : i = 0 ∧ 0 < len then .sent 1 (by decide) h.2 else .failed .ewouldblock

/-- Two messages, and an activation that takes one byte of the first: its rest is put back, and
then the whole of it again. -/
theorem outStream_intact_iff_putBack :
    ∃ run, replay outStep OutRun.start
        [.write [0x41], .write [0x42], .activate sendOneByte] = some run
      ∧ run.out.accepted = [0x02] ∧ run.out.queue.length = 2
      ∧ (run.Intact ↔ Along outStep (fun r ev => OutEvent.fits r ev) OutRun.start
          [.write [0x41], .write [0x42], .activate sendOneByte]) :=
  ⟨_, rfl, rfl, rfl,
    outStream_intact_iff [.write [0x41], .write [0x42], .activate sendOneByte] _ rfl rfl⟩

/-! ## §5. The lost rest. -/

/-- A one-byte message with a block at or above the high-water mark behind it: the first
send is partial, the put-back of its rest is refused, and four bytes of the first frame
are never sent. -/
theorem lost_rest (strMsg : List UInt8) (hbig : 16380 ≤ strMsg.length) :
    ∃ run, replay outStep OutRun.start
        [.write [0x41], .write strMsg, .activate sendOneByte] = some run
      ∧ run.failed = false ∧ ¬ run.Intact := by
  let a := mkMessage [0x41]
  let b := mkMessage strMsg
  have hb : highWaterMark ≤ MessageQueue.bytes [b] := by
    show 16384 ≤ b.totalSize + 0
    rw [mkMessage_totalSize]
    omega
  -- both writes are accepted
  have h₁ : outStep OutRun.start (.write [0x41])
      = some ⟨⟨[a], [], true⟩, frameOf [0x41], false⟩ := rfl
  have h₂ : outStep ⟨⟨[a], [], true⟩, frameOf [0x41], false⟩ (.write strMsg)
      = some ⟨⟨[a, b], [], true⟩, frameOf [0x41] ++ frameOf strMsg, false⟩ := rfl
  -- the first pass sends 0x02 and drops the rest
  have hpass₁ : outputPass (sendOneByte 0) ⟨[a, b], [], true⟩
      = .next ⟨[b], [0x02], true⟩ := by
    show OutPass.next (OutSide.afterSend ⟨[a, b], [], true⟩ a [b] 1) = _
    unfold OutSide.afterSend
    rw [if_pos (by decide), putBack_full _ hb]
    rfl
  have h₃ : outStep ⟨⟨[a, b], [], true⟩, frameOf [0x41] ++ frameOf strMsg, false⟩
        (.activate sendOneByte)
      = some ⟨⟨[b], [0x02], true⟩, frameOf [0x41] ++ frameOf strMsg, false⟩ := by
    simp only [outStep, OutSide.handleOutput, outputLoop, hpass₁]
    rfl
  refine ⟨_, replay_cons.mpr ⟨_, h₁, replay_cons.mpr ⟨_, h₂, replay_cons.mpr ⟨_, h₃, rfl⟩⟩⟩,
    rfl, ?_⟩
  intro hint
  have hlen := congrArg List.length hint
  simp only [OutSide.stream, unsent_cons, unsent_nil, b, mkMessage_bytes, length_frameOf,
    List.length_append, List.length_cons, List.length_nil] at hlen
  omega

/-- The outgoing stream is not always intact: a message of one byte, then one of 16380. -/
theorem outStream_not_intact :
    ∃ run, replay outStep OutRun.start
        [.write [0x41], .write (List.replicate 16380 0), .activate sendOneByte] = some run
      ∧ run.failed = false ∧ ¬ run.Intact :=
  lost_rest (List.replicate 16380 0) (Nat.le_of_eq List.length_replicate.symm)

end TcpFramework
