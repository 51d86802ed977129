/-
  TcpFramework.PayloadLimit — payloads on both sides of the 16-bit length field.

  write stores the frame length cut to 16 bits and never looks at it.  Up to 65531 bytes
  the frame is what the peer reads (RoundTrip).  Beyond that no frame that handle_input
  can ever queue holds the payload, because a queued block is exactly one frame and a frame
  has at most 65535 bytes: whatever becomes of the bytes, it is not the payload.

  Main results:
    * `isFrame_iff` — the frames handle_input queues are those of payloads that fit.
    * `exists_fragmentation` — handle_input can take any stream to its end.
    * `payload_framed_iff` — exactly when a payload gets through, or is refused.
-/
import TcpFramework.RoundTrip

namespace TcpFramework

open StepSystem StreamSplit ParsePkg

/-! ## §1. What a queued block can hold. -/

/-- Two bytes are what `htons` makes of the number they stand for. -/
theorem htons_ntohs (hi lo : UInt8) : htons (ntohs hi lo) = [hi, lo] := by
  have hhi := hi.toNat_lt
  have hlo := lo.toNat_lt
  unfold htons ntohs
  rw [show (hi.toNat * 256 + lo.toNat) % 65536 / 256 = hi.toNat by omega,
    show (hi.toNat * 256 + lo.toNat) % 256 = lo.toNat by omega]
  simp

/-- **Frames are the frames of payloads that fit.** -/
theorem isFrame_iff (f : List UInt8) :
    IsFrame f ↔ ∃ p, p.length ≤ maxPayload ∧ f = frameOf p := by
  constructor
  · intro hf
    have hmax := lenField_le_maxPkgSize f
    rw [hf.len] at hmax
    unfold maxPkgSize at hmax
    match f, hf with
    | [], hf => exact absurd hf.min (by decide)
    | [_], hf => exact absurd hf.min (by simp)
    | [_, _], hf => exact absurd hf.min (by simp)
    | b :: hi :: lo :: rest, hf =>
        obtain rfl : b = 0x02 := by simpa using hf.head
        have hrest : rest ≠ [] := by
          intro hnil
          have hmin := hf.min
          rw [hnil] at hmin
          exact absurd hmin (by simp)
        have hlast : rest.getLast hrest = 0x03 := by
          have htail := hf.tail
          rw [List.getLast?_cons_cons, List.getLast?_cons_of_ne_nil (by simp),
            List.getLast?_cons_of_ne_nil hrest, List.getLast?_eq_some_getLast hrest] at htail
          simpa using htail
        have hsplit : rest = rest.dropLast ++ [0x03] := by
          rw [← hlast, List.dropLast_append_getLast hrest]
        have hlen : ntohs hi lo = rest.dropLast.length + 4 := by
          have h := hf.len
          have hpos := List.length_pos_iff.mpr hrest
          rw [List.length_dropLast]
          show ntohs hi lo = _
          rw [show ntohs hi lo = (0x02 :: hi :: lo :: rest).length from h]
          simp only [List.length_cons]
          omega
        refine ⟨rest.dropLast, ?_, ?_⟩
        · unfold maxPayload
          simp only [List.length_cons, List.length_dropLast] at hmax ⊢
          omega
        · show 0x02 :: hi :: lo :: rest
            = pkgHead :: htons (rest.dropLast.length + minPkgSize) ++ rest.dropLast ++ [pkgTail]
          rw [show minPkgSize = 4 from rfl, ← hlen, htons_ntohs]
          nth_rewrite 1 [hsplit]
          rfl
  · rintro ⟨p, hp, rfl⟩
    exact isFrame_of_judge (frameJudge_frameOf p hp)

/-- A payload that does not fit is in no block that handle_input queues. -/
theorem oversized_not_decoded {p : List UInt8} (hp : maxPayload < p.length) (handle : Int)
    {b : MessageBlock} (hb : IsFrame b.bytes) :
    (DATask.deliver true (DATask.put handle b)).bind ProcessorCall.payload ≠ some p := by
  obtain ⟨q, hq, hbytes⟩ := (isFrame_iff b.bytes).mp hb
  rw [deliver_frameOf q hq handle b hbytes]
  intro h
  obtain rfl : q = p := Option.some.inj h
  omega

/-! ## §2. Streams are taken to their end. -/

/-- A step is a call of handle_input that sees all of its results. -/
theorem inputStep_of_handleInput {run : InputRun} {rs : List Recv} {a : Activation}
    (hidle : run.status = .idle) (h : handleInput run.mPhead run.errno rs = some a)
    (hrest : a.rest = []) : inputStep run rs = some (run.after a) := by
  unfold inputStep
  rw [if_pos hidle, h]
  show (if a.rest = [] then some (run.after a) else none) = _
  rw [if_pos hrest]

/-- One byte more: an activation that takes it and ends. -/
theorem inputStep_byte {run : InputRun} (hidle : run.status = .idle)
    (hok : HeadOk (run.mPhead.getD (MessageBlock.new minMsgSize))) (b : UInt8) :
    ∃ rs run', inputStep run rs = some run' ∧ (∀ r ∈ rs, r.plain)
      ∧ (rs.map Recv.bytes).flatten = [b]
      ∧ (run'.rejected = true ∨ (run'.status = .idle
        ∧ HeadOk (run'.mPhead.getD (MessageBlock.new minMsgSize)))) := by
  let head := run.mPhead.getD (MessageBlock.new minMsgSize)
  have hspace : [b].length ≤ head.space := by
    have hlt : head.bytes.length < head.size := hok.length_lt
    have hrd : head.rd = 0 := hok.rd
    show 1 ≤ head.size - (head.rd + head.bytes.length)
    omega
  have hposs : (Recv.data [b]).possible head.space := ⟨Nat.one_pos, hspace⟩
  have hpass := recvPass_data hok [b] run.errno hspace
  cases hv : frameJudge (head.bytes ++ [b]) with
  | wait =>
      -- the loop goes on, and a timeout ends the activation
      simp only [head, hv] at hpass
      obtain ⟨head', hret, hok', -⟩ := hpass
      have hdone : handleInput run.mPhead run.errno [.data [b], .timeout]
          = inputLoop head' run.errno [.timeout] := inputLoop_again hposs hret
      refine ⟨[.data [b], .timeout], _, inputStep_of_handleInput hidle hdone rfl, ?_, rfl,
        Or.inr ⟨rfl, hok'⟩⟩
      intro r hr
      rcases List.mem_cons.mp hr with rfl | hr
      · trivial
      · obtain rfl := List.mem_singleton.mp hr
        trivial
  | bad =>
      simp only [head, hv] at hpass
      obtain ⟨head', hret⟩ := hpass
      have hdone := @inputLoop_ret head _ run.errno (.data [b]) [] _ _ hposs hret
      refine ⟨[.data [b]], _, inputStep_of_handleInput hidle hdone rfl, ?_, rfl, Or.inl ?_⟩
      · intro r hr
        obtain rfl := List.mem_singleton.mp hr
        trivial
      · simp [InputRun.rejected, InputRun.after]
  | frame n =>
      simp only [head, hv] at hpass
      obtain ⟨blk, hret, -⟩ := hpass
      have hdone := @inputLoop_ret head _ run.errno (.data [b]) [] _ _ hposs hret
      refine ⟨[.data [b]], _, inputStep_of_handleInput hidle hdone rfl, ?_, rfl,
        Or.inr ⟨rfl, headOk_new⟩⟩
      intro r hr
      obtain rfl := List.mem_singleton.mp hr
      trivial

/-- **handle_input can take any stream to its end**, or to the point where it rejects. -/
theorem exists_fragmentation (e : Errno) (s : List UInt8) :
    ∃ acts run, Fragmentation e s acts run := by
  have hruns : ∀ (s : List UInt8) (run : InputRun), run.status = .idle →
      HeadOk (run.mPhead.getD (MessageBlock.new minMsgSize)) →
      ∃ acts run', (∀ rs ∈ acts, ∀ r ∈ rs, r.plain) ∧ replay inputStep run acts = some run'
        ∧ ∃ rest, s = received acts ++ rest ∧ (run'.rejected = true ∨ rest = []) := by
    intro s
    induction s with
    | nil =>
        intro run _ _
        exact ⟨[], run, by simp, rfl, [], rfl, Or.inr rfl⟩
    | cons b s ih =>
        intro run hidle hok
        obtain ⟨rs, mid, hstep, hplain, hbytes, hend⟩ := inputStep_byte hidle hok b
        rcases hend with hrej | ⟨hidle', hok'⟩
        · refine ⟨[rs], mid, by simpa using hplain, by simp [replay, hstep], s, ?_, Or.inl hrej⟩
          simp [hbytes, received]
        · obtain ⟨acts, run', hplain', hrun, rest, hs, hend⟩ := ih mid hidle' hok'
          refine ⟨rs :: acts, run', ?_, replay_cons.mpr ⟨mid, hstep, hrun⟩, rest, ?_, hend⟩
          · intro xs hxs
            rcases List.mem_cons.mp hxs with rfl | hxs
            · exact hplain
            · exact hplain' xs hxs
          · rw [received_cons, hbytes, List.append_assoc, ← hs]
            rfl
  obtain ⟨acts, run, hplain, hrun, htaken⟩ := hruns s (InputRun.start e) rfl headOk_new
  exact ⟨acts, run, hplain, hrun, htaken⟩

/-! ## §3. write. -/

/-- The bytes, read by a peer's handle_input in any fragmentation, are one queued block that
decodes to the payload, and nothing else. -/
def ReadBack (bytes strMsg : List UInt8) : Prop :=
  ∀ (e : Errno) (handle : Int) (acts : List (List Recv)) (run : InputRun),
    Fragmentation e bytes acts run →
      (∃ b, run.puts = [b]
        ∧ (DATask.deliver true (DATask.put handle b)).bind ProcessorCall.payload = some strMsg)
      ∧ run.rejected = false

/-- write refuses the payload and queues nothing, or queues a block that the peer reads back. -/
def OutSide.NotMisframed (o : OutSide) (strMsg : List UInt8) : Prop :=
  ((o.write strMsg).1 ≠ 0 ∧ (o.write strMsg).2.queue = o.queue)
  ∨ ∃ b, (o.write strMsg).2.queue = o.queue ++ [b] ∧ ReadBack b.bytes strMsg

/-- A payload that fits is read back. -/
theorem readBack_of_fits {strMsg : List UInt8} (h : strMsg.length ≤ maxPayload) :
    ReadBack (frameOf strMsg) strMsg := by
  intro e handle acts run hfrag
  have hparse := hfrag.parse.1
  have hone : referenceParse (frameOf strMsg) = ([frameOf strMsg], false) := by
    have hsent := referenceParse_sentBytes [strMsg] (by simpa using h)
    simpa [sentBytes, mkMessage_bytes] using hsent
  rw [hone, Prod.mk.injEq] at hparse
  obtain ⟨hputs, hrej⟩ := hparse
  obtain ⟨b, hb, hbytes⟩ := List.map_eq_singleton_iff.mp hputs
  exact ⟨⟨b, hb, deliver_frameOf strMsg h handle b hbytes⟩, hrej⟩

/-- One that does not fit is not, in any fragmentation. -/
theorem not_readBack_of_oversized {strMsg : List UInt8} (h : maxPayload < strMsg.length)
    (bytes : List UInt8) : ¬ ReadBack bytes strMsg := by
  intro hread
  obtain ⟨acts, run, hfrag⟩ := exists_fragmentation .ok bytes
  obtain ⟨⟨b, hb, hpayload⟩, -⟩ := hread .ok 0 acts run hfrag
  have hframe : IsFrame b.bytes := hfrag.parse.2 b (by rw [hb]; exact List.mem_singleton_self b)
  exact oversized_not_decoded h 0 hframe hpayload

/-- **No payload is silently mis-framed, exactly when** it has at most 65531 bytes or the
queue of the connection is full, so that putq refuses it: for every state of the connection
and every payload. -/
theorem payload_framed_iff (o : OutSide) (strMsg : List UInt8) :
    o.NotMisframed strMsg
      ↔ strMsg.length ≤ maxPayload ∨ MessageQueue.bytes o.queue ≥ highWaterMark := by
  rcases o.write_cases strMsg with ⟨hfull, hw⟩ | ⟨hroom, hw⟩
  · constructor
    · exact fun _ => Or.inr hfull
    · intro _
      refine Or.inl ⟨?_, ?_⟩
      · rw [hw]
        show (-1 : Int) ≠ 0
        decide
      · rw [hw]
  · have hcode : (o.write strMsg).1 = 0 := by rw [hw]
    have hqueue : (o.write strMsg).2.queue = o.queue ++ [mkMessage strMsg] := by rw [hw]
    constructor
    · intro hok
      rcases hok with ⟨hne, -⟩ | ⟨b, -, hread⟩
      · exact absurd hcode hne
      · refine Or.inl ?_
        by_contra hbig
        exact not_readBack_of_oversized (by omega) b.bytes hread
    · intro h
      have hfits : strMsg.length ≤ maxPayload := h.resolve_right (by omega)
      refine Or.inr ⟨mkMessage strMsg, hqueue, ?_⟩
      rw [mkMessage_bytes]
      exact readBack_of_fits hfits

/-- A payload of 65532 bytes, written to a connection with an empty queue: its length field
is 0. -/
theorem payload_misframed :
    ¬ (⟨[], [], false⟩ : OutSide).NotMisframed (List.replicate 65532 0x41) := by
  have hbig : maxPayload < (List.replicate 65532 (0x41 : UInt8)).length := by
    rw [List.length_replicate]
    decide
  intro hok
  rcases (⟨[], [], false⟩ : OutSide).write_cases (List.replicate 65532 0x41) with
    ⟨hfull, -⟩ | ⟨-, hw⟩
  · exact absurd hfull (by decide)
  · have hcode : ((⟨[], [], false⟩ : OutSide).write (List.replicate 65532 0x41)).1 = 0 := by
      rw [hw]
    rcases hok with ⟨hne, -⟩ | ⟨b, -, hread⟩
    · exact absurd hcode hne
    · exact not_readBack_of_oversized hbig b.bytes hread

end TcpFramework
