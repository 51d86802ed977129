/-
  TcpFramework.ReceiveLoop — the bounds of the do-while loop in handle_input.

  The condition of the loop is the literal true, and the buffer may be replaced inside it.
  What bounds it is the buffer: four bytes with fewer than four in it, or as many as the
  length field announces with fewer than that in it (`HeadOk`).  Each positive recv makes
  it fuller, and it never has more than 65535 bytes.

  Main results:
    * `Buffering.pass` — one iteration, whatever recv gives.
    * `handleInput_bounded` — every iteration of every activation offers recv some space,
      none gets to the error return for a full buffer, the buffer is replaced at most once
      for a frame, with its bytes, and 65535 positive recvs end the activation.
-/
import TcpFramework.Reassembly

namespace TcpFramework

open StepSystem StreamSplit ParsePkg

/-! ## §1. The iterations of an activation. -/

/-- An iteration: the buffer that recv is called with, and what recv gives. -/
structure Iteration where
  head : MessageBlock
  recv : Recv

/-- The iterations of the loop on the coming results. -/
def iterations (head : MessageBlock) (e : Errno) : List Recv → List Iteration
  | [] => []
  | r :: rs =>
      ⟨head, r⟩ :: match recvPass head (r.errno e) r with
        | .again head' => iterations head' (r.errno e) rs
        | .ret _ _ _ => []

/-- The buffer for the whole frame that an iteration puts in place of the filled one. -/
def replacement (filled : MessageBlock) : Option MessageBlock :=
  let v := isValidAndFinish filled.bytes 0
  if v.1 = .unfinished ∧ v.2 > filled.totalSize then
    some ((MessageBlock.new v.2).copy filled.bytes)
  else none

/-- recv gave bytes. -/
def Iteration.positive (it : Iteration) : Bool :=
  match it.recv with
  | .data _ => true
  | _ => false

/-- How often the buffer of the frame under way has been replaced after the iteration, when
it was `n` times before it. -/
def Iteration.swaps (n : Nat) (it : Iteration) : Nat :=
  match it.recv with
  | .data bs =>
      let filled := it.head.copy bs
      if (isValidAndFinish filled.bytes 0).1 = .finished then 0
      else if (replacement filled).isSome then n + 1
      else n
  | _ => n

/-- The same after each of the iterations. -/
def swapCounts (n : Nat) : List Iteration → List Nat
  | [] => []
  | it :: its => it.swaps n :: swapCounts (it.swaps n) its

/-- The buffer that an activation starts with. -/
def InputRun.buffer (run : InputRun) : MessageBlock :=
  run.mPhead.getD (MessageBlock.new minMsgSize)

/-- The iterations of a run of activations. -/
def runIterations (run : InputRun) : List (List Recv) → List Iteration
  | [] => []
  | rs :: acts =>
      iterations run.buffer run.errno rs ++
        ((inputStep run rs).map fun run' => runIterations run' acts).getD []

/-! ## §2. The iterations are those of the loop. -/

/-- An iteration that leaves the frame unfinished comes to the test for space, with the buffer
filled or with the one that replaces it. -/
theorem recvPass_unfinished {head : MessageBlock} (e : Errno) {bs : List UInt8}
    (hv : (isValidAndFinish (head.copy bs).bytes 0).1 = .unfinished) :
    recvPass head e (.data bs)
      = checkSpace ((replacement (head.copy bs)).getD (head.copy bs)) := by
  unfold replacement
  simp only [recvPass, hv, true_and]
  split <;> simp

theorem iterations_again {head head' : MessageBlock} {e : Errno} {r : Recv} {rs : List Recv}
    (h : recvPass head (r.errno e) r = .again head') :
    iterations head e (r :: rs) = ⟨head, r⟩ :: iterations head' (r.errno e) rs := by
  rw [iterations, h]

theorem iterations_ret {head head' : MessageBlock} {e : Errno} {r : Recv} {rs : List Recv}
    {code : Int} {put : Option MessageBlock}
    (h : recvPass head (r.errno e) r = .ret code head' put) :
    iterations head e (r :: rs) = [⟨head, r⟩] := by
  rw [iterations, h]

/-- An activation sees the results of its iterations, and no others. -/
theorem iterations_recv (rs : List Recv) :
    ∀ {head : MessageBlock} {e : Errno} {a : Activation}, inputLoop head e rs = some a →
      rs = (iterations head e rs).map Iteration.recv ++ a.rest := by
  induction rs with
  | nil =>
      intro head e a h
      obtain rfl : (⟨none, head, e, none, []⟩ : Activation) = a := by
        simpa [inputLoop] using h
      rfl
  | cons r rs ih =>
      intro head e a h
      obtain ⟨-, ⟨head', hp, hgo⟩ | ⟨code, head', put, hp, rfl⟩⟩ := inputLoop_cons h
      · rw [iterations_again hp, List.map_cons, List.cons_append, ← ih hgo]
      · rw [iterations_ret hp]
        rfl

theorem swapCounts_append (xs ys : List Iteration) : ∀ n : Nat,
    swapCounts n (xs ++ ys) = swapCounts n xs ++ swapCounts (xs.foldl Iteration.swaps n) ys := by
  induction xs with
  | nil => exact fun _ => rfl
  | cons x xs ih =>
      intro n
      show x.swaps n :: swapCounts (x.swaps n) (xs ++ ys) = _
      rw [ih]
      rfl

/-! ## §3. One iteration. -/

/-- What an iteration keeps to: recv is offered some space, the test for space succeeds, and
a new buffer takes the bytes over. -/
structure Iteration.Sound (it : Iteration) : Prop where
  offers : 0 < it.head.space
  roomy : ∀ bs, it.recv = .data bs →
    (isValidAndFinish (it.head.copy bs).bytes 0).1 = .unfinished →
    ∃ b, (∀ e, recvPass it.head e (.data bs) = checkSpace b) ∧ checkSpace b = .again b
      ∧ b.space ≠ 0
  keeps : ∀ bs, it.recv = .data bs → ∀ b, replacement (it.head.copy bs) = some b →
    b.bytes = it.head.bytes ++ bs

/-- **The invariant**: the buffer between two iterations, when it has been replaced `n`
times for the frame under way. -/
structure Buffering (head : MessageBlock) (n : Nat) : Prop where
  ok : HeadOk head
  swapped : n = 0 ∨ (n = 1 ∧ 4 ≤ head.bytes.length)

theorem Buffering.le_one {head : MessageBlock} {n : Nat} (h : Buffering head n) : n ≤ 1 := by
  rcases h.swapped with h | ⟨h, -⟩ <;> omega

theorem buffering_new : Buffering (MessageBlock.new minMsgSize) 0 := ⟨headOk_new, Or.inl rfl⟩

theorem HeadOk.space_pos {head : MessageBlock} (h : HeadOk head) : 0 < head.space := by
  have hlt := h.length_lt
  have hrd := h.rd
  unfold MessageBlock.space
  omega

/-- No buffer is larger than the largest frame. -/
theorem HeadOk.size_le {head : MessageBlock} (h : HeadOk head) : head.size ≤ maxPkgSize := by
  have hmax := lenField_le_maxPkgSize head.bytes
  unfold maxPkgSize at *
  rcases h.room with ⟨hs, -⟩ | ⟨-, hs⟩ <;> omega

/-- The buffer is replaced when its fourth byte is there, and not again. -/
theorem replacement_cases {head : MessageBlock} (h : HeadOk head) {bs : List UInt8}
    (hbs : bs.length ≤ head.space)
    (hv : (isValidAndFinish (head.copy bs).bytes 0).1 = .unfinished) :
    (replacement (head.copy bs) = none ∧ HeadOk (head.copy bs))
      ∨ ∃ b, replacement (head.copy bs) = some b ∧ HeadOk b ∧ b.bytes = head.bytes ++ bs
          ∧ head.bytes.length < 4 ∧ 4 ≤ b.bytes.length := by
  have hcopy : (head.copy bs).bytes = head.bytes ++ bs :=
    MessageBlock.copy_bytes_of_space head bs hbs
  rw [hcopy] at hv
  have hwait : frameJudge (head.bytes ++ bs) = .wait := by
    rw [frameJudge_eq_isValidAndFinish _ 0, hv]
  have hlen := isValidAndFinish_unfinished_len _ _ hv
  unfold replacement MessageBlock.totalSize
  simp only [hcopy, hv, true_and, MessageBlock.copy_size]
  by_cases h4 : (head.bytes ++ bs).length < 4
  · -- no length field yet
    rw [if_pos h4] at hlen
    rw [hlen, if_neg (by omega)]
    exact Or.inl ⟨rfl, h.copy hbs hwait (Or.inl h4)⟩
  · rw [if_neg h4] at hlen
    rw [hlen]
    by_cases hbig : lenField (head.bytes ++ bs) > head.size
    · obtain ⟨hnew, hbytes⟩ := headOk_grown hwait (by omega)
      rw [if_pos hbig]
      refine Or.inr ⟨_, rfl, hnew, hbytes, ?_, by rw [hbytes]; omega⟩
      -- with four bytes before, the buffer has the announced length
      rcases h.room with ⟨-, hl⟩ | ⟨hl, hs⟩
      · exact hl
      · rw [lenField_append _ _ hl] at hbig
        omega
    · rw [if_neg hbig]
      exact Or.inl ⟨rfl, h.copy hbs hwait (Or.inr hbig)⟩

/-- What is left of the invariant after an iteration: it is sound and its count is at most
one; when the loop goes on, which takes a positive recv, or returns 0, the invariant holds
again. -/
structure Kept (head : MessageBlock) (n : Nat) (e : Errno) (r : Recv) : Prop where
  sound : Iteration.Sound ⟨head, r⟩
  count : Iteration.swaps n ⟨head, r⟩ ≤ 1
  again : ∀ head', recvPass head e r = .again head' →
    Buffering head' (Iteration.swaps n ⟨head, r⟩)
      ∧ ∃ bs, r = .data bs ∧ head'.bytes = head.bytes ++ bs
  ret : ∀ code head' put, recvPass head e r = .ret code head' put → code ≠ -1 →
    Buffering head' (Iteration.swaps n ⟨head, r⟩)

/-- Without bytes the iteration returns, and the buffer is as it was. -/
theorem Buffering.kept_of_no_data {head : MessageBlock} {n : Nat} (h : Buffering head n)
    {e : Errno} {r : Recv} (hdata : ∀ bs, r ≠ .data bs)
    (hswaps : Iteration.swaps n ⟨head, r⟩ = n) : Kept head n e r where
  sound := ⟨h.ok.space_pos, fun bs hbs => absurd hbs (hdata bs),
    fun bs hbs => absurd hbs (hdata bs)⟩
  count := by
    rw [hswaps]
    exact h.le_one
  again := by
    intro head' hret
    rw [recvPass_no_data head e hdata] at hret
    split at hret <;> exact absurd hret (by simp)
  ret := by
    intro code head' put hret _
    have hsame : head = head' := by
      rw [recvPass_no_data head e hdata] at hret
      split at hret <;> exact (Pass.ret.inj hret).2.1
    rw [hswaps, ← hsame]
    exact h

/-- A positive recv ends the activation, without a test or a new buffer, or it comes to the
test for space and the loop goes on with a buffer that has room. -/
theorem Buffering.data_cases {head : MessageBlock} {n : Nat} (h : Buffering head n)
    {bs : List UInt8} (hbs : bs.length ≤ head.space) :
    ((isValidAndFinish (head.copy bs).bytes 0).1 ≠ .unfinished
        ∧ replacement (head.copy bs) = none
        ∧ (((∀ e, recvPass head e (.data bs)
              = .ret 0 (MessageBlock.new minMsgSize) (some (head.copy bs)))
            ∧ Iteration.swaps n ⟨head, .data bs⟩ = 0)
          ∨ ((∀ e, recvPass head e (.data bs) = .ret (-1) (head.copy bs) none)
            ∧ Iteration.swaps n ⟨head, .data bs⟩ = n)))
      ∨ ∃ b, (∀ e, recvPass head e (.data bs) = checkSpace b) ∧ checkSpace b = .again b
          ∧ b.bytes = head.bytes ++ bs
          ∧ (replacement (head.copy bs) = none ∨ replacement (head.copy bs) = some b)
          ∧ Buffering b (Iteration.swaps n ⟨head, .data bs⟩) := by
  cases hv : (isValidAndFinish (head.copy bs).bytes 0).1 with
  | finished =>
      refine Or.inl ⟨by simp, by simp [replacement, hv], Or.inl ⟨fun e => ?_, ?_⟩⟩
      · simp [recvPass, hv]
      · simp [Iteration.swaps, hv]
  | invalid =>
      have hreplaced : replacement (head.copy bs) = none := by simp [replacement, hv]
      refine Or.inl ⟨by simp, hreplaced, Or.inr ⟨fun e => ?_, ?_⟩⟩
      · simp [recvPass, hv]
      · simp [Iteration.swaps, hv, hreplaced]
  | unfinished =>
      refine Or.inr ?_
      have hpass : ∀ e, recvPass head e (.data bs)
          = checkSpace ((replacement (head.copy bs)).getD (head.copy bs)) :=
        fun e => recvPass_unfinished e hv
      rcases replacement_cases h.ok hbs hv with ⟨hnone, hok⟩ | ⟨b, hsome, hok, hbytes, hlt, h4⟩
      · -- the same buffer, with more in it
        have hswaps : Iteration.swaps n ⟨head, .data bs⟩ = n := by
          simp [Iteration.swaps, hv, hnone]
        have hbytes : (head.copy bs).bytes = head.bytes ++ bs :=
          MessageBlock.copy_bytes_of_space head bs hbs
        rw [hnone] at hpass
        refine ⟨_, hpass, checkSpace_again hok, hbytes, Or.inl hnone, ?_⟩
        rw [hswaps]
        refine ⟨hok, ?_⟩
        rcases h.swapped with h0 | ⟨h1, h4⟩
        · exact Or.inl h0
        · refine Or.inr ⟨h1, ?_⟩
          rw [Option.getD_none, hbytes, List.length_append]
          omega
      · -- a larger one: there were fewer than four bytes, so it is the first for this frame
        have hfirst : n = 0 := by
          rcases h.swapped with h0 | ⟨-, h4'⟩
          · exact h0
          · omega
        have hswaps : Iteration.swaps n ⟨head, .data bs⟩ = 1 := by
          simp [Iteration.swaps, hv, hsome, hfirst]
        rw [hsome] at hpass
        refine ⟨b, hpass, checkSpace_again hok, hbytes, Or.inr hsome, ?_⟩
        rw [hswaps]
        exact ⟨hok, Or.inr ⟨rfl, h4⟩⟩

theorem Buffering.kept_data {head : MessageBlock} {n : Nat} (h : Buffering head n) (e : Errno)
    {bs : List UInt8} (hbs : bs.length ≤ head.space) : Kept head n e (.data bs) := by
  rcases h.data_cases hbs with ⟨hv, hreplaced, hend⟩ | ⟨b, htest, hgo, hbytes, hreplaced, hb⟩
  · refine ⟨⟨h.ok.space_pos, ?_, ?_⟩, ?_, ?_, ?_⟩
    · intro bs' hbs' hv'
      obtain rfl := Recv.data.inj hbs'
      exact absurd hv' hv
    · intro bs' hbs' b hb
      obtain rfl := Recv.data.inj hbs'
      exact absurd (hreplaced.symm.trans hb) (by simp)
    · have hle := h.le_one
      rcases hend with ⟨-, hs⟩ | ⟨-, hs⟩ <;> omega
    · intro head' hret
      rcases hend with ⟨hp, -⟩ | ⟨hp, -⟩ <;> exact absurd ((hp e).symm.trans hret) (by simp)
    · -- a return of 0 starts the next frame
      intro code head' put hret hcode
      rcases hend with ⟨hp, hs⟩ | ⟨hp, -⟩
      · obtain ⟨-, rfl, -⟩ := Pass.ret.inj ((hp e).symm.trans hret)
        rw [hs]
        exact buffering_new
      · exact absurd (Pass.ret.inj ((hp e).symm.trans hret)).1.symm hcode
  · have hpass := (htest e).trans hgo
    refine ⟨⟨h.ok.space_pos, ?_, ?_⟩, hb.le_one, ?_, ?_⟩
    · intro bs' hbs' _
      obtain rfl := Recv.data.inj hbs'
      exact ⟨b, htest, hgo, Nat.pos_iff_ne_zero.mp hb.ok.space_pos⟩
    · intro bs' hbs' b' hb'
      obtain rfl := Recv.data.inj hbs'
      rcases hreplaced with hnone | hsome
      · exact absurd (hnone.symm.trans hb') (by simp)
      · obtain rfl := Option.some.inj (hsome.symm.trans hb')
        exact hbytes
    · intro head' hret
      obtain rfl := Pass.again.inj (hpass.symm.trans hret)
      exact ⟨hb, bs, rfl, hbytes⟩
    · intro code head' put hret _
      exact absurd (hpass.symm.trans hret) (by simp)

/-- **One iteration**, whatever recv gives. -/
theorem Buffering.pass {head : MessageBlock} {n : Nat} (h : Buffering head n) (e : Errno)
    {r : Recv} (hr : r.possible head.space) : Kept head n e r := by
  cases r with
  | timeout => exact h.kept_of_no_data (by simp) rfl
  | error e' => exact h.kept_of_no_data (by simp) rfl
  | eof => exact h.kept_of_no_data (by simp) rfl
  | data bs => exact h.kept_data e hr.2

/-! ## §4. The iterations of an activation. -/

/-- **The loop**: what one iteration keeps, all of them keep. -/
theorem iterations_kept (rs : List Recv) :
    ∀ {head : MessageBlock} {n : Nat} {e : Errno} {a : Activation}, Buffering head n →
      inputLoop head e rs = some a →
      (∀ it ∈ iterations head e rs, it.Sound)
        ∧ (∀ m ∈ swapCounts n (iterations head e rs), m ≤ 1)
        ∧ (a.code ≠ some (-1) →
          Buffering a.head ((iterations head e rs).foldl Iteration.swaps n)) := by
  induction rs with
  | nil =>
      intro head n e a h hloop
      obtain rfl : (⟨none, head, e, none, []⟩ : Activation) = a := by
        simpa [inputLoop] using hloop
      exact ⟨by simp [iterations], by simp [iterations, swapCounts], fun _ => h⟩
  | cons r rs ih =>
      intro head n e a h hloop
      obtain ⟨hr, ⟨head', hp, hgo⟩ | ⟨code, head', put, hp, rfl⟩⟩ := inputLoop_cons hloop
      · have hkept := h.pass (r.errno e) hr
        obtain ⟨hsound, hcounts, hend⟩ := ih (hkept.again head' hp).1 hgo
        rw [iterations_again hp]
        exact ⟨List.forall_mem_cons.mpr ⟨hkept.sound, hsound⟩,
          List.forall_mem_cons.mpr ⟨hkept.count, hcounts⟩, hend⟩
      · have hkept := h.pass (r.errno e) hr
        rw [iterations_ret hp]
        refine ⟨List.forall_mem_singleton.mpr hkept.sound,
          List.forall_mem_singleton.mpr hkept.count, ?_⟩
        intro hcode
        exact hkept.ret code head' put hp fun hc => hcode (by rw [hc])

/-- **The measure**: every positive recv makes the buffer fuller. -/
theorem iterations_positive (rs : List Recv) :
    ∀ {head : MessageBlock} {n : Nat} {e : Errno} {a : Activation}, Buffering head n →
      inputLoop head e rs = some a →
      (iterations head e rs).countP Iteration.positive + head.bytes.length ≤ maxPkgSize
        ∧ (a.code = none →
          (iterations head e rs).countP Iteration.positive + head.bytes.length
            < maxPkgSize) := by
  induction rs with
  | nil =>
      intro head n e a h _
      have hlt := h.ok.length_lt
      have hle := h.ok.size_le
      simp only [iterations, List.countP_nil]
      exact ⟨by omega, fun _ => by omega⟩
  | cons r rs ih =>
      intro head n e a h hloop
      obtain ⟨hr, ⟨head', hp, hgo⟩ | ⟨code, head', put, hp, rfl⟩⟩ := inputLoop_cons hloop
      · obtain ⟨hb, bs, rfl, hbytes⟩ := (h.pass (r.errno e) hr).again head' hp
        obtain ⟨hle, hlt⟩ := ih hb hgo
        have hpos : 0 < bs.length := hr.1
        rw [hbytes, List.length_append] at hle hlt
        rw [iterations_again hp, List.countP_cons_of_pos rfl]
        exact ⟨by omega, fun hc => Nat.lt_of_le_of_lt (by omega) (hlt hc)⟩
      · -- the last one may fill the buffer
        have hlt := h.ok.length_lt
        have hle := h.ok.size_le
        have hone : [(⟨head, r⟩ : Iteration)].countP Iteration.positive ≤ 1 :=
          List.countP_le_length
        rw [iterations_ret hp]
        exact ⟨by omega, fun hc => absurd hc (by simp)⟩

/-! ## §5. Runs. -/

/-- The count of replacements is right after every activation of a run, and the buffer of a
connection that has not returned -1 is as the invariant says. -/
theorem runIterations_kept (acts : List (List Recv)) :
    ∀ {run run' : InputRun} {n : Nat}, (run.status = .idle → Buffering run.buffer n) →
      replay inputStep run acts = some run' →
      (∀ m ∈ swapCounts n (runIterations run acts), m ≤ 1)
        ∧ (run'.status = .idle →
          Buffering run'.buffer ((runIterations run acts).foldl Iteration.swaps n)) := by
  induction acts with
  | nil =>
      intro run run' n h hrun
      obtain rfl : run = run' := by simpa using hrun
      exact ⟨by simp [runIterations, swapCounts], h⟩
  | cons rs acts ih =>
      intro run run' n h hrun
      obtain ⟨mid, hstep, hrest⟩ := replay_cons.mp hrun
      obtain ⟨hidle, a, ha, -, rfl⟩ := inputStep_cases hstep
      obtain ⟨-, hcounts, hend⟩ := iterations_kept rs (h hidle) ha
      have hmid : (run.after a).status = .idle → Buffering (run.after a).buffer
          ((iterations run.buffer run.errno rs).foldl Iteration.swaps n) := by
        intro hs
        refine hend fun hc => ?_
        simp [InputRun.after, hc] at hs
      obtain ⟨hcounts', hend'⟩ := ih hmid hrest
      have hits : runIterations run (rs :: acts)
          = iterations run.buffer run.errno rs ++ runIterations (run.after a) acts := by
        simp [runIterations, hstep]
      rw [hits, swapCounts_append, List.foldl_append]
      refine ⟨?_, hend'⟩
      intro m hm
      rcases List.mem_append.mp hm with hm | hm
      · exact hcounts m hm
      · exact hcounts' m hm

/-- **The receive loop is bounded.**  After any run of activations, in an activation on any
results of recv: every iteration, and the recv that the activation waits in, offers recv some
space; the test for space, to which every unfinished frame comes, never fails; a new buffer
has the bytes of the old one and those just read; no frame gets more than one; and there are
at most 65535 positive recvs, fewer when the activation goes on. -/
theorem handleInput_bounded (e : Errno) (acts : List (List Recv)) (run : InputRun)
    (hrun : replay inputStep (InputRun.start e) acts = some run) (hidle : run.status = .idle)
    (rs : List Recv) (a : Activation) (ha : handleInput run.mPhead run.errno rs = some a) :
    (∀ it ∈ iterations run.buffer run.errno rs,
        0 < it.head.space ∧ ∀ bs, it.recv = .data bs →
          ((isValidAndFinish (it.head.copy bs).bytes 0).1 = .unfinished →
            ∃ b, (∀ e', recvPass it.head e' (.data bs) = checkSpace b)
              ∧ checkSpace b = .again b ∧ b.space ≠ 0)
          ∧ ∀ b, replacement (it.head.copy bs) = some b → b.bytes = it.head.bytes ++ bs)
      ∧ (a.code = none → 0 < a.head.space)
      ∧ (∀ m ∈ swapCounts 0 (runIterations (InputRun.start e) acts
          ++ iterations run.buffer run.errno rs), m ≤ 1)
      ∧ (iterations run.buffer run.errno rs).countP Iteration.positive ≤ 65535
      ∧ (a.code = none →
          (iterations run.buffer run.errno rs).countP Iteration.positive < 65535) := by
  have hstart : Buffering (InputRun.start e).buffer 0 := buffering_new
  obtain ⟨hcounts, hbuffering⟩ := runIterations_kept acts (fun _ => hstart) hrun
  obtain ⟨hsound, hcounts', hend⟩ := iterations_kept rs (hbuffering hidle) ha
  obtain ⟨hle, hlt⟩ := iterations_positive rs (hbuffering hidle) ha
  unfold maxPkgSize at hle hlt
  refine ⟨?_, ?_, ?_, by omega, fun hc => Nat.lt_of_le_of_lt (by omega) (hlt hc)⟩
  · intro it hit
    exact ⟨(hsound it hit).offers,
      fun bs hbs => ⟨(hsound it hit).roomy bs hbs, (hsound it hit).keeps bs hbs⟩⟩
  · intro hc
    exact (hend (by rw [hc]; simp)).ok.space_pos
  · intro m hm
    rw [swapCounts_append] at hm
    rcases List.mem_append.mp hm with hm | hm
    · exact hcounts m hm
    · exact hcounts' m hm

/-- Two bytes of a frame and a timeout, and then the rest in two pieces: the length arrives
in the second activation, which replaces the buffer and has two positive recvs. -/
theorem handleInput_bounded_pieces :
    (iterations ((MessageBlock.new 4).copy [2, 0]) .etime
        [.data [5, 0x41], .data [3]]).countP Iteration.positive = 2
      ∧ ∀ m ∈ swapCounts 0 (runIterations (InputRun.start .ok) [[.data [2, 0], .timeout]]
          ++ iterations ((MessageBlock.new 4).copy [2, 0]) .etime
            [.data [5, 0x41], .data [3]]), m ≤ 1 := by
  have h := handleInput_bounded .ok [[.data [2, 0], .timeout]]
    ⟨some ((MessageBlock.new 4).copy [2, 0]), .etime, [], [0], .idle⟩ (by decide) rfl
    [.data [5, 0x41], .data [3]]
    ⟨some 0, MessageBlock.new 4, .etime, some ((MessageBlock.new 5).copy [2, 0, 5, 0x41, 3]), []⟩
    (by decide)
  exact ⟨by decide, h.2.2.1⟩

end TcpFramework
