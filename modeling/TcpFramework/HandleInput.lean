/-
  TcpFramework.HandleInput — DASvcHandler::handle_input and the runs of the reactor
  thread through it.

  A frame is read in two steps: a 4-byte buffer first, then, when the length field
  is known, a buffer of exactly that length.  `m_phead` survives between
  activations; `m_pmsg` is always the same block, so one field stands for both.
  The environment is the list of `recv` results an activation sees; errno is the
  thread's, left alone by a positive count and by end of stream.
-/
import TcpFramework.Lib.StepSystem
import TcpFramework.MessageBlock
import TcpFramework.ParsePkg

namespace TcpFramework

open StepSystem ParsePkg

/-! ## §1. What `recv` can give. -/

/-- The values of errno the code tells apart. -/
inductive Errno where
  | ok
  | etime
  | ewouldblock
  | eagain
  | other (code : Nat)
  deriving Repr, DecidableEq

/-- One result of `peer().recv`. -/
inductive Recv where
  /-- `rest > 0`: these bytes were stored at the write position. -/
  | data (bs : List UInt8)
  /-- `-1` with errno set to ETIME. -/
  | timeout
  /-- `-1` with errno set to something else. -/
  | error (e : Errno)
  /-- `0`: the peer has shut down; errno is not touched. -/
  | eof
  deriving Repr, DecidableEq

/-- The results `recv(buf, space)` can give: a positive count is at most `space`. -/
def Recv.possible (space : Nat) : Recv → Prop
  | .data bs => 0 < bs.length ∧ bs.length ≤ space
  | .error e => e ≠ .etime
  | _ => True

instance (space : Nat) (r : Recv) : Decidable (r.possible space) := by
  unfold Recv.possible; cases r <;> infer_instance

/-- errno after the call. -/
def Recv.errno (e : Errno) : Recv → Errno
  | .data _ => e
  | .timeout => .etime
  | .error e' => e'
  | .eof => e

/-- The bytes the call took from the stream. -/
def Recv.bytes : Recv → List UInt8
  | .data bs => bs
  | _ => []

/-- The call gave bytes or timed out. -/
def Recv.plain : Recv → Prop
  | .data _ => True
  | .timeout => True
  | _ => False

instance (r : Recv) : Decidable r.plain := by
  unfold Recv.plain; cases r <;> infer_instance

/-! ## §2. The receive loop. -/

/-- How one pass through the loop body ends: the next pass, or a return code with
the block handed to DATask::put on the way, if any. -/
inductive Pass where
  | again (head : MessageBlock)
  | ret (code : Int) (head : MessageBlock) (put : Option MessageBlock)
  deriving DecidableEq

/-- The test behind the `if`: a full buffer is a protocol error. -/
def checkSpace (head : MessageBlock) : Pass :=
  if head.space = 0 then .ret (-1) head none else .again head

/-- The body of the do-while loop after `recv` has returned `r`; `e` is errno then. -/
def recvPass (head : MessageBlock) (e : Errno) : Recv → Pass
  | .data bs =>
      let head := head.copy bs
      let v := isValidAndFinish head.bytes 0
      if v.1 = .unfinished ∧ v.2 > head.totalSize then
        -- the length is known now: one buffer for the whole frame
        checkSpace ((MessageBlock.new v.2).copy head.bytes)
      else
        match v.1 with
        | .finished => .ret 0 (MessageBlock.new minMsgSize) (some head)
        | .invalid => .ret (-1) head none
        | .unfinished => checkSpace head
  | _ => if e = .etime then .ret 0 head none else .ret (-1) head none

/-- Without bytes the pass returns, and the buffer is as it was. -/
theorem recvPass_no_data (head : MessageBlock) (e : Errno) {r : Recv}
    (h : ∀ bs, r ≠ .data bs) :
    recvPass head e r = if e = .etime then .ret 0 head none else .ret (-1) head none := by
  cases r with
  | data bs => exact absurd rfl (h bs)
  | timeout => rfl
  | error e' => rfl
  | eof => rfl

/-- An activation so far: its return code, or `none` while it waits in `recv`. -/
structure Activation where
  code : Option Int
  head : MessageBlock
  errno : Errno
  put : Option MessageBlock
  /-- The `recv` results the activation did not get to see. -/
  rest : List Recv
  deriving DecidableEq

/-- The do-while loop on the coming `recv` results. -/
def inputLoop (head : MessageBlock) (e : Errno) : List Recv → Option Activation
  | [] => some ⟨none, head, e, none, []⟩
  | r :: rs =>
      if r.possible head.space then
        match recvPass head (r.errno e) r with
        | .again head' => inputLoop head' (r.errno e) rs
        | .ret code head' put => some ⟨some code, head', r.errno e, put, rs⟩
      else none

theorem inputLoop_again {head head' : MessageBlock} {e : Errno} {r : Recv} {rs : List Recv}
    (hr : r.possible head.space) (h : recvPass head (r.errno e) r = .again head') :
    inputLoop head e (r :: rs) = inputLoop head' (r.errno e) rs := by
  rw [inputLoop, if_pos hr, h]

theorem inputLoop_ret {head head' : MessageBlock} {e : Errno} {r : Recv} {rs : List Recv}
    {code : Int} {put : Option MessageBlock} (hr : r.possible head.space)
    (h : recvPass head (r.errno e) r = .ret code head' put) :
    inputLoop head e (r :: rs) = some ⟨some code, head', r.errno e, put, rs⟩ := by
  rw [inputLoop, if_pos hr, h]

/-- What the loop did with its first result: it went on, or it returned. -/
theorem inputLoop_cons {head : MessageBlock} {e : Errno} {r : Recv} {rs : List Recv}
    {a : Activation} (h : inputLoop head e (r :: rs) = some a) :
    r.possible head.space
      ∧ ((∃ head', recvPass head (r.errno e) r = .again head'
            ∧ inputLoop head' (r.errno e) rs = some a)
        ∨ ∃ code head' put, recvPass head (r.errno e) r = .ret code head' put
            ∧ a = ⟨some code, head', r.errno e, put, rs⟩) := by
  unfold inputLoop at h
  split at h
  next hr =>
    refine ⟨hr, ?_⟩
    cases hp : recvPass head (r.errno e) r with
    | again head' =>
        rw [hp] at h
        exact Or.inl ⟨head', rfl, h⟩
    | ret code head' put =>
        rw [hp] at h
        exact Or.inr ⟨code, head', put, rfl, (Option.some.inj h).symm⟩
  next => exact absurd h (by simp)

/-- `handle_input`: a buffer of the smallest size when there is none, then the loop. -/
def handleInput (mPhead : Option MessageBlock) (e : Errno) (rs : List Recv) :
    Option Activation :=
  inputLoop (mPhead.getD (MessageBlock.new minMsgSize)) e rs

/-! ## §3. Runs of activations. -/

/-- Where the reactor thread stands with the connection. -/
inductive InputStatus where
  | idle
  | waiting
  | closed
  deriving Repr, DecidableEq

/-- The input side of one connection: `m_phead`, the thread's errno, the blocks
handed to DATask::put and the codes returned so far. -/
structure InputRun where
  mPhead : Option MessageBlock
  errno : Errno
  puts : List MessageBlock
  codes : List Int
  status : InputStatus
  deriving DecidableEq

/-- A connection that open has just set up. -/
def InputRun.start (e : Errno) : InputRun := ⟨none, e, [], [], .idle⟩

/-- The connection after the activation `a`.  A `-1` is the last thing that happens
to it, and while `recv` has not returned nothing else does. -/
def InputRun.after (run : InputRun) (a : Activation) : InputRun where
  mPhead := some a.head
  errno := a.errno
  puts := run.puts ++ a.put.toList
  codes := run.codes ++ a.code.toList
  status :=
    if a.code = none then .waiting
    else if a.code = some (-1) then .closed
    else .idle

/-- One activation that sees exactly the `recv` results `rs`. -/
def inputStep (run : InputRun) (rs : List Recv) : Option InputRun :=
  if run.status = .idle then
    match handleInput run.mPhead run.errno rs with
    | some a => if a.rest = [] then some (run.after a) else none
    | none => none
  else none

/-- A step is an activation of an idle connection that saw all of its results. -/
theorem inputStep_cases {run run' : InputRun} {rs : List Recv}
    (h : inputStep run rs = some run') :
    run.status = .idle
      ∧ ∃ a, handleInput run.mPhead run.errno rs = some a ∧ a.rest = [] ∧ run' = run.after a := by
  unfold inputStep at h
  split at h
  next hidle =>
    refine ⟨hidle, ?_⟩
    cases ha : handleInput run.mPhead run.errno rs with
    | none =>
        rw [ha] at h
        exact absurd h (by simp)
    | some a =>
        rw [ha] at h
        simp only [Option.ite_none_right_eq_some, Option.some.injEq] at h
        exact ⟨a, rfl, h.1, h.2.symm⟩
  next => exact absurd h (by simp)

/-- The connection was rejected: some activation returned -1. -/
def InputRun.rejected (run : InputRun) : Bool := run.codes.contains (-1)

/-- The bytes taken from the stream by a list of activations. -/
def received (acts : List (List Recv)) : List UInt8 := (acts.flatten.map Recv.bytes).flatten

/-! ## §4. No byte is lost. -/

/-- The bytes a pass leaves: in the block handed on and in the buffer. -/
def Pass.bytes : Pass → List UInt8
  | .again head => head.bytes
  | .ret _ head put => (put.toList.map MessageBlock.bytes).flatten ++ head.bytes

theorem checkSpace_bytes (head : MessageBlock) : (checkSpace head).bytes = head.bytes := by
  unfold checkSpace
  split <;> rfl

theorem recvPass_bytes_no_data (head : MessageBlock) (e : Errno) {r : Recv}
    (h : ∀ bs, r ≠ .data bs) (hbytes : r.bytes = []) :
    (recvPass head e r).bytes = head.bytes ++ r.bytes := by
  rw [recvPass_no_data head e h, hbytes, List.append_nil]
  split <;> rfl

/-- One pass keeps the bytes of the buffer and adds those `recv` gave. -/
theorem recvPass_bytes (head : MessageBlock) (e : Errno) (r : Recv)
    (hr : r.possible head.space) : (recvPass head e r).bytes = head.bytes ++ r.bytes := by
  cases r with
  | data bs =>
      have hcopy : (head.copy bs).bytes = head.bytes ++ bs :=
        MessageBlock.copy_bytes_of_space head bs hr.2
      have hfits := (head.copy bs).fits
      simp only [recvPass, Recv.bytes]
      generalize isValidAndFinish (head.copy bs).bytes 0 = v
      by_cases hgrow : v.1 = .unfinished ∧ v.2 > (head.copy bs).totalSize
      · -- the new buffer is larger than the old one, so everything is copied
        rw [if_pos hgrow, checkSpace_bytes, MessageBlock.copy_bytes, hcopy]
        · rfl
        · have hsize : v.2 > (head.copy bs).size := hgrow.2
          show 0 + 0 + (head.copy bs).bytes.length ≤ v.2
          omega
      · rw [if_neg hgrow]
        cases v.1 with
        | finished => simp [Pass.bytes, MessageBlock.new, hcopy]
        | invalid => simp [Pass.bytes, hcopy]
        | unfinished => rw [← hcopy]; exact checkSpace_bytes (head.copy bs)
  | timeout => exact recvPass_bytes_no_data head e (by simp) rfl
  | error e' => exact recvPass_bytes_no_data head e (by simp) rfl
  | eof => exact recvPass_bytes_no_data head e (by simp) rfl

theorem inputLoop_bytes (rs : List Recv) :
    ∀ (head : MessageBlock) (e : Errno) (a : Activation),
      inputLoop head e rs = some a → a.rest = [] →
      (a.put.toList.map MessageBlock.bytes).flatten ++ a.head.bytes
        = head.bytes ++ (rs.map Recv.bytes).flatten := by
  induction rs with
  | nil =>
      intro head e a hloop _
      obtain rfl : (⟨none, head, e, none, []⟩ : Activation) = a := by
        simpa [inputLoop] using hloop
      simp
  | cons r rs ih =>
      intro head e a hloop hrest
      obtain ⟨hposs, hpass⟩ := inputLoop_cons hloop
      have hbytes := recvPass_bytes head (r.errno e) r hposs
      rcases hpass with ⟨head', hp, hgo⟩ | ⟨code, head', put, hp, rfl⟩
      · rw [hp] at hbytes
        have hhead : head'.bytes = head.bytes ++ r.bytes := hbytes
        rw [ih head' _ a hgo hrest, hhead]
        simp
      · rw [hp] at hbytes
        -- the activation has seen all the results, so this one was the last
        obtain rfl : rs = [] := hrest
        have hhead : (put.toList.map MessageBlock.bytes).flatten ++ head'.bytes
            = head.bytes ++ r.bytes := hbytes
        simpa using hhead

/-- The bytes in the queued frames. -/
def InputRun.framed (run : InputRun) : List UInt8 := (run.puts.map MessageBlock.bytes).flatten

/-- The bytes in the buffer `m_phead` points to. -/
def InputRun.buffered (run : InputRun) : List UInt8 :=
  (run.mPhead.map MessageBlock.bytes).getD []

/-- The bytes that the queued frames and the buffer hold. -/
def InputRun.held (run : InputRun) : List UInt8 := run.framed ++ run.buffered

/-- **An activation loses no byte**: what it received is in the frames it queued or in the
buffer, whatever its recv calls gave. -/
theorem inputStep_held {run run' : InputRun} {rs : List Recv}
    (hstep : inputStep run rs = some run') :
    run'.held = run.held ++ (rs.map Recv.bytes).flatten := by
  obtain ⟨-, a, ha, hrest, rfl⟩ := inputStep_cases hstep
  have hloop := inputLoop_bytes rs _ run.errno a ha hrest
  have hbuf : (run.mPhead.getD (MessageBlock.new minMsgSize)).bytes = run.buffered := by
    unfold InputRun.buffered
    cases run.mPhead <;> rfl
  have hafter : (run.after a).framed
      = run.framed ++ (a.put.toList.map MessageBlock.bytes).flatten := by
    simp only [InputRun.framed, InputRun.after, List.map_append, List.flatten_append]
  rw [hbuf] at hloop
  show (run.after a).framed ++ a.head.bytes = run.held ++ _
  rw [hafter, List.append_assoc, hloop, InputRun.held, List.append_assoc]

end TcpFramework
