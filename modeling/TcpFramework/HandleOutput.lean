/-
  TcpFramework.HandleOutput — the output side of a connection: write and
  handle_output.

  Messages wait in the handler's ACE_Message_Queue.  An activation of handle_output
  takes the front block out, sends some of it, and puts the rest back with ungetq,
  at most 101 times.  putq and ungetq refuse when the bytes queued are at or above
  the high-water mark; handle_output does not look at what ungetq returns.

  The environment is the outcome of each send of an activation.
-/
import TcpFramework.Lib.StepSystem
import TcpFramework.MessageBlock
import TcpFramework.ParsePkg
import TcpFramework.HandleInput

namespace TcpFramework

open StepSystem ParsePkg

/-! ## §1. The message queue (ACE_NULL_SYNCH). -/

/-- The queued blocks, front first. -/
abbrev MessageQueue := List MessageBlock

/-- The default high-water mark. -/
def highWaterMark : Nat := 16384

/-- The bytes queued: the capacities of the blocks. -/
def MessageQueue.bytes (q : MessageQueue) : Nat := q.foldr (fun b n => b.totalSize + n) 0

/-- `putq`: append, or `none` for -1 when the queue is full. -/
def MessageQueue.putq (q : MessageQueue) (b : MessageBlock) : Option MessageQueue :=
  if MessageQueue.bytes q ≥ highWaterMark then none else some (q ++ [b])

/-- `ungetq`: prepend, or `none` for -1 when the queue is full. -/
def MessageQueue.ungetq (q : MessageQueue) (b : MessageBlock) : Option MessageQueue :=
  if MessageQueue.bytes q ≥ highWaterMark then none else some (b :: q)

/-- The unsent bytes of the queued blocks, front to back. -/
def MessageQueue.unsent (q : MessageQueue) : List UInt8 := (q.map MessageBlock.bytes).flatten

/-! ## §2. write. -/

/-- The frame of a message: head, payload, tail. -/
def frameOf (strMsg : List UInt8) : List UInt8 :=
  mkMsgHead strMsg ++ strMsg ++ mkMsgTail strMsg

/-- The block `write(std::string&)` builds. -/
def mkMessage (strMsg : List UInt8) : MessageBlock :=
  (((MessageBlock.new (strMsg.length + minMsgSize)).copy (mkMsgHead strMsg)).copy strMsg).copy
    (mkMsgTail strMsg)

/-- The output side of a connection: its queue, the bytes the socket has accepted,
and whether WRITE_MASK is registered. -/
structure OutSide where
  queue : MessageQueue
  accepted : List UInt8
  writeMask : Bool
  deriving DecidableEq

/-- `write(std::string&)` and the `write(ACE_Message_Block*)` it ends in. -/
def OutSide.write (o : OutSide) (strMsg : List UInt8) : Int × OutSide :=
  match o.queue.putq (mkMessage strMsg) with
  | none => (-1, o)
  | some q => (0, { o with queue := q, writeMask := true })

/-! ## §3. handle_output. -/

/-- MAX_SEND_NUM. -/
def maxSendNum : Nat := 100

/-- What `send` gives for a block of `len` bytes: a positive count, or -1 with errno. -/
inductive Send (len : Nat) where
  | sent (n : Nat) (pos : 0 < n) (le : n ≤ len)
  | failed (e : Errno)
  deriving DecidableEq

/-- The errno values after which handle_output waits for its next activation. -/
def Errno.retry (e : Errno) : Bool := e = .etime ∨ e = .ewouldblock ∨ e = .eagain

/-- The outcomes of the sends of one activation: the `i`-th, given the length offered. -/
abbrev Sends := (i len : Nat) → Send len

/-- Sends that take whatever they are offered. -/
def sendAll : Sends := fun _ len =>
  if h : 0 < len then .sent len h (Nat.le_refl len) else .failed .ewouldblock

/-- What is queued after `ungetq(mb)`, whose return value nobody reads. -/
def putBack (q : MessageQueue) (mb : MessageBlock) : MessageQueue :=
  (q.ungetq mb).getD q

/-- One pass in which `send` took `n` bytes of the front block `mb`. -/
def OutSide.afterSend (o : OutSide) (mb : MessageBlock) (q : MessageQueue) (n : Nat) :
    OutSide :=
  { o with
    accepted := o.accepted ++ mb.bytes.take n
    queue := if (mb.rdPtr n).length > 0 then putBack q (mb.rdPtr n) else q }

/-- How one pass through the loop body ends: the loop is left (with -1 when the flag is
false), or `++iCount` and the next pass. -/
inductive OutPass where
  | stop (ok : Bool) (o : OutSide)
  | next (o : OutSide)

/-- The body of the while loop: getq, send, and ungetq of what is left. -/
def outputPass (send : (len : Nat) → Send len) (o : OutSide) : OutPass :=
  match o.queue with
  | [] => .stop true o
  | mb :: q =>
      match send mb.length with
      | .failed e =>
          if e.retry then .stop true { o with queue := putBack q mb }
          else .stop false { o with queue := q }
      | .sent n _ _ => .next (o.afterSend mb q n)

/-- The while loop, with `n` passes to go before `iCount > MAX_SEND_NUM`; the flag is
false when it returns -1. -/
def outputLoop : Nat → Sends → OutSide → Bool × OutSide
  | 0, _, o => (true, o)
  | n + 1, sends, o =>
      match outputPass (sends 0) o with
      | .stop ok o' => (ok, o')
      | .next o' => outputLoop n (fun i => sends (i + 1)) o'

/-- The loop does not touch the reactor's mask. -/
theorem outputLoop_writeMask :
    ∀ (n : Nat) (sends : Sends) (o : OutSide),
      (outputLoop n sends o).2.writeMask = o.writeMask := by
  intro n
  induction n with
  | zero => exact fun _ _ => rfl
  | succ n ih =>
      intro sends o
      cases hq : o.queue with
      | nil => simp only [outputLoop, outputPass, hq]
      | cons mb q =>
          cases hs : sends 0 mb.length with
          | failed e =>
              simp only [outputLoop, outputPass, hq, hs]
              by_cases he : e.retry = true <;> simp [he]
          | sent k pos le =>
              simp only [outputLoop, outputPass, hq, hs]
              rw [ih]
              rfl

/-- `handle_output`: the loop, then WRITE_MASK follows the queue. -/
def OutSide.handleOutput (o : OutSide) (sends : Sends) : Int × OutSide :=
  match outputLoop (maxSendNum + 1) sends o with
  | (false, o') => (-1, o')
  | (true, o') => (0, { o' with writeMask := !o'.queue.isEmpty })

/-! ## §4. Runs of one connection. -/

/-- What happens to the output side. -/
inductive OutEvent where
  | write (strMsg : List UInt8)
  | activate (sends : Sends)

/-- A connection's output side, the frames of the messages whose write returned 0, and
whether an activation has returned -1. -/
structure OutRun where
  out : OutSide
  written : List UInt8
  failed : Bool
  deriving DecidableEq

/-- A connection that open has just set up. -/
def OutRun.start : OutRun := ⟨⟨[], [], false⟩, [], false⟩

/-- One call of write or one activation. -/
def outStep (run : OutRun) : OutEvent → Option OutRun
  | .write strMsg =>
      if run.failed then none
      else
        let r := run.out.write strMsg
        some { run with
          out := r.2
          written := if r.1 = 0 then run.written ++ frameOf strMsg else run.written }
  | .activate sends =>
      if run.failed then none
      else
        let r := run.out.handleOutput sends
        some { run with out := r.2, failed := r.1 = -1 }

end TcpFramework
