/-
  TcpFramework.DATask — the worker task between handle_input and the processor.

  handle_input queues a block together with the file descriptor it came from;
  `svc` takes the message out and `process` decodes it for the registered
  NetProcessor.
-/
import TcpFramework.MessageBlock
import TcpFramework.ParsePkg

namespace TcpFramework

open ParsePkg

/-- A message in the task's queue: a head block holding the descriptor, with the
frame chained to it, or an MB_STOP block. -/
inductive TaskMessage where
  | request (handle : Int) (cont : MessageBlock)
  | stop
  deriving DecidableEq

/-- What `NetProcessor::onProcessor` is called with; `sMsg` is `NULL` or the bytes
from the pointer to the end of the block. -/
structure ProcessorCall where
  handle : Int
  sMsg : Option (List UInt8)
  length : Int
  deriving DecidableEq

/-- The payload a processor reads: `length` bytes from `sMsg`, when they are there. -/
def ProcessorCall.payload (c : ProcessorCall) : Option (List UInt8) :=
  match c.sMsg with
  | none => none
  | some d =>
      if 0 ≤ c.length ∧ c.length.toNat ≤ d.length then some (d.take c.length.toNat) else none

namespace DATask

/-- `put`: the message queued for a block received on the descriptor `handle`. -/
def put (handle : Int) (mblk : MessageBlock) : TaskMessage := .request handle mblk

/-- `process`, with `m_pProc` and `g_parser` set when `ready`: the call made when it
returns true, `none` when it returns false. -/
def process (ready : Bool) (handle : Int) (pmsg : Option MessageBlock) :
    Option ProcessorCall :=
  match pmsg with
  | none => none
  | some b =>
      if ready then
        if toInt (getDataLen b.bytes) ≠ -1 then
          some ⟨handle, getMsgData b.bytes, toInt (getDataLen b.bytes)⟩
        else none
      else none

/-- What the processor is called with for a message taken from the queue. -/
def deliver (ready : Bool) : TaskMessage → Option ProcessorCall
  | .request handle cont => process ready handle (some cont)
  | .stop => none

end DATask

end TcpFramework
