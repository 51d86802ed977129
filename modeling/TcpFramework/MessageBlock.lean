/-
  TcpFramework.MessageBlock — the part of `ACE_Message_Block` the framework uses.

  A block is a buffer of `size` bytes with a read and a write position.  The bytes
  between the two positions are what `length()` counts and what `rd_ptr()` points
  at; `space()` is what is left behind the write position.  That the positions stay
  inside the buffer is a field, so no operation can break it.

  Reference counts and `release()` are left out: every block has one owner.
-/
import Mathlib.Tactic.Common
import Mathlib.Data.List.Basic

namespace TcpFramework

/-- `ACE_Message_Block`: `rd` bytes already read, then `bytes` up to `wr_ptr()`,
all within `size`. -/
structure MessageBlock where
  size : Nat
  rd : Nat
  bytes : List UInt8
  fits : rd + bytes.length ≤ size
  deriving DecidableEq

namespace MessageBlock

/-! ## §1. Construction and the two positions. -/

/-- `new ACE_Message_Block(n)`. -/
def new (n : Nat) : MessageBlock := ⟨n, 0, [], Nat.zero_le _⟩

/-- `length()`. -/
def length (b : MessageBlock) : Nat := b.bytes.length

/-- `space()`. -/
def space (b : MessageBlock) : Nat := b.size - (b.rd + b.bytes.length)

/-- `total_size()` of a block with nothing chained to it. -/
def totalSize (b : MessageBlock) : Nat := b.size

/-- `copy(buf, n)`: append at the write position, or do nothing when the bytes do
not fit (the callers ignore the return value). -/
def copy (b : MessageBlock) (buf : List UInt8) : MessageBlock :=
  if h : b.rd + b.bytes.length + buf.length ≤ b.size then
    ⟨b.size, b.rd, b.bytes ++ buf, by rw [List.length_append]; omega⟩
  else b

/-- `rd_ptr(n)`: move the read position over `n` bytes. -/
def rdPtr (b : MessageBlock) (n : Nat) : MessageBlock :=
  if h : n ≤ b.bytes.length then
    ⟨b.size, b.rd + n, b.bytes.drop n, by have := b.fits; rw [List.length_drop]; omega⟩
  else b

/-! ## §2. What the operations leave. -/

@[simp] theorem new_bytes (n : Nat) : (new n).bytes = [] := rfl
@[simp] theorem new_size (n : Nat) : (new n).size = n := rfl
@[simp] theorem new_rd (n : Nat) : (new n).rd = 0 := rfl

@[simp] theorem copy_size (b : MessageBlock) (buf : List UInt8) :
    (b.copy buf).size = b.size := by
  unfold copy; split <;> rfl

@[simp] theorem copy_rd (b : MessageBlock) (buf : List UInt8) :
    (b.copy buf).rd = b.rd := by
  unfold copy; split <;> rfl

theorem copy_bytes (b : MessageBlock) (buf : List UInt8)
    (h : b.rd + b.bytes.length + buf.length ≤ b.size) :
    (b.copy buf).bytes = b.bytes ++ buf := by
  unfold copy
  rw [dif_pos h]

/-- What fits into the space left ends up behind the bytes already there. -/
theorem copy_bytes_of_space (b : MessageBlock) (buf : List UInt8)
    (h : buf.length ≤ b.space) : (b.copy buf).bytes = b.bytes ++ buf := by
  have := b.fits
  unfold space at h
  exact copy_bytes b buf (by omega)

@[simp] theorem rdPtr_size (b : MessageBlock) (n : Nat) : (b.rdPtr n).size = b.size := by
  unfold rdPtr; split <;> rfl

theorem rdPtr_bytes (b : MessageBlock) (n : Nat) (h : n ≤ b.bytes.length) :
    (b.rdPtr n).bytes = b.bytes.drop n := by
  unfold rdPtr
  rw [dif_pos h]

end MessageBlock

end TcpFramework
