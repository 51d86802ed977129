/-
  TcpFramework.ParsePkg — the framing `0x02 | len | data | 0x03` of parsepkg.h.

  `len` is two bytes in network order and counts the whole frame.  The functions
  keep the source's two styles of answer: a three-way verdict with an out parameter
  for the receive loop, and lengths with `-1` squeezed through `size_t` and `int`
  for the payload accessors.  A buffer argument `pMsg, nSize` is the list of its
  `nSize` bytes.
-/
import Mathlib.Tactic.Common
import Mathlib.Data.List.Basic
import TcpFramework.MessageBlock

namespace TcpFramework

namespace ParsePkg

/-! ## §1. Constants and conversions. -/

/-- `PKG_HEAD`. -/
def pkgHead : UInt8 := 0x02

/-- `PKG_TAIL`. -/
def pkgTail : UInt8 := 0x03

/-- `MIN_PKG_SIZE`. -/
def minPkgSize : Nat := 0x04

/-- `MAX_PKG_SIZE`. -/
def maxPkgSize : Nat := 0xffff

/-- `min_msg_size()`. -/
def minMsgSize : Nat := minPkgSize

/-- `ntohs` of the two bytes at an address. -/
def ntohs (hi lo : UInt8) : Nat := hi.toNat * 256 + lo.toNat

/-- The two bytes `htons` stores: the value is cut to 16 bits first. -/
def htons (n : Nat) : List UInt8 := [UInt8.ofNat (n % 65536 / 256), UInt8.ofNat (n % 256)]

/-- The length field of a buffer: the bytes at offsets 1 and 2. -/
def lenField (pMsg : List UInt8) : Nat := ntohs (pMsg.getD 1 0) (pMsg.getD 2 0)

/-- `(size_t)-1`. -/
def sizeMax : Nat := UInt64.size - 1

/-- A `size_t` stored into an `int`. -/
def toInt (n : Nat) : Int := Int.bmod n UInt32.size

/-- An `int` returned as a `size_t`. -/
def toSize (i : Int) : Nat := (i % UInt64.size).toNat

/-! ## §2. The receive-side verdict. -/

/-- The return values `-1`, `0` and `1` of `isValidAndFinish`. -/
inductive Verdict where
  | invalid
  | unfinished
  | finished
  deriving Repr, DecidableEq

/-- `isValidAndFinish`; the second component is `nRealMsgLen` afterwards, which the
branches below four bytes leave as it was.  (`nMsgSize < 0` never holds of a
`size_t`.) -/
def isValidAndFinish (pMsg : List UInt8) (nRealMsgLen : Nat) : Verdict × Nat :=
  if pMsg.length = 0 then (.unfinished, nRealMsgLen)
  else if pMsg.length < minPkgSize then
    if pMsg[0]? ≠ some pkgHead then (.invalid, nRealMsgLen) else (.unfinished, nRealMsgLen)
  else if pMsg[0]? ≠ some pkgHead then (.invalid, nRealMsgLen)
  else if lenField pMsg > maxPkgSize ∨ lenField pMsg < minPkgSize then
    (.invalid, lenField pMsg)
  else if pMsg.length ≥ lenField pMsg then
    if pMsg[lenField pMsg - 1]? = some pkgTail then (.finished, lenField pMsg)
    else (.invalid, lenField pMsg)
  else (.unfinished, lenField pMsg)

/-! ## §3. The encoder. -/

/-- `mkMsgHead`: the head byte, then the frame length cut to 16 bits. -/
def mkMsgHead (strMsg : List UInt8) : List UInt8 :=
  pkgHead :: htons (strMsg.length + minPkgSize)

/-- `mkMsgTail`. -/
def mkMsgTail (_strMsg : List UInt8) : List UInt8 := [pkgTail]

/-! ## §4. The payload accessors. -/

/-- `getMsgData`: the bytes from offset 3 on, or `NULL`.  The source rejects only
when head and tail are both wrong. -/
def getMsgData (pMsg : List UInt8) : Option (List UInt8) :=
  if pMsg[0]? ≠ some pkgHead ∧ pMsg[pMsg.length - 1]? ≠ some pkgTail then none
  else some (pMsg.drop (minPkgSize - 1))

/-- `getMsgLen`, a `size_t`. -/
def getMsgLen (pMsg : List UInt8) : Nat :=
  if pMsg.length < minPkgSize then sizeMax
  else if pMsg[0]? ≠ some pkgHead ∧ pMsg[pMsg.length - 1]? ≠ some pkgTail then sizeMax
  else lenField pMsg

/-- `getDataLen`, a `size_t`. -/
def getDataLen (pMsg : List UInt8) : Nat :=
  let mlen := toInt (getMsgLen pMsg)
  if mlen = -1 then sizeMax else toSize (mlen - minPkgSize)

/-! ## §5. Arithmetic of the length field. -/

theorem lenField_le_maxPkgSize (pMsg : List UInt8) : lenField pMsg ≤ maxPkgSize := by
  have h₁ := (pMsg.getD 1 0).toNat_lt
  have h₂ := (pMsg.getD 2 0).toNat_lt
  unfold lenField ntohs maxPkgSize
  omega

/-- The length field is read from the first three bytes. -/
theorem lenField_append (p q : List UInt8) (h : minPkgSize ≤ p.length) :
    lenField (p ++ q) = lenField p := by
  unfold minPkgSize at h
  unfold lenField
  simp only [List.getD_eq_getElem?_getD]
  rw [List.getElem?_append_left (by omega), List.getElem?_append_left (by omega)]

/-- What the encoder stores is the length modulo 2^16. -/
theorem ntohs_htons (n : Nat) :
    ntohs ((htons n).getD 0 0) ((htons n).getD 1 0) = n % 65536 := by
  simp only [htons, ntohs, List.getD_cons_zero, List.getD_cons_succ, UInt8.toNat_ofNat']
  omega

theorem toInt_small (n : Nat) (h : n < UInt32.size / 2) : toInt n = n := by
  unfold UInt32.size at h
  unfold toInt UInt32.size
  rw [Int.bmod_eq_of_le] <;> omega

theorem toInt_toSize (i : Int) (hlo : 0 ≤ i) (hhi : i < UInt32.size / 2) :
    toInt (toSize i) = i := by
  unfold UInt32.size at hhi
  have h : toSize i = i.toNat := by
    unfold toSize UInt64.size
    rw [Int.emod_eq_of_lt hlo (by omega)]
  rw [h, toInt_small]
  · exact Int.toNat_of_nonneg hlo
  · unfold UInt32.size
    omega

end ParsePkg

end TcpFramework
