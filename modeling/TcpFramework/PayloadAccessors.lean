/-
  TcpFramework.PayloadAccessors — what getMsgData and getDataLen promise of a buffer.

  isValidAndFinish wants the head byte, the tail byte and a length field that agrees with
  the buffer.  The accessors ask less: they refuse a buffer only when head and tail are both
  wrong, and never compare the length field with the size.  A frame that isValidAndFinish
  finished is read right; the buffers on which the promise holds are counted out exactly.

  Main results:
    * `process_finished` — a finished frame reaches the processor with its payload.
    * `accessors_validated_iff` — the buffers on which the accessors keep the promise.
-/
import TcpFramework.DATask

namespace TcpFramework

namespace ParsePkg

/-! ## §1. The lengths as the accessors compute them. -/

/-- getMsgLen and getMsgData refuse a buffer for its marks. -/
def Refused (pMsg : List UInt8) : Prop :=
  pMsg[0]? ≠ some pkgHead ∧ pMsg[pMsg.length - 1]? ≠ some pkgTail

instance (pMsg : List UInt8) : Decidable (Refused pMsg) := by
  unfold Refused
  infer_instance

/-- An int goes through size_t and back unchanged. -/
theorem toInt_toSize_of_bounds (i : Int) (hlo : Int32.minValue.toInt ≤ i)
    (hhi : i ≤ Int32.maxValue.toInt) : toInt (toSize i) = i := by
  have hmin : Int32.minValue.toInt = -2147483648 := by decide
  have hmax : Int32.maxValue.toInt = 2147483647 := by decide
  have hcast : ((toSize i : Nat) : Int) = i % 18446744073709551616 :=
    Int.toNat_of_nonneg (Int.emod_nonneg i (by decide))
  have hmod : Int.bmod i 4294967296 = i := Int.bmod_eq_of_le (by omega) (by omega)
  show Int.bmod (toSize i) 4294967296 = i
  rw [hcast]
  calc Int.bmod (i % 18446744073709551616) 4294967296
      = Int.bmod i 4294967296 := by
        rw [← Int.emod_bmod, Int.emod_emod_of_dvd i (by decide), Int.emod_bmod]
    _ = i := hmod

theorem getMsgData_eq_none_iff {pMsg : List UInt8} : getMsgData pMsg = none ↔ Refused pMsg := by
  unfold getMsgData Refused
  split
  next h => exact ⟨fun _ => h, fun _ => rfl⟩
  next h => exact ⟨fun hc => absurd hc (by simp), fun hc => absurd hc h⟩

theorem getDataLen_of_refused {pMsg : List UInt8} (h : Refused pMsg) :
    toInt (getDataLen pMsg) = -1 := by
  have hmsg : getMsgLen pMsg = sizeMax := by
    unfold getMsgLen
    split
    · rfl
    · exact if_pos h
  have hint : toInt sizeMax = -1 := by decide
  simp only [getDataLen, hmsg, hint, if_true]

/-- Otherwise the length is what the length field says, whatever the buffer holds. -/
theorem getDataLen_of_not_refused {pMsg : List UInt8} (hlen : minPkgSize ≤ pMsg.length)
    (h : ¬ Refused pMsg) : toInt (getDataLen pMsg) = lenField pMsg - 4 := by
  have hmax := lenField_le_maxPkgSize pMsg
  unfold maxPkgSize at hmax
  have hmsg : getMsgLen pMsg = lenField pMsg := by
    unfold getMsgLen
    rw [if_neg (by omega)]
    exact if_neg h
  have hint : toInt (lenField pMsg) = lenField pMsg :=
    toInt_small _ (by unfold UInt32.size; omega)
  have hsub : (lenField pMsg : Int) - (minPkgSize : Nat) = lenField pMsg - 4 := rfl
  have hlo : Int32.minValue.toInt = -2147483648 := by decide
  have hhi : Int32.maxValue.toInt = 2147483647 := by decide
  simp only [getDataLen, hmsg, hint]
  rw [if_neg (by omega), hsub]
  exact toInt_toSize_of_bounds _ (by omega) (by omega)

/-! ## §2. A finished frame. -/

/-- What isValidAndFinish has checked when it answers 1. -/
theorem isValidAndFinish_finished {pMsg : List UInt8} {r n : Nat}
    (h : isValidAndFinish pMsg r = (.finished, n)) :
    pMsg[0]? = some pkgHead ∧ n = lenField pMsg ∧ minPkgSize ≤ n ∧ n ≤ pMsg.length
      ∧ pMsg[n - 1]? = some pkgTail := by
  unfold isValidAndFinish at h
  split_ifs at h with h0 hsmall hfirst hhead hfield hsize htail
  -- one branch answers 1
  all_goals simp only [Prod.mk.injEq, reduceCtorEq, false_and, true_and] at h
  subst h
  exact ⟨not_not.mp hhead, rfl, by omega, hsize, htail⟩

/-- The accessors take a finished frame, and the length is that of its payload. -/
theorem accessors_finished {pMsg : List UInt8} {r : Nat}
    (h : isValidAndFinish pMsg r = (.finished, pMsg.length)) :
    getMsgData pMsg = some (pMsg.drop 3) ∧ toInt (getDataLen pMsg) = pMsg.length - 4 := by
  obtain ⟨hhead, hfield, hmin, -, -⟩ := isValidAndFinish_finished h
  have hmarks : ¬ Refused pMsg := fun hr => hr.1 hhead
  refine ⟨if_neg hmarks, ?_⟩
  rw [getDataLen_of_not_refused hmin hmarks, hfield]

end ParsePkg

open ParsePkg

/-- **A finished frame reaches the processor with its payload**, the bytes between the
header and the tail. -/
theorem process_finished {b : MessageBlock} {r : Nat}
    (h : isValidAndFinish b.bytes r = (.finished, b.bytes.length)) (handle : Int) :
    (DATask.process true handle (some b)).bind ProcessorCall.payload
      = some ((b.bytes.drop 3).take (b.bytes.length - 4)) := by
  obtain ⟨hdata, hlen⟩ := accessors_finished h
  obtain ⟨-, -, hmin, -, -⟩ := isValidAndFinish_finished h
  unfold minPkgSize at hmin
  have hne : toInt (getDataLen b.bytes) ≠ -1 := by
    rw [hlen]
    omega
  have hnat : ((b.bytes.length : Int) - 4).toNat = b.bytes.length - 4 := by omega
  have hfit : b.bytes.length - 4 ≤ (b.bytes.drop 3).length := by
    rw [List.length_drop]
    omega
  simp only [DATask.process, if_true]
  rw [if_pos hne, hlen, hdata, Option.bind_some]
  simp only [ProcessorCall.payload, hnat]
  exact if_pos ⟨by omega, hfit⟩

/-! ## §3. The promise. -/

namespace ParsePkg

/-- A buffer that the accessors take, with the length `d` that process reads, has its marks
and the payload before its last byte; and a finished frame is taken. -/
structure Validated (pMsg : List UInt8) : Prop where
  sound : ∀ d, toInt (getDataLen pMsg) = d → d ≠ -1 → getMsgData pMsg ≠ none →
    pMsg[0]? = some pkgHead ∧ pMsg[pMsg.length - 1]? = some pkgTail ∧ 0 ≤ d
      ∧ 3 + d + 1 ≤ pMsg.length
  complete : ∀ nRealMsgLen, isValidAndFinish pMsg nRealMsgLen = (.finished, pMsg.length) →
    getMsgData pMsg ≠ none ∧ toInt (getDataLen pMsg) = pMsg.length - 4

/-- **Where the accessors keep the promise**: both marks are wrong, or the length field is
3, whose payload length is the error value, or the marks are right and the length field is
at least 4 and at most the size. -/
theorem accessors_validated_iff (pMsg : List UInt8) (hlen : minPkgSize ≤ pMsg.length) :
    Validated pMsg ↔
      (pMsg[0]? ≠ some pkgHead ∧ pMsg[pMsg.length - 1]? ≠ some pkgTail)
        ∨ lenField pMsg = 3
        ∨ (pMsg[0]? = some pkgHead ∧ pMsg[pMsg.length - 1]? = some pkgTail
            ∧ minPkgSize ≤ lenField pMsg ∧ lenField pMsg ≤ pMsg.length) := by
  have hcomplete : ∀ r, isValidAndFinish pMsg r = (.finished, pMsg.length) →
      getMsgData pMsg ≠ none ∧ toInt (getDataLen pMsg) = pMsg.length - 4 := by
    intro r h
    obtain ⟨hdata, hd⟩ := accessors_finished h
    exact ⟨by rw [hdata]; simp, hd⟩
  unfold minPkgSize at *
  by_cases hmarks : Refused pMsg
  · -- refused: nothing is returned
    have hd := getDataLen_of_refused hmarks
    refine ⟨fun _ => Or.inl hmarks, fun _ => ⟨?_, hcomplete⟩⟩
    intro d hd' hne
    exact absurd (hd'.symm.trans hd) hne
  · -- taken, with the length of the length field
    have hd := getDataLen_of_not_refused hlen hmarks
    have hdata : getMsgData pMsg ≠ none := fun hc => hmarks (getMsgData_eq_none_iff.mp hc)
    constructor
    · intro h
      by_cases hthree : lenField pMsg = 3
      · exact Or.inr (Or.inl hthree)
      · obtain ⟨hhead, htail, hlo, hhi⟩ := h.sound _ hd (by omega) hdata
        exact Or.inr (Or.inr ⟨hhead, htail, by omega, by omega⟩)
    · intro h
      refine ⟨?_, hcomplete⟩
      intro d hd' hne _
      rw [hd] at hd'
      rcases h with h | h | ⟨hhead, htail, hlo, hhi⟩
      · exact absurd h hmarks
      · exact absurd (by omega) hne
      · exact ⟨hhead, htail, by omega, by omega⟩

theorem accessors_validated_iff_frame :
    minPkgSize ≤ ([2, 0, 5, 7, 3] : List UInt8).length
      ∧ (Validated [2, 0, 5, 7, 3] ↔
        (([2, 0, 5, 7, 3] : List UInt8)[0]? ≠ some pkgHead
            ∧ ([2, 0, 5, 7, 3] : List UInt8)[5 - 1]? ≠ some pkgTail)
          ∨ lenField [2, 0, 5, 7, 3] = 3
          ∨ (([2, 0, 5, 7, 3] : List UInt8)[0]? = some pkgHead
              ∧ ([2, 0, 5, 7, 3] : List UInt8)[5 - 1]? = some pkgTail
              ∧ minPkgSize ≤ lenField [2, 0, 5, 7, 3] ∧ lenField [2, 0, 5, 7, 3] ≤ 5)) :=
  ⟨by decide, accessors_validated_iff [2, 0, 5, 7, 3] (by decide)⟩

/-- Four bytes with a head, no tail and the length field 10: the payload of six bytes would
end five bytes behind the buffer. -/
theorem accessors_overrun :
    ¬ ∀ pMsg : List UInt8, minPkgSize ≤ pMsg.length → Validated pMsg := by
  intro h
  have hd : toInt (getDataLen [2, 0, 10, 0]) = 6 := by decide
  have hsound := (h [2, 0, 10, 0] (by decide)).sound 6 hd (by decide) (by decide)
  exact absurd hsound.2.2.2 (by decide)

end ParsePkg

end TcpFramework
