/-
  TcpFramework.RoundTrip — payloads survive the trip from write to the processor.

  A peer writes payloads of at most 65531 bytes; the concatenation of their frames
  reaches handle_input in arbitrary pieces.  By `Fragmentation.parse` the blocks
  queued are the frames, and `process` reads the payload back from each.
-/
import TcpFramework.Reassembly
import TcpFramework.OutStream
import TcpFramework.DATask

namespace TcpFramework

open StepSystem StreamSplit ParsePkg

/-- The largest payload whose frame length fits the length field. -/
def maxPayload : Nat := 65531

/-! ## §1. The frame of a payload. -/

theorem frameOf_eq (p : List UInt8) :
    frameOf p = pkgHead :: UInt8.ofNat ((p.length + 4) % 65536 / 256)
      :: UInt8.ofNat ((p.length + 4) % 256) :: (p ++ [pkgTail]) := rfl

/-- The length field of a frame, cut to 16 bits. -/
theorem lenField_frameOf (p : List UInt8) :
    lenField (frameOf p) = (p.length + 4) % 65536 :=
  ntohs_htons (p.length + 4)

theorem frameOf_last (p : List UInt8) : (frameOf p)[p.length + 3]? = some pkgTail := by
  rw [frameOf_eq]
  simp

/-- The reference judgement of a frame whose length fits. -/
theorem frameJudge_frameOf (p : List UInt8) (hp : p.length ≤ maxPayload) :
    frameJudge (frameOf p) = .frame (frameOf p).length := by
  have hlen : lenField (frameOf p) = p.length + 4 := by
    rw [lenField_frameOf]
    unfold maxPayload at hp
    omega
  have hhead : (frameOf p)[0]? = some 0x02 := rfl
  have hlast : (frameOf p)[p.length + 4 - 1]? = some 0x03 := frameOf_last p
  rw [frameJudge_head hhead, hlen, length_frameOf, if_neg (by omega), if_neg (by omega),
    if_neg (by omega), hlast, if_neg (by simp)]

/-! ## §2. The payload accessors on a frame. -/

theorem getDataLen_frameOf (p : List UInt8) (hp : p.length ≤ maxPayload) :
    toInt (getDataLen (frameOf p)) = p.length := by
  unfold maxPayload at hp
  have hmsg : getMsgLen (frameOf p) = p.length + 4 := by
    have hhead : (frameOf p)[0]? = some pkgHead := rfl
    unfold getMsgLen minPkgSize
    rw [length_frameOf, if_neg (by omega), hhead, if_neg (by simp), lenField_frameOf]
    omega
  have hint : toInt (p.length + 4) = ((p.length + 4 : Nat) : Int) :=
    toInt_small _ (by unfold UInt32.size; omega)
  have hsub : ((p.length + 4 : Nat) : Int) - (minPkgSize : Nat) = p.length := by
    unfold minPkgSize
    omega
  simp only [getDataLen, hmsg, hint]
  rw [if_neg (by omega), hsub]
  exact toInt_toSize _ (by omega) (by unfold UInt32.size; omega)

theorem getMsgData_frameOf (p : List UInt8) :
    getMsgData (frameOf p) = some (p ++ [pkgTail]) := by
  have hhead : (frameOf p)[0]? = some pkgHead := rfl
  unfold getMsgData
  rw [hhead, if_neg (by simp)]
  rfl

/-- The call of the processor for a payload. -/
def callOf (handle : Int) (p : List UInt8) : ProcessorCall :=
  ⟨handle, some (p ++ [pkgTail]), p.length⟩

theorem payload_callOf (handle : Int) (p : List UInt8) :
    (callOf handle p).payload = some p := by
  have hle : (p.length : Int).toNat ≤ (p ++ [pkgTail]).length := by simp
  unfold callOf ProcessorCall.payload
  dsimp only
  rw [if_pos ⟨Int.natCast_nonneg _, hle⟩, Int.toNat_natCast, List.take_left]

/-- A frame that is taken out makes the call of its payload. -/
theorem process_frameOf (p : List UInt8) (hp : p.length ≤ maxPayload) (handle : Int)
    (b : MessageBlock) (hb : b.bytes = frameOf p) :
    DATask.deliver true (DATask.put handle b) = some (callOf handle p) := by
  have hlen := getDataLen_frameOf p hp
  have hne : toInt (getDataLen b.bytes) ≠ -1 := by
    rw [hb, hlen]
    omega
  simp only [DATask.put, DATask.deliver, DATask.process, if_true, callOf]
  rw [if_pos hne, hb, hlen, getMsgData_frameOf]

/-- **Decoding**: the processor reads the payload of the frame. -/
theorem deliver_frameOf (p : List UInt8) (hp : p.length ≤ maxPayload) (handle : Int)
    (b : MessageBlock) (hb : b.bytes = frameOf p) :
    (DATask.deliver true (DATask.put handle b)).bind ProcessorCall.payload = some p := by
  rw [process_frameOf p hp handle b hb]
  exact payload_callOf handle p

/-- The frames of many payloads make their calls, one for each. -/
theorem process_frames (handle : Int) (bs : List MessageBlock) :
    ∀ (ps : List (List UInt8)), (∀ p ∈ ps, p.length ≤ maxPayload) →
      bs.map MessageBlock.bytes = ps.map frameOf →
      bs.map (fun b => DATask.deliver true (DATask.put handle b))
        = ps.map fun p => some (callOf handle p) := by
  induction bs with
  | nil =>
      intro ps _ h
      obtain rfl : ps = [] := by simpa using h.symm
      rfl
  | cons b bs ih =>
      intro ps hfit h
      cases ps with
      | nil => exact absurd h (by simp)
      | cons p ps =>
          rw [List.map_cons, List.map_cons, List.cons.injEq] at h
          rw [List.map_cons, List.map_cons,
            process_frameOf p (hfit p List.mem_cons_self) handle b h.1,
            ih ps (fun q hq => hfit q (List.mem_cons_of_mem _ hq)) h.2]

/-! ## §3. The round trip. -/

/-- The bytes a peer sends for a list of payloads: the blocks write builds for them. -/
def sentBytes (payloads : List (List UInt8)) : List UInt8 :=
  (payloads.map fun p => (mkMessage p).bytes).flatten

theorem referenceParse_sentBytes (payloads : List (List UInt8))
    (hsize : ∀ p ∈ payloads, p.length ≤ maxPayload) :
    referenceParse (sentBytes payloads) = (payloads.map frameOf, false) := by
  have hmap : sentBytes payloads = (payloads.map frameOf).flatten := by
    unfold sentBytes
    congr 1
    exact List.map_congr_left (fun p _ => mkMessage_bytes p)
  rw [hmap]
  apply split_flatten frameJudge_steady
  · intro f hf
    obtain ⟨p, hp, rfl⟩ := List.mem_map.mp hf
    exact frameJudge_frameOf p (hsize p hp)
  · rfl

/-- **The round trip.**  However the stream of the frames is cut into `recv` results and
activations, the blocks queued decode to exactly the payloads, in order, and no
activation returns -1. -/
theorem payloads_round_trip (payloads : List (List UInt8))
    (hsize : ∀ p ∈ payloads, p.length ≤ maxPayload) (handle : Int)
    {e : Errno} {acts : List (List Recv)} {run : InputRun}
    (hfrag : Fragmentation e (sentBytes payloads) acts run) :
    run.puts.map (fun b => (DATask.deliver true (DATask.put handle b)).bind
        ProcessorCall.payload) = payloads.map some
      ∧ -1 ∉ run.codes := by
  have hparse := hfrag.parse.1
  rw [referenceParse_sentBytes payloads hsize, Prod.mk.injEq] at hparse
  obtain ⟨hputs, hrej⟩ := hparse
  have hcalls := process_frames handle run.puts payloads hsize hputs
  constructor
  · calc run.puts.map (fun b => (DATask.deliver true (DATask.put handle b)).bind
          ProcessorCall.payload)
        = (run.puts.map fun b => DATask.deliver true (DATask.put handle b)).map
            (Option.bind · ProcessorCall.payload) := by simp only [List.map_map, Function.comp_def]
      _ = (payloads.map fun p => some (callOf handle p)).map
            (Option.bind · ProcessorCall.payload) := by rw [hcalls]
      _ = payloads.map some := by
          rw [List.map_map]
          refine List.map_congr_left fun p _ => ?_
          rw [Function.comp_apply, Option.bind_some, payload_callOf]
  · intro hmem
    have : run.rejected = true := by simpa [InputRun.rejected] using hmem
    rw [hrej] at this
    exact absurd this (by simp)

/-- The payloads `[0x03, 0x02]` and the empty one, with a timeout inside the first frame
and both frames cut in the middle. -/
theorem payloads_round_trip_cut :
    (DATask.deliver true (DATask.put 7 ((MessageBlock.new 6).copy [2, 0, 6, 3, 2, 3]))).bind
        ProcessorCall.payload = some [0x03, 0x02] := by
  have hfrag : Fragmentation .ok (sentBytes [[0x03, 0x02], []])
      [[.data [2, 0, 6], .timeout], [.data [3], .data [2, 3]], [.data [2, 0], .data [4, 3]]]
      ⟨some (MessageBlock.new 4), .etime,
        [(MessageBlock.new 6).copy [2, 0, 6, 3, 2, 3], (MessageBlock.new 4).copy [2, 0, 4, 3]],
        [0, 0, 0], .idle⟩ :=
    ⟨by decide, by decide, [], by decide, Or.inr rfl⟩
  exact (List.cons.inj (payloads_round_trip _ (by decide) 7 hfrag).1).1

end TcpFramework
