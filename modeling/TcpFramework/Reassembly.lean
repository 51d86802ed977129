/-
  TcpFramework.Reassembly — handle_input refines a parser of the whole stream.

  `referenceParse` looks at the stream as a whole: it cuts it greedily into frames
  and gives up at the first one that is ill-formed.  handle_input sees the same
  stream in arbitrary pieces, through a buffer it replaces once the length is known,
  and over any number of activations.

  Main results:
    * `recvPass_data` — what one positive `recv` does, in terms of the reference
      judgement of the bytes in the buffer.
    * `inputStep_agrees` — one activation keeps the handler and the reference parser
      together.
    * `handleInput_refines_referenceParse` — whole runs, for arbitrary bytes.
-/
import TcpFramework.Lib.StreamSplit
import TcpFramework.HandleInput

namespace TcpFramework

open StepSystem StreamSplit ParsePkg

/-! ## §1. The reference parser. -/

/-- The judgement of the reference parser on what follows a frame boundary.  The
first byte condemns a frame at once; a frame has at least four bytes, so its length
field is read when these are there, and its last byte when it is complete. -/
def frameJudge : List UInt8 → StreamSplit.Verdict
  | [] => .wait
  | b :: s =>
      if b ≠ 0x02 then .bad
      else if (b :: s).length < 4 then .wait
      else if lenField (b :: s) < 4 then .bad
      else if (b :: s).length < lenField (b :: s) then .wait
      else if (b :: s)[lenField (b :: s) - 1]? ≠ some 0x03 then .bad
      else .frame (lenField (b :: s))

/-- **The reference parser**: the frames of the whole stream in order, and whether
the stream is rejected after them. -/
def referenceParse (s : List UInt8) : List (List UInt8) × Bool := split frameJudge s

/-- Exactly one frame: head, own length in the length field, tail. -/
structure IsFrame (f : List UInt8) : Prop where
  head : f.head? = some 0x02
  min : 4 ≤ f.length
  len : lenField f = f.length
  tail : f.getLast? = some 0x03

/-- `frameJudge` as a statement about a non-empty buffer with the right first byte. -/
theorem frameJudge_head {s : List UInt8} (h : s[0]? = some 0x02) :
    frameJudge s
      = if s.length < 4 then .wait
        else if lenField s < 4 then .bad
        else if s.length < lenField s then .wait
        else if s[lenField s - 1]? ≠ some 0x03 then .bad
        else .frame (lenField s) := by
  cases s with
  | nil => simp at h
  | cons b s =>
      have hb : b = 0x02 := by simpa using h
      rw [frameJudge, if_neg (by simpa using hb)]

theorem frameJudge_badHead {s : List UInt8} (h0 : s ≠ []) (h : s[0]? ≠ some 0x02) :
    frameJudge s = .bad := by
  cases s with
  | nil => exact absurd rfl h0
  | cons b s =>
      have hb : b ≠ 0x02 := by simpa using h
      rw [frameJudge, if_pos hb]

/-- A frame found by the judgement: head, length and tail are right, and it is there. -/
theorem frameJudge_frame {s : List UInt8} {n : Nat} (h : frameJudge s = .frame n) :
    s[0]? = some 0x02 ∧ n = lenField s ∧ 4 ≤ n ∧ n ≤ s.length
      ∧ s[n - 1]? = some 0x03 := by
  have h0 : s ≠ [] := by
    rintro rfl
    simp [frameJudge] at h
  by_cases hhd : s[0]? = some 0x02
  · rw [frameJudge_head hhd] at h
    split_ifs at h with h4 hl hw ht
    · obtain rfl : lenField s = n := by simpa using h
      exact ⟨hhd, rfl, by omega, by omega, by simpa using ht⟩
  · rw [frameJudge_badHead h0 hhd] at h
    exact absurd h (by simp)

/-- **The judgement is steady**: more bytes never change a frame or a rejection. -/
theorem frameJudge_steady : Steady frameJudge where
  bad_append := by
    intro p q h
    have h0 : p ≠ [] := by
      rintro rfl
      simp [frameJudge] at h
    have hpq : (p ++ q)[0]? = p[0]? :=
      List.getElem?_append_left (List.length_pos_iff.mpr h0)
    by_cases hhd : p[0]? = some 0x02
    · rw [frameJudge_head hhd] at h
      rw [frameJudge_head (hpq.trans hhd)]
      split_ifs at h with h4 hl hw ht
      · -- a length field below four
        rw [lenField_append p q (by unfold minPkgSize; omega), List.length_append,
          if_neg (by omega), if_pos hl]
      · -- a wrong last byte
        have hat : (p ++ q)[lenField p - 1]? = p[lenField p - 1]? :=
          List.getElem?_append_left (by omega)
        rw [lenField_append p q (by unfold minPkgSize; omega), List.length_append,
          if_neg (by omega), if_neg hl, if_neg (by omega), hat, if_pos ht]
    · exact frameJudge_badHead (by simp [h0]) (hpq ▸ hhd)
  frame_append := by
    intro p n q h
    obtain ⟨hhd, rfl, h4, hle, ht⟩ := frameJudge_frame h
    have hpq : (p ++ q)[0]? = some 0x02 := by
      rw [List.getElem?_append_left (by omega)]
      exact hhd
    have hat : (p ++ q)[lenField p - 1]? = p[lenField p - 1]? :=
      List.getElem?_append_left (by omega)
    rw [frameJudge_head hpq, lenField_append p q (by unfold minPkgSize; omega),
      List.length_append, if_neg (by omega), if_neg (by omega), if_neg (by omega), hat, ht,
      if_neg (by simp)]
  frame_pos := by
    intro p n h
    have := frameJudge_frame h
    omega
  frame_le := by
    intro p n h
    exact (frameJudge_frame h).2.2.2.1

theorem isFrame_of_judge {f : List UInt8} (h : frameJudge f = .frame f.length) : IsFrame f := by
  obtain ⟨hhd, hlen, h4, -, ht⟩ := frameJudge_frame h
  refine ⟨?_, h4, hlen.symm, ?_⟩
  · rw [List.head?_eq_getElem?]
    exact hhd
  · rw [List.getLast?_eq_getElem?]
    exact ht

/-! ## §2. isValidAndFinish computes the judgement. -/

/-- The three-way verdict is the reference judgement of the buffer. -/
theorem frameJudge_eq_isValidAndFinish (s : List UInt8) (n : Nat) :
    frameJudge s
      = match (isValidAndFinish s n).1 with
        | .invalid => .bad
        | .unfinished => .wait
        | .finished => .frame (lenField s) := by
  have hmax : ¬ lenField s > maxPkgSize := Nat.not_lt.mpr (lenField_le_maxPkgSize s)
  by_cases h0 : s = []
  · subst h0
    rfl
  have hpos : s.length ≠ 0 := by simpa using h0
  unfold isValidAndFinish
  by_cases hhd : s[0]? = some 0x02
  · -- the head byte is right: the branches of the two match one by one
    have hpk : ¬ s[0]? ≠ some pkgHead := not_not_intro hhd
    rw [frameJudge_head hhd]
    simp only [hpos, if_false, hpk, minPkgSize, pkgTail]
    by_cases h4 : s.length < 4
    · simp only [h4, if_true]
    by_cases hl : lenField s < 4
    · simp only [h4, hl, or_true, if_true, if_false]
    by_cases hw : s.length < lenField s
    · have hge : ¬ s.length ≥ lenField s := by omega
      simp only [h4, hl, hw, hge, hmax, or_self, if_true, if_false]
    · have hge : s.length ≥ lenField s := by omega
      by_cases ht : s[lenField s - 1]? = some 3
      · simp only [h4, hl, hw, hge, hmax, or_self, ht, if_true, if_false, ne_eq,
          not_true_eq_false]
      · simp only [h4, hl, hw, hge, hmax, or_self, ht, if_true, if_false, ne_eq,
          not_false_eq_true]
  · have hpk : s[0]? ≠ some pkgHead := hhd
    rw [frameJudge_badHead h0 hhd]
    simp only [hpos, if_false, hpk, ne_eq, not_false_eq_true, if_true]
    split_ifs <;> rfl

/-- The out parameter of an unfinished verdict: untouched below four bytes, the
length field from four bytes on. -/
theorem isValidAndFinish_unfinished_len (s : List UInt8) (n : Nat)
    (h : (isValidAndFinish s n).1 = .unfinished) :
    (isValidAndFinish s n).2 = if s.length < 4 then n else lenField s := by
  unfold isValidAndFinish minPkgSize at *
  split_ifs at h ⊢ <;> first | rfl | omega

/-- An unfinished buffer of at least four bytes has a length field beyond its length. -/
theorem frameJudge_wait_len {s : List UInt8} (h : frameJudge s = .wait) (h4 : 4 ≤ s.length) :
    s.length < lenField s := by
  have h0 : s ≠ [] := List.length_pos_iff.mp (by omega)
  by_cases hhd : s[0]? = some 0x02
  · rw [frameJudge_head hhd, if_neg (by omega)] at h
    split_ifs at h with hl hw
    exact hw
  · rw [frameJudge_badHead h0 hhd] at h
    exact absurd h (by simp)

/-! ## §3. The buffer between two passes. -/

/-- The buffer when the loop asks for more: four bytes that are not full, or a buffer
of exactly the announced length that is not full. -/
structure HeadOk (head : MessageBlock) : Prop where
  rd : head.rd = 0
  wait : frameJudge head.bytes = .wait
  room : (head.size = 4 ∧ head.bytes.length < 4)
    ∨ (4 ≤ head.bytes.length ∧ head.size = lenField head.bytes)

theorem headOk_new : HeadOk (MessageBlock.new minMsgSize) :=
  ⟨rfl, rfl, Or.inl ⟨rfl, by decide⟩⟩

/-- The buffer is never full when the loop asks for more. -/
theorem HeadOk.length_lt {head : MessageBlock} (h : HeadOk head) :
    head.bytes.length < head.size := by
  rcases h.room with ⟨hs, hl⟩ | ⟨h4, hs⟩
  · omega
  · rw [hs]
    exact frameJudge_wait_len h.wait h4

/-- What fits into the buffer does not run over the end of the frame. -/
theorem HeadOk.exact {head : MessageBlock} (h : HeadOk head) (bs : List UInt8)
    (hbs : bs.length ≤ head.space) (n : Nat)
    (hn : frameJudge (head.bytes ++ bs) = .frame n) : n = (head.bytes ++ bs).length := by
  have hrd := h.rd
  have hfits := head.fits
  obtain ⟨-, hlen, h4, hle, -⟩ := frameJudge_frame hn
  rw [List.length_append] at *
  unfold MessageBlock.space at hbs
  rcases h.room with ⟨hs, hl⟩ | ⟨hl, hs⟩
  · omega
  · rw [lenField_append _ _ hl] at hlen
    omega

theorem checkSpace_again {head : MessageBlock} (h : HeadOk head) :
    checkSpace head = .again head := by
  have hlt := h.length_lt
  have hrd := h.rd
  unfold checkSpace MessageBlock.space
  rw [if_neg (by omega)]

/-- Once the length is known: a buffer of that length that takes the bytes over. -/
theorem headOk_grown {s : List UInt8} (hwait : frameJudge s = .wait) (h4 : 4 ≤ s.length) :
    HeadOk ((MessageBlock.new (lenField s)).copy s)
      ∧ ((MessageBlock.new (lenField s)).copy s).bytes = s := by
  have hlt := frameJudge_wait_len hwait h4
  have hbytes : ((MessageBlock.new (lenField s)).copy s).bytes = s := by
    rw [MessageBlock.copy_bytes _ _ (by
      show 0 + 0 + s.length ≤ lenField s
      omega)]
    rfl
  refine ⟨⟨by simp, by rw [hbytes]; exact hwait, Or.inr ?_⟩, hbytes⟩
  rw [hbytes]
  exact ⟨h4, by simp⟩

/-- The buffer that goes on: it is the 4-byte one and not full yet, or it has the announced
length already. -/
theorem HeadOk.copy {head : MessageBlock} (h : HeadOk head) {bs : List UInt8}
    (hbs : bs.length ≤ head.space) (hwait : frameJudge (head.bytes ++ bs) = .wait)
    (hsize : (head.bytes ++ bs).length < 4 ∨ ¬ lenField (head.bytes ++ bs) > head.size) :
    HeadOk (head.copy bs) := by
  have hcopy : (head.copy bs).bytes = head.bytes ++ bs :=
    MessageBlock.copy_bytes_of_space head bs hbs
  have hrd := h.rd
  have hfits := head.fits
  unfold MessageBlock.space at hbs
  refine ⟨by simp [hrd], by rw [hcopy]; exact hwait, ?_⟩
  rw [hcopy, MessageBlock.copy_size]
  by_cases h4 : (head.bytes ++ bs).length < 4
  · refine Or.inl ?_
    rw [List.length_append] at h4 ⊢
    rcases h.room with hr | hr <;> omega
  · have hlt := frameJudge_wait_len hwait (by omega)
    have hbig := hsize.resolve_left h4
    refine Or.inr ⟨by omega, ?_⟩
    rw [List.length_append] at *
    rcases h.room with ⟨hs, hl⟩ | ⟨hl, hs⟩
    · -- a 4-byte buffer with four bytes in it is too small for any frame that goes on
      omega
    · rw [lenField_append _ _ hl]
      exact hs

/-- **One positive `recv`.**  With the buffer as the loop keeps it, the pass goes on,
queues the buffer or rejects, as the reference judgement of the bytes says. -/
theorem recvPass_data {head : MessageBlock} (h : HeadOk head) (bs : List UInt8) (e : Errno)
    (hbs : bs.length ≤ head.space) :
    match frameJudge (head.bytes ++ bs) with
    | .wait => ∃ head', recvPass head e (.data bs) = .again head' ∧ HeadOk head'
        ∧ head'.bytes = head.bytes ++ bs
    | .bad => ∃ head', recvPass head e (.data bs) = .ret (-1) head' none
    | .frame _ => ∃ blk, recvPass head e (.data bs)
          = .ret 0 (MessageBlock.new minMsgSize) (some blk)
        ∧ blk.bytes = head.bytes ++ bs := by
  have hcopy : (head.copy bs).bytes = head.bytes ++ bs :=
    MessageBlock.copy_bytes_of_space head bs hbs
  have hjudge := frameJudge_eq_isValidAndFinish (head.bytes ++ bs) 0
  simp only [recvPass, hcopy, MessageBlock.totalSize, MessageBlock.copy_size]
  cases hv : (isValidAndFinish (head.bytes ++ bs) 0).1 with
  | invalid =>
      rw [hv] at hjudge
      simp [hjudge]
  | finished =>
      rw [hv] at hjudge
      simp [hjudge, hcopy]
  | unfinished =>
      rw [hv] at hjudge
      have hwait : frameJudge (head.bytes ++ bs) = .wait := hjudge
      have hlen := isValidAndFinish_unfinished_len _ _ hv
      simp only [hwait, true_and]
      by_cases h4 : (head.bytes ++ bs).length < 4
      · -- still no length field: the 4-byte buffer goes on
        rw [if_pos h4] at hlen
        have hnew : HeadOk (head.copy bs) := h.copy hbs hwait (Or.inl h4)
        rw [hlen, if_neg (by omega)]
        exact ⟨head.copy bs, checkSpace_again hnew, hnew, hcopy⟩
      · rw [if_neg h4] at hlen
        rw [hlen]
        by_cases hbig : lenField (head.bytes ++ bs) > head.size
        · -- the length is new
          rw [if_pos hbig]
          obtain ⟨hnew, hnb⟩ := headOk_grown hwait (by omega)
          exact ⟨_, checkSpace_again hnew, hnew, hnb⟩
        · -- the buffer already has the announced length
          rw [if_neg hbig]
          have hnew : HeadOk (head.copy bs) := h.copy hbs hwait (Or.inr hbig)
          exact ⟨head.copy bs, checkSpace_again hnew, hnew, hcopy⟩

/-- A timeout ends the activation and changes nothing. -/
theorem recvPass_timeout (head : MessageBlock) :
    recvPass head .etime .timeout = .ret 0 head none := rfl

/-! ## §4. One activation. -/

/-- What an activation `a` entered with `out` queued so far has in common with the
receiver `r` that was fed the same chunks. -/
structure Matches (a : Activation) (out : List (List UInt8)) (r : Receiver UInt8) : Prop where
  outs : r.out = out ++ a.put.toList.map MessageBlock.bytes
  code : a.code = none ∨ a.code = some 0 ∨ a.code = some (-1)
  dead : r.dead = true ↔ a.code = some (-1)
  head : r.dead = false → HeadOk a.head ∧ a.head.bytes = r.buffer

/-- **The receive loop.**  Whatever the results of `recv` (bytes or timeouts), the
loop ends where the receiver fed with the same bytes ends. -/
theorem inputLoop_agrees :
    ∀ (rs : List Recv) (head : MessageBlock) (e : Errno) (a : Activation)
      (out : List (List UInt8)) (seen : List UInt8),
      HeadOk head → (∀ r ∈ rs, r.plain) → inputLoop head e rs = some a → a.rest = [] →
      Receiver.Agrees frameJudge ⟨head.bytes, out, false⟩ seen →
      ∃ r, Receiver.Agrees frameJudge r (seen ++ (rs.map Recv.bytes).flatten)
        ∧ Matches a out r := by
  intro rs
  induction rs with
  | nil =>
      intro head e a out seen hok _ hloop _ hagree
      obtain rfl : (⟨none, head, e, none, []⟩ : Activation) = a := by
        simpa [inputLoop] using hloop
      refine ⟨⟨head.bytes, out, false⟩, by simpa using hagree, ?_⟩
      exact ⟨by simp, Or.inl rfl, by simp, fun _ => ⟨hok, rfl⟩⟩
  | cons r rs ih =>
      intro head e a out seen hok hplain hloop hrest hagree
      obtain ⟨hposs, -⟩ := inputLoop_cons hloop
      have hplain' : ∀ r' ∈ rs, r'.plain := fun r' h => hplain r' (List.mem_cons_of_mem _ h)
      -- an activation that has returned saw this result last
      have hlast : ∀ {code : Int} {head₁ : MessageBlock} {put : Option MessageBlock},
          recvPass head (r.errno e) r = .ret code head₁ put →
          a = ⟨some code, head₁, r.errno e, put, []⟩ ∧ rs = [] := by
        intro code head₁ put hret
        obtain rfl := Option.some.inj (hloop.symm.trans (inputLoop_ret hposs hret))
        obtain rfl : rs = [] := hrest
        exact ⟨rfl, rfl⟩
      cases r with
      | error e' => exact absurd (hplain _ List.mem_cons_self) (by simp [Recv.plain])
      | eof => exact absurd (hplain _ List.mem_cons_self) (by simp [Recv.plain])
      | timeout =>
          -- the activation returns 0 with the buffer as it was
          obtain ⟨rfl, rfl⟩ := hlast (recvPass_timeout head)
          refine ⟨⟨head.bytes, out, false⟩, by simpa [Recv.bytes] using hagree, ?_⟩
          exact ⟨by simp, Or.inr (Or.inl rfl), by simp, fun _ => ⟨hok, rfl⟩⟩
      | data bs =>
          have hbs : bs.length ≤ head.space := hposs.2
          have hpass := recvPass_data hok bs (Recv.errno e (.data bs)) hbs
          have hfed := Receiver.feed_agrees frameJudge_steady rfl hagree rfl
            (hok.exact bs hbs)
          have hseen : seen ++ ((Recv.data bs :: rs).map Recv.bytes).flatten
              = (seen ++ bs) ++ (rs.map Recv.bytes).flatten := by
            simp [Recv.bytes]
          rw [hseen]
          unfold Receiver.feed at hfed
          cases hv : frameJudge (head.bytes ++ bs) with
          | wait =>
              -- the loop goes on with the bytes in the buffer
              simp only [hv] at hpass hfed
              obtain ⟨head₁, hret, hok', hbytes⟩ := hpass
              rw [inputLoop_again hposs hret] at hloop
              rw [← hbytes] at hfed
              exact ih head₁ _ a out (seen ++ bs) hok' hplain' hloop hrest hfed
          | bad =>
              -- the activation returns -1
              simp only [hv] at hpass hfed
              obtain ⟨head₁, hret⟩ := hpass
              obtain ⟨rfl, rfl⟩ := hlast hret
              refine ⟨_, by simpa using hfed, ?_⟩
              exact ⟨by simp, Or.inr (Or.inr rfl), by simp, fun hd => absurd hd (by simp)⟩
          | frame n =>
              -- the frame is queued, and the next one starts with an empty buffer
              simp only [hv] at hpass hfed
              obtain ⟨blk, hret, hbytes⟩ := hpass
              obtain ⟨rfl, rfl⟩ := hlast hret
              refine ⟨_, by simpa using hfed, ?_⟩
              exact ⟨by simp [hbytes], Or.inr (Or.inl rfl), by simp, fun _ => ⟨headOk_new, rfl⟩⟩

/-! ## §5. Runs of activations. -/

/-- The connection after some activations and the receiver fed with the same bytes. -/
structure Tracks (run : InputRun) (r : Receiver UInt8) : Prop where
  outs : r.out = run.puts.map MessageBlock.bytes
  dead : r.dead = run.rejected
  closed : run.rejected = true → run.status = .closed
  head : run.rejected = false →
    HeadOk (run.mPhead.getD (MessageBlock.new minMsgSize))
      ∧ (run.mPhead.getD (MessageBlock.new minMsgSize)).bytes = r.buffer

theorem Matches.tracks {run : InputRun} {a : Activation} {r : Receiver UInt8}
    (hm : Matches a (run.puts.map MessageBlock.bytes) r) (hlive : run.rejected = false) :
    Tracks (run.after a) r := by
  have hrej : (run.after a).rejected = decide (a.code = some (-1)) := by
    unfold InputRun.rejected at hlive ⊢
    -- no activation before this one has returned -1
    rcases hm.code with h | h | h <;>
      simp only [InputRun.after, h, List.contains_eq_mem, List.mem_append, Option.toList] <;>
      simp at hlive ⊢ <;> simp [hlive]
  refine ⟨by simp [InputRun.after, hm.outs], ?_, ?_, ?_⟩
  · rw [hrej, Bool.eq_iff_iff, hm.dead, decide_eq_true_iff]
  · intro h
    rw [hrej, decide_eq_true_iff] at h
    simp [InputRun.after, h]
  · intro h
    rw [hrej, decide_eq_false_iff_not, ← hm.dead, Bool.not_eq_true] at h
    exact hm.head h

/-- **One activation** keeps the handler and the reference parser together. -/
theorem inputStep_agrees (run run' : InputRun) (rs : List Recv) (r : Receiver UInt8)
    (seen : List UInt8) (hplain : ∀ x ∈ rs, x.plain) (hstep : inputStep run rs = some run')
    (htrack : Tracks run r) (hagree : r.Agrees frameJudge seen) :
    ∃ r', Tracks run' r' ∧ r'.Agrees frameJudge (seen ++ (rs.map Recv.bytes).flatten) := by
  obtain ⟨hidle, a, ha, hrest, rfl⟩ := inputStep_cases hstep
  have hlive : run.rejected = false := by
    cases hr : run.rejected with
    | false => rfl
    | true => exact absurd (htrack.closed hr) (by simp [hidle])
  obtain ⟨hok, hbytes⟩ := htrack.head hlive
  have hagree' : Receiver.Agrees frameJudge
      ⟨(run.mPhead.getD (MessageBlock.new minMsgSize)).bytes,
        run.puts.map MessageBlock.bytes, false⟩ seen := by
    have hr : r = ⟨r.buffer, r.out, r.dead⟩ := rfl
    rw [hbytes, ← htrack.outs, ← hlive, ← htrack.dead]
    exact hr ▸ hagree
  obtain ⟨r', hr', hm⟩ := inputLoop_agrees rs _ run.errno a _ seen hok hplain ha hrest hagree'
  exact ⟨r', hm.tracks hlive, hr'⟩

/-! ## §6. Whole runs. -/

/-- The activations `acts` see the stream `s` in pieces: only bytes and timeouts come
from `recv`, and they go on to the end of the stream or to the first return of -1. -/
structure Fragmentation (e : Errno) (s : List UInt8) (acts : List (List Recv))
    (run : InputRun) : Prop where
  plain : ∀ rs ∈ acts, ∀ r ∈ rs, r.plain
  runs : replay inputStep (InputRun.start e) acts = some run
  taken : ∃ rest, s = received acts ++ rest ∧ (run.rejected = true ∨ rest = [])

theorem received_cons (rs : List Recv) (acts : List (List Recv)) :
    received (rs :: acts) = (rs.map Recv.bytes).flatten ++ received acts := by
  simp [received]

/-- The run lemma: activations one after the other. -/
theorem replay_agrees :
    ∀ (acts : List (List Recv)) (run run' : InputRun) (r : Receiver UInt8) (seen : List UInt8),
      (∀ rs ∈ acts, ∀ x ∈ rs, x.plain) → replay inputStep run acts = some run' →
      Tracks run r → r.Agrees frameJudge seen →
      ∃ r', Tracks run' r' ∧ r'.Agrees frameJudge (seen ++ received acts) := by
  intro acts
  induction acts with
  | nil =>
      intro run run' r seen _ hrun htrack hagree
      obtain rfl : run = run' := by simpa using hrun
      exact ⟨r, htrack, by simpa [received] using hagree⟩
  | cons rs acts ih =>
      intro run run' r seen hplain hrun htrack hagree
      obtain ⟨mid, hstep, hrest⟩ := replay_cons.mp hrun
      obtain ⟨r₁, htrack₁, hagree₁⟩ := inputStep_agrees run mid rs r seen
        (hplain rs List.mem_cons_self) hstep htrack hagree
      rw [received_cons, ← List.append_assoc]
      exact ih mid run' r₁ _ (fun ys h => hplain ys (List.mem_cons_of_mem _ h)) hrest
        htrack₁ hagree₁

theorem tracks_start (e : Errno) : Tracks (InputRun.start e) ⟨[], [], false⟩ where
  outs := rfl
  dead := rfl
  closed := fun h => absurd h (by simp [InputRun.rejected, InputRun.start])
  head := fun _ => ⟨headOk_new, rfl⟩

/-- The blocks and the verdict of a fragmentation are the reference parser's. -/
theorem Fragmentation.parse {e : Errno} {s : List UInt8} {acts : List (List Recv)}
    {run : InputRun} (h : Fragmentation e s acts run) :
    (run.puts.map MessageBlock.bytes, run.rejected) = referenceParse s
      ∧ ∀ b ∈ run.puts, IsFrame b.bytes := by
  obtain ⟨rest, rfl, hend⟩ := h.taken
  obtain ⟨r, htrack, hagree⟩ := replay_agrees acts _ run _ [] h.plain h.runs
    (tracks_start e) (Receiver.agrees_start rfl)
  rw [List.nil_append] at hagree
  constructor
  · rw [referenceParse, hagree.finish rest (by rw [htrack.dead]; exact hend), htrack.outs,
      htrack.dead]
  · intro b hb
    apply isFrame_of_judge
    apply hagree.framed
    rw [htrack.outs]
    exact List.mem_map_of_mem hb

/-- **handle_input refines the reference parser**: for every byte stream, every
fragmentation of it queues the reference parser's frames and ends with its verdict,
so two fragmentations agree; and every queued block is exactly one frame. -/
theorem handleInput_refines_referenceParse (s : List UInt8) :
    (∀ (e : Errno) (acts : List (List Recv)) (run : InputRun), Fragmentation e s acts run →
      (run.puts.map MessageBlock.bytes, run.rejected) = referenceParse s
        ∧ ∀ b ∈ run.puts, IsFrame b.bytes)
    ∧ (∀ (e₁ e₂ : Errno) (acts₁ acts₂ : List (List Recv)) (run₁ run₂ : InputRun),
      Fragmentation e₁ s acts₁ run₁ → Fragmentation e₂ s acts₂ run₂ →
      run₁.puts.map MessageBlock.bytes = run₂.puts.map MessageBlock.bytes
        ∧ run₁.rejected = run₂.rejected) := by
  refine ⟨fun e acts run h => h.parse, ?_⟩
  intro e₁ e₂ acts₁ acts₂ run₁ run₂ h₁ h₂
  have heq := h₁.parse.1.trans h₂.parse.1.symm
  exact Prod.mk.inj heq

/-- A frame cut after its second and fourth byte, a timeout between the first two
pieces, and a stray byte behind it. -/
theorem handleInput_refines_referenceParse_cut :
    referenceParse [0x02, 0x00, 0x05, 0x41, 0x03, 0x05]
      = ([[0x02, 0x00, 0x05, 0x41, 0x03]], true) := by
  have h := (handleInput_refines_referenceParse [0x02, 0x00, 0x05, 0x41, 0x03, 0x05]).1 .ok
    [[.data [0x02, 0x00], .timeout], [.data [0x05, 0x41], .data [0x03]], [.data [0x05]]]
    ⟨some ((MessageBlock.new 4).copy [0x05]), .etime,
      [(MessageBlock.new 5).copy [0x02, 0x00, 0x05, 0x41, 0x03]], [0, 0, -1], .closed⟩
    ⟨by decide, by decide, [], by decide, Or.inl (by decide)⟩
  exact h.1.symm.trans (by decide)

end TcpFramework
