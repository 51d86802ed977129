/-
  TcpFramework.Lib.StreamSplit — cutting a stream into frames, at once or piece by
  piece.

  A framing is a judgement on the bytes seen since the last frame boundary: wait
  for more, a frame of `n` items is there, or the stream is bad.  `split` applies
  it greedily to a whole stream.  A `Receiver` sees the stream in chunks and judges
  its buffer after each one.  `feed_agrees` says that the two agree as long as no
  chunk runs over the end of a frame, whatever the chunks are.

  Nothing here is about a particular frame format.
-/
import Mathlib.Tactic.Common
import Mathlib.Data.List.Basic

namespace StreamSplit

variable {α : Type*}

/-! ## §1. Judgements and the greedy splitter. -/

/-- What is known of the items since the last frame boundary. -/
inductive Verdict where
  | wait
  | frame (n : Nat)
  | bad
  deriving Repr, DecidableEq

/-- A judgement that more input never takes back, and whose frames are non-empty
and already there. -/
structure Steady (judge : List α → Verdict) : Prop where
  bad_append : ∀ {p : List α} (q : List α), judge p = .bad → judge (p ++ q) = .bad
  frame_append : ∀ {p : List α} {n : Nat} (q : List α),
    judge p = .frame n → judge (p ++ q) = .frame n
  frame_pos : ∀ {p : List α} {n : Nat}, judge p = .frame n → 0 < n
  frame_le : ∀ {p : List α} {n : Nat}, judge p = .frame n → n ≤ p.length

/-- Greedy splitting with at most `k` judgements. -/
def splitFuel (judge : List α → Verdict) : Nat → List α → List (List α) × Bool
  | 0, _ => ([], false)
  | k + 1, s =>
      match judge s with
      | .wait => ([], false)
      | .bad => ([], true)
      | .frame n =>
          let r := splitFuel judge k (s.drop n)
          (s.take n :: r.1, r.2)

/-- **The reference splitter**: the frames of the whole stream, front to back, and
whether it is bad after them.  Frames are non-empty, so the fuel suffices. -/
def split (judge : List α → Verdict) (s : List α) : List (List α) × Bool :=
  splitFuel judge (s.length + 1) s

variable {judge : List α → Verdict}

theorem splitFuel_eq_split (hj : Steady judge) :
    ∀ (k : Nat) (s : List α), s.length < k → splitFuel judge k s = split judge s
  | 0, s, h => absurd h (Nat.not_lt_zero _)
  | k + 1, s, h => by
      unfold split
      cases hv : judge s with
      | wait => simp only [splitFuel, hv]
      | bad => simp only [splitFuel, hv]
      | frame n =>
          have hn := hj.frame_pos hv
          have hle := hj.frame_le hv
          have hlen : (s.drop n).length = s.length - n := List.length_drop
          -- what is behind the frame is shorter, so either fuel is enough for it
          have h₁ := splitFuel_eq_split hj k (s.drop n) (by omega)
          have h₂ : splitFuel judge s.length (s.drop n) = split judge (s.drop n) := by
            by_cases hs : s.length = k
            · rw [hs]; exact h₁
            · exact splitFuel_eq_split hj s.length (s.drop n) (by omega)
          simp only [splitFuel, hv, h₁, h₂]

theorem split_wait {s : List α} (h : judge s = .wait) : split judge s = ([], false) := by
  simp only [split, splitFuel, h]

theorem split_bad {s : List α} (h : judge s = .bad) : split judge s = ([], true) := by
  simp only [split, splitFuel, h]

theorem split_frame (hj : Steady judge) {s : List α} {n : Nat} (h : judge s = .frame n) :
    split judge s
      = (s.take n :: (split judge (s.drop n)).1, (split judge (s.drop n)).2) := by
  have hn := hj.frame_pos h
  have hle := hj.frame_le h
  have hlen : (s.drop n).length = s.length - n := List.length_drop
  have hrec := splitFuel_eq_split hj s.length (s.drop n) (by omega)
  rw [show split judge s = splitFuel judge (s.length + 1) s from rfl]
  simp only [splitFuel, h, hrec]

/-- A whole frame in front of a stream is split off first. -/
theorem split_append (hj : Steady judge) {f : List α} (h : judge f = .frame f.length)
    (s : List α) :
    split judge (f ++ s) = (f :: (split judge s).1, (split judge s).2) := by
  rw [split_frame hj (hj.frame_append s h), List.take_left, List.drop_left]

/-- A stream that is a concatenation of whole frames splits into just these. -/
theorem split_flatten (hj : Steady judge) :
    ∀ fs : List (List α), (∀ f ∈ fs, judge f = .frame f.length) → judge [] = .wait →
      split judge fs.flatten = (fs, false)
  | [], _, h0 => split_wait h0
  | f :: fs, h, h0 => by
      have hf := h f List.mem_cons_self
      have hfs := split_flatten hj fs (fun g hg => h g (List.mem_cons_of_mem _ hg)) h0
      rw [List.flatten_cons, split_append hj hf, hfs]

/-! ## §2. The receiver that sees the stream in chunks. -/

/-- A receiver: the items since the last frame boundary, the frames handed on so
far, and whether it has given up. -/
structure Receiver (α : Type*) where
  buffer : List α
  out : List (List α)
  dead : Bool

/-- Judge the buffer after one more chunk. -/
def Receiver.feed (judge : List α → Verdict) (r : Receiver α) (c : List α) : Receiver α :=
  match judge (r.buffer ++ c) with
  | .wait => { r with buffer := r.buffer ++ c }
  | .bad => { r with dead := true }
  | .frame _ => { r with buffer := [], out := r.out ++ [r.buffer ++ c] }

/-- The chunk does not run over the end of a frame. -/
def Receiver.Exact (judge : List α → Verdict) (r : Receiver α) (c : List α) : Prop :=
  ∀ n, judge (r.buffer ++ c) = .frame n → n = (r.buffer ++ c).length

/-- The receiver has taken `seen` of the stream and is where the splitter is:
whatever follows, the splitter finds the frames handed on, then splits what is
left in the buffer and what follows.  Everything handed on is exactly one frame. -/
structure Receiver.Agrees (judge : List α → Verdict) (r : Receiver α) (seen : List α) :
    Prop where
  framed : ∀ f ∈ r.out, judge f = .frame f.length
  alive : r.dead = false → judge r.buffer = .wait ∧ ∀ rest,
    split judge (seen ++ rest)
      = (r.out ++ (split judge (r.buffer ++ rest)).1, (split judge (r.buffer ++ rest)).2)
  dead : r.dead = true → ∀ rest, split judge (seen ++ rest) = (r.out, true)

theorem Receiver.agrees_start (h0 : judge [] = .wait) :
    Receiver.Agrees judge ⟨[], [], false⟩ ([] : List α) where
  framed := by simp
  alive := fun _ => ⟨h0, fun _ => rfl⟩
  dead := fun h => absurd h (by simp)

/-- **One chunk.**  Feeding an exact chunk keeps receiver and splitter together. -/
theorem Receiver.feed_agrees (hj : Steady judge) (h0 : judge [] = .wait)
    {r : Receiver α} {seen c : List α} (hr : r.Agrees judge seen) (hlive : r.dead = false)
    (hc : r.Exact judge c) : (r.feed judge c).Agrees judge (seen ++ c) := by
  obtain ⟨-, hsplit⟩ := hr.alive hlive
  have hassoc : ∀ rest, r.buffer ++ (c ++ rest) = (r.buffer ++ c) ++ rest := fun rest =>
    (List.append_assoc _ _ _).symm
  unfold Receiver.feed
  cases hv : judge (r.buffer ++ c) with
  | wait =>
      -- the chunk goes to the buffer, and nothing is split off
      refine ⟨hr.framed, fun _ => ⟨hv, fun rest => ?_⟩, fun hd => absurd hd (by simp [hlive])⟩
      rw [List.append_assoc, hsplit, hassoc]
  | bad =>
      -- bad for the receiver is bad for the splitter, whatever follows
      refine ⟨hr.framed, fun hd => absurd hd (by simp), fun _ rest => ?_⟩
      rw [List.append_assoc, hsplit, hassoc, split_bad (hj.bad_append rest hv)]
      simp
  | frame n =>
      -- the chunk ends where the frame does, so the buffer is just that frame
      have hn : n = (r.buffer ++ c).length := hc n hv
      have hframe : judge (r.buffer ++ c) = .frame (r.buffer ++ c).length := hn ▸ hv
      refine ⟨?_, fun _ => ⟨h0, fun rest => ?_⟩, fun hd => absurd hd (by simp [hlive])⟩
      · intro f hf
        rcases List.mem_append.mp hf with h | h
        · exact hr.framed f h
        · rw [List.mem_singleton.mp h]
          exact hframe
      · rw [List.append_assoc, hsplit, hassoc, split_append hj hframe]
        simp

/-- At the end of the stream, or once the receiver has given up, its frames and
its verdict are the splitter's. -/
theorem Receiver.Agrees.finish {r : Receiver α} {seen : List α} (h : r.Agrees judge seen)
    (rest : List α) (hend : r.dead = true ∨ rest = []) :
    split judge (seen ++ rest) = (r.out, r.dead) := by
  cases hd : r.dead with
  | true => exact h.dead hd rest
  | false =>
      obtain rfl : rest = [] := by simpa [hd] using hend
      obtain ⟨hw, hsplit⟩ := h.alive hd
      rw [hsplit, List.append_nil, split_wait hw, List.append_nil]

/-- **Inside a stream of whole frames** the receiver is alive and has handed on the first of
them; at the end of the stream it has handed on all. -/
theorem Receiver.Agrees.of_flatten (hj : Steady judge) (h0 : judge [] = .wait) {r : Receiver α}
    {seen rest : List α} (h : r.Agrees judge seen) {fs : List (List α)}
    (hstream : seen ++ rest = fs.flatten) (hfs : ∀ f ∈ fs, judge f = .frame f.length) :
    r.dead = false ∧ r.out <+: fs ∧ (rest = [] → r.out = fs) := by
  have hall : split judge (seen ++ rest) = (fs, false) := by
    rw [hstream]
    exact split_flatten hj fs hfs h0
  have hlive : r.dead = false := by
    cases hd : r.dead with
    | false => rfl
    | true =>
        rw [h.dead hd rest] at hall
        exact absurd (congrArg Prod.snd hall) (by simp)
  obtain ⟨-, hsplit⟩ := h.alive hlive
  refine ⟨hlive, ⟨(split judge (r.buffer ++ rest)).1, ?_⟩, ?_⟩
  · exact congrArg Prod.fst ((hsplit rest).symm.trans hall)
  · intro hrest
    have hend := h.finish rest (Or.inr hrest)
    exact congrArg Prod.fst (hend.symm.trans hall)

end StreamSplit
