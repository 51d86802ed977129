/-
  TcpFramework.ServerRotation — getConn uses the connections of a server evenly.

  getConn takes the handle at nPos modulo the size of handle_list and advances nPos.  While
  the list stays as it is, its answers are turns over it (Lib.RoundRobin), and calls that
  are about other servers leave the entry alone.

  Main results:
    * `SvrMgr.answers_eq_turns` — the answers of any sequence of calls.
    * `getConn_even` — every handle is returned ⌊k/n⌋ or ⌈k/n⌉ times in k calls.
-/
import TcpFramework.Dispatch
import TcpFramework.Lib.RoundRobin

namespace TcpFramework

open StepSystem RoundRobin

/-! ## §1. Calls of SvrMgr. -/

/-- A call of one of SvrMgr's methods that read or change the entry of a server. -/
inductive SvrCall where
  | getConn (a : Addr)
  | addSvrConn (env : Env) (a : Addr) (handle : Int)
  | rmSvrConn (a : Addr) (handle : Int)

/-- The call asks for a connection of the server. -/
def SvrCall.asks (a : Addr) : SvrCall → Bool
  | .getConn b => b = a
  | _ => false

/-- The call adds no connection of the server and removes none. -/
def SvrCall.keeps (a : Addr) : SvrCall → Prop
  | .getConn _ => True
  | .addSvrConn _ b _ => b ≠ a
  | .rmSvrConn b _ => b ≠ a

namespace SvrMgr

/-- The state after a call. -/
def call (w : World) : SvrCall → World
  | .getConn a => (getConn a w).2
  | .addSvrConn env a handle => addSvrConn env a handle w
  | .rmSvrConn a handle => rmSvrConn a handle w

/-- What the calls of getConn for the server return. -/
def answers (a : Addr) : List SvrCall → World → List Int
  | [], _ => []
  | c :: cs, w => (if c.asks a then [(getConn a w).1] else []) ++ answers a cs (call w c)

/-! ## §2. One call. -/

/-- getConn answers with the handle whose turn it is, and advances nPos. -/
theorem getConn_turn {w : World} {a : Addr} {s : SServer} {handle : Int}
    (hs : w.mapSvr a = some s) (hstat : s.eStat = .normal)
    (hh : s.handleList[s.nPos.toNat % s.handleList.length]? = some handle) :
    getConn a w = (handle, w.setSvr a (some { s with nPos := s.nPos + 1 })) := by
  have hne : s.eStat ≠ .unnormal := by
    rw [hstat]
    exact fun h => STATUS.noConfusion h
  unfold getConn
  simp only [hs, if_neg hne, hh]
  rfl

theorem edits_mapSvr_ne {w w' : World} {a b : Addr} (h : w.Edits b w') (hab : a ≠ b) :
    w'.mapSvr a = w.mapSvr a := by
  rcases h with rfl | ⟨s, s', -, rfl⟩
  · rfl
  · exact Function.update_of_ne hab _ _

/-- A call about another server leaves the entry as it was. -/
theorem call_other {w : World} {a : Addr} {c : SvrCall} (hk : c.keeps a)
    (hc : c.asks a = false) : (call w c).mapSvr a = w.mapSvr a := by
  cases c with
  | getConn b =>
      have hab : a ≠ b := fun h => of_decide_eq_false hc h.symm
      exact edits_mapSvr_ne (getConn_edits b w) hab
  | addSvrConn env b handle =>
      exact edits_mapSvr_ne (addSvrConn_edits env b handle w) (Ne.symm hk)
  | rmSvrConn b handle =>
      exact edits_mapSvr_ne (rmSvrConn_edits b handle w) (Ne.symm hk)

/-! ## §3. A sequence of calls. -/

/-- **The answers are turns**: as long as nPos does not wrap before a call, the calls for
the server go through its handle_list, whatever else is called. -/
theorem answers_eq_turns {a : Addr} {l : List Int} (hl : 0 < l.length) (calls : List SvrCall) :
    ∀ {w : World} {s : SServer} {d : Nat}, w.mapSvr a = some s → s.eStat = .normal →
      s.handleList = l → (0 < calls.countP (SvrCall.asks a) → s.nPos.toNat = d) →
      d + calls.countP (SvrCall.asks a) ≤ UInt64.size → (∀ c ∈ calls, c.keeps a) →
      answers a calls w = turns l d (calls.countP (SvrCall.asks a)) := by
  induction calls with
  | nil => exact fun _ _ _ _ _ _ => rfl
  | cons c cs ih =>
      intro w s d hs hstat hlist hpos hwrap hkeep
      have hkeep' : ∀ c ∈ cs, c.keeps a := fun c' h => hkeep c' (List.mem_cons_of_mem _ h)
      rw [answers]
      cases hc : c.asks a with
      | false =>
          -- the entry is the same for the calls behind it
          have hcount : (c :: cs).countP (SvrCall.asks a) = cs.countP (SvrCall.asks a) :=
            List.countP_cons_of_neg (by rw [hc]; decide)
          have hs' := (call_other (w := w) (hkeep c List.mem_cons_self) hc).trans hs
          rw [hcount] at hpos hwrap ⊢
          exact ih hs' hstat hlist hpos hwrap hkeep'
      | true =>
          have hcount : (c :: cs).countP (SvrCall.asks a) = cs.countP (SvrCall.asks a) + 1 :=
            List.countP_cons_of_pos hc
          rw [hcount] at hpos hwrap ⊢
          obtain rfl : c = .getConn a := by
            cases c with
            | getConn b => rw [of_decide_eq_true hc]
            | addSvrConn env b handle => exact absurd hc (by simp [SvrCall.asks])
            | rmSvrConn b handle => exact absurd hc (by simp [SvrCall.asks])
          subst hlist
          obtain rfl := hpos (Nat.succ_pos _)
          obtain ⟨handle, hh⟩ := exists_turn hl s.nPos.toNat
          have hturn := getConn_turn hs hstat hh
          have hs' : (call w (.getConn a)).mapSvr a = some { s with nPos := s.nPos + 1 } := by
            show (getConn a w).2.mapSvr a = _
            rw [hturn]
            exact Function.update_self _ _ _
          -- nPos is one more when there is another call to come
          have hnext : 0 < cs.countP (SvrCall.asks a) →
              (s.nPos + 1).toNat = s.nPos.toNat + 1 := by
            intro hmore
            have hlt : s.nPos.toNat + 1 < UInt64.size := by omega
            rw [UInt64.toNat_add]
            exact Nat.mod_eq_of_lt hlt
          rw [turns_succ hh, hturn, ih hs' hstat rfl hnext (by omega) hkeep']
          rfl

end SvrMgr

/-- **Connections are used evenly**: in every reachable state, for a server with `n`
handles and any nPos, the `k` calls of getConn for it in any sequence of calls that adds and
removes no connection of it return each of its handles ⌊k/n⌋ or ⌈k/n⌉ times, and nothing
else, as long as nPos does not wrap. -/
theorem getConn_even {ops : List Op} {w : World}
    (h : replay World.step World.start ops = some w) {a : Addr} {s : SServer}
    (hs : w.mapSvr a = some s) {n : Nat} (hn : s.handles.elems.length = n) (hpos : 1 ≤ n)
    (d : UInt64) (calls : List SvrCall) (hkeep : ∀ c ∈ calls, c.keeps a) {k : Nat}
    (hk : calls.countP (SvrCall.asks a) = k) (hwrap : d.toNat + k ≤ UInt64.size) :
    (SvrMgr.answers a calls (w.setSvr a (some { s with nPos := d }))).length = k
      ∧ (∀ handle ∈ SvrMgr.answers a calls (w.setSvr a (some { s with nPos := d })),
          handle ∈ s.handles)
      ∧ ∀ handle ∈ s.handles,
          (SvrMgr.answers a calls (w.setSvr a (some { s with nPos := d }))).count handle = k / n
          ∨ (SvrMgr.answers a calls (w.setSvr a (some { s with nPos := d }))).count handle
            = (k + n - 1) / n := by
  have hw := World.Sound.of_run h
  have henum : Enumerates s.handleList s.handles := hw.tracked.shadow a s hs
  have hlen : s.handleList.length = n := henum.length_eq.trans hn
  have hentry : (w.setSvr a (some { s with nPos := d })).mapSvr a
      = some { s with nPos := d } := Function.update_self _ _ _
  have hanswers : SvrMgr.answers a calls (w.setSvr a (some { s with nPos := d }))
      = turns s.handleList d.toNat k := by
    rw [← hk]
    exact SvrMgr.answers_eq_turns (by omega) calls hentry (hw.normal a s hs) rfl (fun _ => rfl)
      (by omega) hkeep
  rw [hanswers]
  refine ⟨length_turns (by omega) k _, ?_, ?_⟩
  · intro handle hh
    exact (henum.2 handle).mp (mem_of_mem_turns k hh)
  · intro handle hh
    rw [← hlen]
    exact turns_even henum.1 ((henum.2 handle).mpr hh) d.toNat k

/-- Two connections of a server, three calls for it and two calls for another one. -/
theorem getConn_even_interleaved :
    ∃ w s, replay World.step World.start
        [.addSvr .dial 1 (10, 80), .accept .dial 5 (10, 80), .addSvr .dial 1 (11, 80)] = some w
      ∧ w.mapSvr (10, 80) = some s ∧ s.handles.elems = [5, 3]
      ∧ (SvrMgr.answers (10, 80) [.getConn (10, 80), .rmSvrConn (11, 80) 4, .getConn (10, 80),
          .getConn (11, 80), .getConn (10, 80)] (w.setSvr (10, 80) (some { s with nPos := 7 }))
        ).length = 3
      ∧ ∀ handle ∈ s.handles,
          (SvrMgr.answers (10, 80) [.getConn (10, 80), .rmSvrConn (11, 80) 4, .getConn (10, 80),
            .getConn (11, 80), .getConn (10, 80)] (w.setSvr (10, 80) (some { s with nPos := 7 }))
          ).count handle = 3 / 2
          ∨ (SvrMgr.answers (10, 80) [.getConn (10, 80), .rmSvrConn (11, 80) 4,
            .getConn (10, 80), .getConn (11, 80), .getConn (10, 80)]
            (w.setSvr (10, 80) (some { s with nPos := 7 }))).count handle = (3 + 2 - 1) / 2 := by
  have hkeep : ∀ c ∈ ([.getConn (10, 80), .rmSvrConn (11, 80) 4, .getConn (10, 80),
      .getConn (11, 80), .getConn (10, 80)] : List SvrCall), c.keeps (10, 80) := by
    simp [SvrCall.keeps]
  have heven := @getConn_even
    [.addSvr .dial 1 (10, 80), .accept .dial 5 (10, 80), .addSvr .dial 1 (11, 80)] _ rfl
    (10, 80) _ rfl 2 rfl (by decide) 7
    [.getConn (10, 80), .rmSvrConn (11, 80) 4, .getConn (10, 80), .getConn (11, 80),
      .getConn (10, 80)] hkeep 3 (by decide) (by decide)
  exact ⟨_, _, rfl, rfl, rfl, heven.1, heven.2.2⟩

end TcpFramework
