/-
  TcpFramework.Dispatch — which server getSvrConn chooses.

  The loop of getSvrConn asks every server of the key in turn, and the `continue` at a
  server without a connection is its last statement: it goes on after a server that has
  one, too.  So the answer is that of the server asked last, and a call advances dwPos by
  the number of servers, which brings it back to the same place.

  Main results:
    * `getSvrConn_last` — a call is getConn of the server asked last.
    * `failover_iff` — a dead server in the last place hides the live ones.
    * `roundRobin_iff` — consecutive calls all choose one server.
-/
import TcpFramework.RoutingTables

namespace TcpFramework

open StepSystem

/-! ## §1. Servers that answer. -/

/-- The server is registered with a non-empty handle_list. -/
def World.Up (w : World) (a : Addr) : Prop := ∃ s, w.mapSvr a = some s ∧ s.handleList ≠ []

/-- Every server has the state it was constructed with: nothing sets eStat. -/
def World.AllNormal (w : World) : Prop := ∀ a s, w.mapSvr a = some s → s.eStat = .normal

namespace World.AllNormal

theorem setSvr {w : World} (hw : w.AllNormal) {a : Addr} {s : SServer} (hs : s.eStat = .normal) :
    (w.setSvr a (some s)).AllNormal := by
  intro b t ht
  by_cases hb : b = a
  · obtain rfl : s = t := by simpa [World.setSvr, hb] using ht
    exact hs
  · exact hw b t (by simpa [World.setSvr, hb] using ht)

theorem addSvr {w : World} (hw : w.AllNormal) (a : Addr) : (SvrMgr.addSvr a w).AllNormal := by
  rcases SvrMgr.addSvr_cases a w with ⟨-, he⟩ | ⟨-, he⟩
  · rw [he]
    exact hw
  · rw [he]
    exact hw.setSvr rfl

theorem rmSvr {w : World} (hw : w.AllNormal) (a : Addr) : (SvrMgr.rmSvr a w).AllNormal := by
  intro b t ht
  by_cases hb : b = a
  · simp [SvrMgr.rmSvr, hb] at ht
  · exact hw b t (by simpa [SvrMgr.rmSvr, hb] using ht)

theorem addSvrConn {w : World} (hw : w.AllNormal) (env : Env) (a : Addr) (h : Int) :
    (SvrMgr.addSvrConn env a h w).AllNormal := by
  rcases SvrMgr.addSvrConn_cases env a h w with ⟨-, he⟩ | ⟨s, hs, -, he⟩
  · rw [he]
    exact hw
  · rw [he]
    exact hw.setSvr (hw a s hs)

theorem rmSvrConn {w : World} (hw : w.AllNormal) (a : Addr) (h : Int) :
    (SvrMgr.rmSvrConn a h w).AllNormal := by
  rcases SvrMgr.rmSvrConn_cases a h w with ⟨-, he⟩ | ⟨s, hs, -, he⟩
  · rw [he]
    exact hw
  · rw [he]
    exact hw.setSvr (hw a s hs)

theorem getConn {w : World} (hw : w.AllNormal) (a : Addr) :
    (SvrMgr.getConn a w).2.AllNormal := by
  rcases SvrMgr.getConn_cases a w with he | ⟨s, h, hs, -, he⟩
  · rw [he]
    exact hw
  · rw [he]
    exact hw.setSvr (hw a s hs)

theorem establish {w : World} (hw : w.AllNormal) (env : Env) (h : Int) (peer : Addr)
    (o : Origin) : (w.establish env h peer o).AllNormal := by
  apply World.AllNormal.addSvrConn
  cases w.mConn h <;> exact hw

theorem handleClose {w : World} (hw : w.AllNormal) (c : DASvcHandler) :
    (c.handleClose w).AllNormal := by
  unfold DASvcHandler.handleClose ConnMgr.rmConn
  split
  · exact hw
  · exact rmSvrConn (w := { w with mConn := Function.update w.mConn c.handle none }) hw c.peer
      c.handle

theorem connSvr {w : World} (hw : w.AllNormal) (env : Env) (a : Addr) :
    (SvrMgr.connSvr env a w).2.AllNormal := by
  rcases SvrMgr.connSvr_cases env a w with he | ⟨h, -, -, he⟩
  · rw [he]
    exact hw
  · rw [he]
    exact hw.establish env h a .connected

theorem closeSvr {w : World} (hw : w.AllNormal) (a : Addr) :
    (SvrMgr.closeSvr a w).AllNormal := by
  unfold SvrMgr.closeSvr
  split
  · exact hw
  · refine List.foldlRecOn _ _ hw (fun w hw h _ => ?_)
    unfold ConnMgr.close
    split
    · exact hw.handleClose _
    · exact hw

theorem trims {w : World} (hw : w.AllNormal) (a : Addr) (n : Nat) :
    ((ProxyMgr.trimSvr a)^[n] w).AllNormal := by
  induction n generalizing w with
  | zero => exact hw
  | succ n ih =>
      apply ih
      unfold ProxyMgr.trimSvr
      split
      · exact (hw.getConn a).rmSvrConn a _
      · exact hw.getConn a

theorem tableInvariant : TableInvariant World.AllNormal where
  proxy := fun _ _ hw => hw
  register := fun env a _ hw _ => (hw.addSvr a).connSvr env a
  drop := fun a _ hw => (hw.closeSvr a).rmSvr a
  reBuildSvr := by
    intro env a w hw
    unfold ProxyMgr.reBuildSvr
    split
    · exact hw.connSvr env a
    · split
      · exact hw.trims a _
      · exact hw
  getConn := fun a _ hw => hw.getConn a

theorem of_run {ops : List Op} {w : World} (h : replay World.step World.start ops = some w) :
    w.AllNormal := by
  refine replay_invariant' (fun w op w' hw hs => ?_) ops _ w ?_ h
  · exact tableInvariant.step (fun env h peer _ _ _ => hw.establish env h peer .accepted)
      (fun _ c _ _ => hw.handleClose c) hw hs
  · intro a s hs
    simp [World.start] at hs

end World.AllNormal

/-- What the answers of getConn rest on, in every reachable state. -/
structure World.Sound (w : World) : Prop where
  tracked : w.Tracked
  normal : w.AllNormal

theorem World.Sound.getConn {w : World} (hw : w.Sound) (a : Addr) :
    (SvrMgr.getConn a w).2.Sound := ⟨hw.tracked.getConn a, hw.normal.getConn a⟩

theorem World.Sound.nextPos {w : World} (hw : w.Sound) (key : Int) :
    (ProxyMgr.nextPos key w).Sound := ⟨hw.tracked.withProxy _, hw.normal⟩

/-- **getConn answers -1 exactly for a server that is not up.** -/
theorem SvrMgr.getConn_eq_neg_one {w : World} (hw : w.Sound) (a : Addr) :
    (SvrMgr.getConn a w).1 = -1 ↔ ¬ w.Up a := by
  cases hs : w.mapSvr a with
  | none => simp [SvrMgr.getConn, World.Up, hs]
  | some s =>
      have hstat : s.eStat ≠ .unnormal := by
        rw [hw.normal a s hs]
        exact fun h => STATUS.noConfusion h
      by_cases hnil : s.handleList = []
      · simp [SvrMgr.getConn, World.Up, hs, hstat, hnil]
      · have hlen : 0 < s.handleList.length := List.length_pos_iff.mpr hnil
        have hlt := Nat.mod_lt s.nPos.toNat hlen
        have hget : (SvrMgr.getConn a w).1 = s.handleList[s.nPos.toNat % s.handleList.length] := by
          simp [SvrMgr.getConn, hs, hstat, List.getElem?_eq_getElem hlt]
        -- a handle in the list is the descriptor of an open connection
        have hmem := (hw.tracked.shadow a s hs).2 _ |>.mp (List.getElem_mem hlt)
        obtain ⟨c, hc, -⟩ := hw.tracked.listed a _ ⟨s, hs, hmem⟩
        have hpos := (hw.tracked.own _ c hc).2.1
        constructor
        · intro h
          rw [hget] at h
          omega
        · exact fun h => absurd ⟨s, hs, hnil⟩ h

/-! ## §2. One call of getSvrConn. -/

/-- The key is there, with this server_list and this dwPos. -/
def World.AtTurn (w : World) (key : Int) (l : List Addr) (d : UInt64) : Prop :=
  ∃ p, w.mapProxy.find key = some p ∧ p.serverList = l ∧ p.dwPos = d

/-- The same handles are listed, and the same servers are up. -/
structure World.SameConns (w w' : World) : Prop where
  lists : ∀ a h, w'.Lists a h ↔ w.Lists a h
  up : ∀ a, w'.Up a ↔ w.Up a

theorem World.SameConns.trans {w w' w'' : World} (h : w.SameConns w') (h' : w'.SameConns w'') :
    w.SameConns w'' :=
  ⟨fun a j => (h'.lists a j).trans (h.lists a j), fun a => (h'.up a).trans (h.up a)⟩

theorem SvrMgr.getConn_sameConns (a : Addr) (w : World) :
    w.SameConns (SvrMgr.getConn a w).2 := by
  refine ⟨fun b j => SvrMgr.lists_getConn a b w j, fun b => ?_⟩
  rcases SvrMgr.getConn_cases a w with he | ⟨s, h, hs, -, he⟩
  · rw [he]
  · rw [he]
    by_cases hb : b = a
    · simp [World.Up, World.setSvr, hb, hs]
    · simp [World.Up, World.setSvr, hb]

namespace ProxyMgr

theorem nextPos_atTurn {w : World} {key : Int} {l : List Addr} {d : UInt64}
    (h : w.AtTurn key l d) : (nextPos key w).AtTurn key l (d + 1) := by
  obtain ⟨p, hp, hl, hd⟩ := h
  exact ⟨{ p with dwPos := p.dwPos + 1 }, by simp [nextPos, hp], hl, by rw [← hd]⟩

theorem getConn_atTurn {w : World} {key : Int} {l : List Addr} {d : UInt64}
    (h : w.AtTurn key l d) (a : Addr) : (SvrMgr.getConn a w).2.AtTurn key l d := by
  unfold World.AtTurn
  rw [(SvrMgr.getConn_edits a w).onlySvr.mapProxy]
  exact h

/-- The place of the server that is asked `n` turns after `d`. -/
def turn (l : List Addr) (d : UInt64) (n : Nat) : Nat := (d + UInt64.ofNat n).toNat % l.length

/-- One turn of the loop. -/
theorem getSvrConnLoop_turn {w : World} {key : Int} {l : List Addr} {d : UInt64}
    (h : w.AtTurn key l d) {a : Addr} (ha : l[turn l d 1]? = some a) (n : Nat) (handle : Int) :
    getSvrConnLoop key (n + 1) handle w
      = getSvrConnLoop key n (SvrMgr.getConn a (nextPos key w)).1
          (SvrMgr.getConn a (nextPos key w)).2 := by
  obtain ⟨p, hp, rfl, rfl⟩ := h
  have ha' : p.serverList[(p.dwPos + 1).toNat % p.serverList.length]? = some a := ha
  rw [getSvrConnLoop]
  simp only [hp, ha']

/-- **The loop answers with the last server it asks**, whatever the others have. -/
theorem getSvrConnLoop_last {key : Int} {l : List Addr} (hl : l ≠ []) (n : Nat) :
    ∀ {w : World} {d : UInt64} (handle : Int), w.Sound → w.AtTurn key l d →
      ∃ a w', l[turn l d (n + 1)]? = some a ∧ w'.Sound ∧ w.SameConns w'
        ∧ w'.AtTurn key l (d + UInt64.ofNat (n + 1))
        ∧ getSvrConnLoop key (n + 1) handle w = SvrMgr.getConn a w' := by
  induction n with
  | zero =>
      intro w d handle hw h
      have hlt : turn l d 1 < l.length := Nat.mod_lt _ (List.length_pos_iff.mpr hl)
      have ha := List.getElem?_eq_getElem hlt
      refine ⟨_, nextPos key w, ha, hw.nextPos key, ⟨fun _ _ => Iff.rfl, fun _ => Iff.rfl⟩,
        nextPos_atTurn h, ?_⟩
      rw [getSvrConnLoop_turn h ha]
      rfl
  | succ n ih =>
      intro w d handle hw h
      have hlt : turn l d 1 < l.length := Nat.mod_lt _ (List.length_pos_iff.mpr hl)
      have ha := List.getElem?_eq_getElem hlt
      -- the rest of the loop starts one turn later
      have hd : d + 1 + UInt64.ofNat (n + 1) = d + UInt64.ofNat (n + 1 + 1) := by
        rw [UInt64.ofNat_add (n + 1) 1, UInt64.add_assoc, UInt64.add_comm 1]
        rfl
      obtain ⟨b, w', hb, hw', hsame, hturn, hloop⟩ :=
        ih (SvrMgr.getConn l[turn l d 1] (nextPos key w)).1
          ((hw.nextPos key).getConn l[turn l d 1]) (getConn_atTurn (nextPos_atTurn h) _)
      refine ⟨b, w', ?_, hw', ?_, hd ▸ hturn, ?_⟩
      · rw [← hb]
        unfold turn
        rw [hd]
      · have hget := SvrMgr.getConn_sameConns l[turn l d 1] (nextPos key w)
        exact World.SameConns.trans ⟨hget.lists, hget.up⟩ hsame
      · rw [getSvrConnLoop_turn h ha, hloop]

/-- **A call of getSvrConn** is getConn of the server asked last, and advances dwPos by the
number of servers. -/
theorem getSvrConn_last {w : World} (hw : w.Sound) {key : Int} {l : List Addr} {d : UInt64}
    (hl : l ≠ []) (h : w.AtTurn key l d) :
    ∃ a w', l[turn l d l.length]? = some a ∧ w'.Sound ∧ w.SameConns w'
      ∧ w'.AtTurn key l (d + UInt64.ofNat l.length)
      ∧ getSvrConn key w = SvrMgr.getConn a w' := by
  obtain ⟨n, hn⟩ : ∃ n, l.length = n + 1 :=
    Nat.exists_eq_succ_of_ne_zero (fun h0 => hl (List.length_eq_zero_iff.mp h0))
  obtain ⟨a, w', ha, hw', hsame, hturn, hloop⟩ := getSvrConnLoop_last hl n (-1) hw h
  obtain ⟨p, hp, hpl, hpd⟩ := h
  refine ⟨a, w', hn ▸ ha, hw', hsame, hn ▸ hturn, ?_⟩
  simp only [getSvrConn, hp, hpl, hn, hloop]

end ProxyMgr

/-! ## §3. Failover. -/

/-- dwPos of a key is set. -/
def World.atPos (w : World) (key : Int) (d : UInt64) : World :=
  { w with mapProxy := w.mapProxy.modify key fun p => { p with dwPos := d } }

theorem World.Sound.atPos {w : World} (hw : w.Sound) (key : Int) (d : UInt64) :
    (w.atPos key d).Sound := ⟨hw.tracked.withProxy _, hw.normal⟩

theorem World.Sound.of_run {ops : List Op} {w : World}
    (h : replay World.step World.start ops = some w) : w.Sound :=
  ⟨World.Tracked.of_run h, World.AllNormal.of_run h⟩

/-- Some server in the key's server_list is up. -/
def World.AnyUp (w : World) (key : Int) : Prop :=
  ∃ p a, w.mapProxy.find key = some p ∧ a ∈ p.serverList ∧ w.Up a

/-- The server in the place that a call of getSvrConn asks last is up. -/
def World.LastUp (w : World) (key : Int) : Prop :=
  ∃ p a, w.mapProxy.find key = some p
    ∧ p.serverList[ProxyMgr.turn p.serverList p.dwPos p.serverList.length]? = some a ∧ w.Up a

/-- getSvrConn finds a connection of one of the key's servers when one of them is up, and
returns -1 only when none is. -/
structure World.FailsOver (w : World) (key : Int) : Prop where
  found : w.AnyUp key → (ProxyMgr.getSvrConn key w).1 ≠ -1
    ∧ ∃ p a s, w.mapProxy.find key = some p ∧ a ∈ p.serverList ∧ w.mapSvr a = some s
      ∧ (ProxyMgr.getSvrConn key w).1 ∈ s.handles
  refused : (ProxyMgr.getSvrConn key w).1 = -1 → ¬ w.AnyUp key

theorem World.Sound.failsOver_iff {w : World} (hw : w.Sound) (key : Int) :
    w.FailsOver key ↔ (w.AnyUp key → w.LastUp key) := by
  constructor
  · intro hf hany
    obtain ⟨p, b, hp, hb, -⟩ := id hany
    obtain ⟨a, w', ha, hw', hsame, -, hcall⟩ :=
      ProxyMgr.getSvrConn_last hw (List.ne_nil_of_mem hb) ⟨p, hp, rfl, rfl⟩
    -- a call that finds a handle has it from the last server
    have hne := (hf.found hany).1
    rw [hcall, ne_eq, SvrMgr.getConn_eq_neg_one hw' a, not_not] at hne
    exact ⟨p, a, hp, ha, (hsame.up a).mp hne⟩
  · intro hlast
    have hfound : w.AnyUp key → (ProxyMgr.getSvrConn key w).1 ≠ -1
        ∧ ∃ p a s, w.mapProxy.find key = some p ∧ a ∈ p.serverList ∧ w.mapSvr a = some s
          ∧ (ProxyMgr.getSvrConn key w).1 ∈ s.handles := by
      intro hany
      obtain ⟨p, a, hp, ha, hup⟩ := hlast hany
      have hmem := List.mem_of_getElem? ha
      obtain ⟨b, w', hb, hw', hsame, -, hcall⟩ :=
        ProxyMgr.getSvrConn_last hw (List.ne_nil_of_mem hmem) ⟨p, hp, rfl, rfl⟩
      obtain rfl : a = b := Option.some.inj (ha.symm.trans hb)
      have hne : (SvrMgr.getConn a w').1 ≠ -1 := by
        rw [ne_eq, SvrMgr.getConn_eq_neg_one hw' a, not_not]
        exact (hsame.up a).mpr hup
      have hlist := SvrMgr.getConn_handle hw'.tracked.shadow hne
      rw [hcall]
      obtain ⟨s, hs, hh⟩ := (hsame.lists a _).mp hlist
      exact ⟨hne, p, a, s, hp, hmem, hs, hh⟩
    exact ⟨hfound, fun hneg hany => (hfound hany).1 hneg⟩

/-- **Failover**, exactly when the server asked last is up or no server is: in every
reachable state, for every key and every dwPos. -/
theorem failover_iff {ops : List Op} {w : World}
    (h : replay World.step World.start ops = some w) (key : Int) (d : UInt64) :
    (w.atPos key d).FailsOver key
      ↔ ((w.atPos key d).AnyUp key → (w.atPos key d).LastUp key) :=
  ((World.Sound.of_run h).atPos key d).failsOver_iff key

/-- The second of two servers cannot be connected to; a call that ends at the first one
answers with its connection. -/
theorem failover_iff_first_up :
    ∃ w, replay World.step World.start [.addSvr .dial 1 (10, 80), .addSvr .refuse 1 (11, 80)]
        = some w
      ∧ (w.atPos 1 4).FailsOver 1 ∧ (ProxyMgr.getSvrConn 1 (w.atPos 1 4)).1 = 3 := by
  refine ⟨_, rfl, (@failover_iff [.addSvr .dial 1 (10, 80), .addSvr .refuse 1 (11, 80)] _ rfl
    1 4).mpr (fun _ => ?_), by decide⟩
  exact ⟨_, (10, 80), rfl, rfl, _, rfl, List.cons_ne_nil _ _⟩

/-- The first of two servers cannot be connected to, and getSvrConn asks it last: it returns
-1 although the second one has a connection. -/
theorem failover_hidden :
    ∃ w, replay World.step World.start [.addSvr .refuse 1 (10, 80), .addSvr .dial 1 (11, 80)]
        = some w
      ∧ (w.atPos 1 0).AnyUp 1 ∧ ¬ (w.atPos 1 0).FailsOver 1 := by
  have hany : ∃ w, replay World.step World.start
      [.addSvr .refuse 1 (10, 80), .addSvr .dial 1 (11, 80)] = some w
        ∧ (w.atPos 1 0).AnyUp 1 ∧ (ProxyMgr.getSvrConn 1 (w.atPos 1 0)).1 = -1 := by
    refine ⟨_, rfl, ⟨_, (11, 80), rfl, ?_, _, rfl, List.cons_ne_nil _ _⟩, by decide⟩
    exact List.mem_cons_of_mem _ List.mem_cons_self
  obtain ⟨w, hrun, hup, hneg⟩ := hany
  exact ⟨w, hrun, hup, fun hf => hf.refused hneg hup⟩

/-! ## §4. Consecutive calls. -/

/-- The handles that `n` consecutive calls of getSvrConn return. -/
def ProxyMgr.calls (key : Int) : Nat → World → List Int
  | 0, _ => []
  | n + 1, w => (getSvrConn key w).1 :: calls key n (getSvrConn key w).2

/-- The handles belong to the servers of the list, one to each of them. -/
def World.EachOnce (w : World) (l : List Addr) (handles : List Int) : Prop :=
  ∃ chosen : List Addr, chosen.Perm l ∧ List.Forall₂ (fun h a => w.Lists a h) handles chosen

namespace ProxyMgr

theorem calls_length (key : Int) (n : Nat) : ∀ w : World, (calls key n w).length = n := by
  induction n with
  | zero => exact fun _ => rfl
  | succ n ih =>
      intro w
      show (calls key n (getSvrConn key w).2).length + 1 = n + 1
      rw [ih]

/-- A call of getSvrConn ends at the place where it began. -/
theorem turn_length {l : List Addr} {d : UInt64} (h : d.toNat + l.length < UInt64.size) :
    turn l d l.length = d.toNat % l.length := by
  have hsize : UInt64.size = 18446744073709551616 := rfl
  have hn : (UInt64.ofNat l.length).toNat = l.length := by
    rw [UInt64.toNat_ofNat']
    omega
  unfold turn
  rw [UInt64.toNat_add, hn, Nat.mod_eq_of_lt h, Nat.add_mod_right]

/-- **Consecutive calls all choose the same server**, the one at place dwPos, as long as
dwPos does not wrap. -/
theorem calls_one_server {key : Int} {l : List Addr} {a : Addr} (k : Nat) :
    ∀ {w : World} {d : UInt64}, w.Sound → w.AtTurn key l d → (∀ b ∈ l, w.Up b) →
      l[d.toNat % l.length]? = some a → d.toNat + k * l.length < UInt64.size →
      ∀ h ∈ calls key k w, w.Lists a h := by
  induction k with
  | zero => exact fun _ _ _ _ _ h hh => absurd hh List.not_mem_nil
  | succ k ih =>
      intro w d hw hturn hall ha hwrap h hh
      have hal : a ∈ l := List.mem_of_getElem? ha
      have hsize : UInt64.size = 18446744073709551616 := rfl
      have hwrap' : d.toNat + l.length + k * l.length < UInt64.size := by
        rw [Nat.succ_mul] at hwrap
        omega
      obtain ⟨b, w', hb, hw', hsame, hturn', hcall⟩ :=
        getSvrConn_last hw (List.ne_nil_of_mem hal) hturn
      rw [turn_length (by omega)] at hb
      obtain rfl : a = b := Option.some.inj (ha.symm.trans hb)
      have hne : (SvrMgr.getConn a w').1 ≠ -1 := by
        rw [ne_eq, SvrMgr.getConn_eq_neg_one hw' a, not_not]
        exact (hsame.up a).mpr (hall a hal)
      have hsame' := hsame.trans (SvrMgr.getConn_sameConns a w')
      have hh' : h = (SvrMgr.getConn a w').1 ∨ h ∈ calls key k (SvrMgr.getConn a w').2 := by
        rw [← hcall]
        exact List.mem_cons.mp hh
      rcases hh' with rfl | hh'
      · exact (hsame.lists a _).mp (SvrMgr.getConn_handle hw'.tracked.shadow hne)
      · -- the next call starts `l.length` later, at the same place
        have hpos : (d + UInt64.ofNat l.length).toNat = d.toNat + l.length := by
          rw [UInt64.toNat_add, UInt64.toNat_ofNat']
          omega
        refine (hsame'.lists a h).mp (ih (hw'.getConn a) (getConn_atTurn hturn' a)
          (fun b hb => (hsame'.up b).mpr (hall b hb)) ?_ (by omega) h hh')
        rw [hpos, Nat.add_mod_right]
        exact ha

end ProxyMgr

/-- A handle is listed under one server only. -/
theorem World.Tracked.listed_once {w : World} (hw : w.Tracked) {a b : Addr} {h : Int}
    (ha : w.Lists a h) (hb : w.Lists b h) : a = b := by
  obtain ⟨c, hc, hp⟩ := hw.listed a h ha
  obtain ⟨c', hc', hp'⟩ := hw.listed b h hb
  obtain rfl : c = c' := Option.some.inj (hc.symm.trans hc')
  exact hp.symm.trans hp'

/-- Handles of one server cannot be of different ones. -/
theorem World.Tracked.chosen_eq {w : World} (hw : w.Tracked) {a : Addr} {handles : List Int}
    {chosen : List Addr} (h : List.Forall₂ (fun h a => w.Lists a h) handles chosen) :
    (∀ h ∈ handles, w.Lists a h) → ∀ b ∈ chosen, b = a := by
  induction h with
  | nil => exact fun _ b hb => absurd hb List.not_mem_nil
  | cons hhead _ ih =>
      intro hall b hb
      rcases List.mem_cons.mp hb with rfl | hb
      · exact hw.listed_once hhead (hall _ List.mem_cons_self)
      · exact ih (fun h hh => hall h (List.mem_cons_of_mem _ hh)) b hb

/-- **Round robin** over the servers of a key, exactly when there is one server: in every
reachable state in which all of them are up, from every dwPos that does not wrap during the
calls. -/
theorem roundRobin_iff {ops : List Op} {w : World}
    (h : replay World.step World.start ops = some w) {key : Int} {p : SProxy}
    (hp : w.mapProxy.find key = some p) (hn : 1 ≤ p.serverList.length)
    (hup : ∀ a ∈ p.serverList, w.Up a) (d : UInt64)
    (hwrap : d.toNat + p.serverList.length * p.serverList.length < UInt64.size) :
    (w.atPos key d).EachOnce p.serverList
        (ProxyMgr.calls key p.serverList.length (w.atPos key d))
      ↔ p.serverList.length = 1 := by
  have hw : (w.atPos key d).Sound := (World.Sound.of_run h).atPos key d
  have hturn : (w.atPos key d).AtTurn key p.serverList d :=
    ⟨{ p with dwPos := d }, by simp [World.atPos, hp], rfl, rfl⟩
  have hlt : d.toNat % p.serverList.length < p.serverList.length := Nat.mod_lt _ hn
  obtain ⟨a, ha⟩ : ∃ a, p.serverList[d.toNat % p.serverList.length]? = some a :=
    ⟨_, List.getElem?_eq_getElem hlt⟩
  have hsame := ProxyMgr.calls_one_server p.serverList.length hw hturn hup ha hwrap
  have hlen := ProxyMgr.calls_length key p.serverList.length (w.atPos key d)
  constructor
  · intro heach
    obtain ⟨chosen, hperm, hforall⟩ := heach
    have hchosen := hw.tracked.chosen_eq hforall hsame
    -- the servers of a key are pairwise different, and all those chosen are the same
    obtain ⟨r, -, hl⟩ := World.Routed.of_run h
    have hnd : chosen.Nodup := hperm.nodup_iff.mpr (hl key p (by simp) hp).1
    have hle : chosen.length ≤ 1 := by
      rw [List.eq_replicate_of_mem hchosen] at hnd
      exact List.nodup_replicate.mp hnd
    have hcl := hperm.length_eq
    omega
  · intro hone
    obtain ⟨b, hb⟩ := List.length_eq_one_iff.mp hone
    obtain ⟨handle, hh⟩ := List.length_eq_one_iff.mp (hlen.trans hone)
    obtain rfl : b = a := by simpa [hb, Nat.mod_one] using ha
    rw [hh] at hsame ⊢
    rw [hb]
    exact ⟨[b], List.Perm.refl _,
      List.Forall₂.cons (hsame handle List.mem_cons_self) List.Forall₂.nil⟩

/-- One server, asked once. -/
theorem roundRobin_iff_single :
    ∃ w, replay World.step World.start [.addSvr .dial 1 (10, 80)] = some w
      ∧ (w.atPos 1 5).EachOnce [(10, 80)] (ProxyMgr.calls 1 1 (w.atPos 1 5)) := by
  refine ⟨_, rfl, (@roundRobin_iff [.addSvr .dial 1 (10, 80)] _ rfl 1 _ rfl (by decide) ?_ 5
    (by decide)).mpr rfl⟩
  intro a ha
  obtain rfl : a = (10, 80) := List.mem_singleton.mp ha
  exact ⟨_, rfl, List.cons_ne_nil _ _⟩

/-- Two servers with a connection each: both calls choose the first one. -/
theorem roundRobin_stuck :
    ∃ w, replay World.step World.start [.addSvr .dial 1 (10, 80), .addSvr .dial 1 (11, 80)]
        = some w
      ∧ (w.atPos 1 0).Up (10, 80) ∧ (w.atPos 1 0).Up (11, 80)
      ∧ ProxyMgr.calls 1 2 (w.atPos 1 0) = [3, 3]
      ∧ ¬ (w.atPos 1 0).EachOnce [(10, 80), (11, 80)] (ProxyMgr.calls 1 2 (w.atPos 1 0)) := by
  have hstuck : ∃ w, replay World.step World.start
      [.addSvr .dial 1 (10, 80), .addSvr .dial 1 (11, 80)] = some w
        ∧ ((w.atPos 1 0).Up (10, 80) ∧ (w.atPos 1 0).Up (11, 80))
        ∧ (w.atPos 1 0).Lists (10, 80) 3 ∧ ProxyMgr.calls 1 2 (w.atPos 1 0) = [3, 3] :=
    ⟨_, rfl, ⟨⟨_, rfl, List.cons_ne_nil _ _⟩, ⟨_, rfl, List.cons_ne_nil _ _⟩⟩,
      ⟨_, rfl, List.mem_cons_self⟩, by decide⟩
  obtain ⟨w, hrun, hup, hlist, hcalls⟩ := hstuck
  refine ⟨w, hrun, hup.1, hup.2, hcalls, ?_⟩
  intro heach
  obtain ⟨chosen, hperm, hforall⟩ := heach
  have hall : ∀ h ∈ ProxyMgr.calls 1 2 (w.atPos 1 0), (w.atPos 1 0).Lists (10, 80) h := by
    rw [hcalls]
    intro h hh
    obtain rfl : h = 3 := by simpa using hh
    exact hlist
  have hw := (World.Sound.of_run hrun).atPos 1 0
  have hmem : ((11, 80) : Addr) ∈ chosen := hperm.mem_iff.mpr (by simp)
  exact absurd (hw.tracked.chosen_eq hforall hall (11, 80) hmem) (by decide)

end TcpFramework
