/-
  TcpFramework.ServerConns — ConnMgr and SvrMgr agree on the backend connections.

  What a server lists is open and connected to it (§3 of ConnTables).  For the converse,
  that no connection of connSvr is left open without a server that lists it, reBuild's
  trimming must not happen: it forgets handles without closing them.  It does not,
  because a server never lists more than two handles: one that connSvr opened, since
  connSvr is only called for a server that lists none, and one that a client opened from
  the server's own address, since no two clients share an address.

  Main results:
    * `Backed.handles_le_two` — the bound that makes trimming unreachable.
    * `server_conns_agree` — the agreement in every state of a run.
    * `reBuild_never_trims` — what is left of reBuild in such runs.
-/
import TcpFramework.ConnTables

namespace TcpFramework

open StepSystem

/-! ## §1. The invariant. -/

/-- Every connection that connSvr opened is listed under its peer, and there is at most
one connection for each origin and peer. -/
structure World.Backed (w : World) : Prop where
  tracked : w.Tracked
  backed : ∀ h c, w.fds h = some c → c.origin = .connected → w.Lists c.peer h
  one : ∀ h₁ h₂ c₁ c₂, w.fds h₁ = some c₁ → w.fds h₂ = some c₂ →
    c₁.origin = c₂.origin → c₁.peer = c₂.peer → h₁ = h₂

namespace World.Backed

open World

theorem start : World.start.Backed where
  tracked := Tracked.start
  backed := fun h c hc => by simp [World.start] at hc
  one := fun h₁ h₂ c₁ c₂ hc => by simp [World.start] at hc

/-- A change of SvrMgr alone that still lists what connSvr has opened. -/
theorem onlySvr {w w' : World} (hw : w.Backed) (ht : w'.Tracked) (hsame : w.OnlySvr w')
    (hl : ∀ h c, w.fds h = some c → c.origin = .connected → w.Lists c.peer h →
      w'.Lists c.peer h) : w'.Backed where
  tracked := ht
  backed := by
    rw [hsame.fds]
    exact fun h c hc ho => hl h c hc ho (hw.backed h c hc ho)
  one := by
    rw [hsame.fds]
    exact hw.one

/-- A connection that opens: the first of its origin and peer, and to a registered server
if connSvr opens it. -/
theorem establish {w : World} (hw : w.Backed) (env : Env) {h : Int} {peer : Addr} {o : Origin}
    (hpos : 0 ≤ h) (hfree : w.fds h = none)
    (hnew : ∀ j c, w.fds j = some c → c.origin = o → c.peer ≠ peer)
    (hreg : o = .connected → SvrMgr.isSvrExist peer w = true) :
    (w.establish env h peer o).Backed := by
  have hm : w.mConn h = none := by rw [hw.tracked.recorded, hfree]
  refine ⟨hw.tracked.establish env peer o hpos hfree, ?_, ?_⟩
  · intro j c hc ho
    rw [establish_lists hm]
    rcases (establish_open hm).mp hc with ⟨hj, rfl⟩ | ⟨-, hold⟩
    · exact Or.inr ⟨rfl, hj, hreg ho⟩
    · exact Or.inl (hw.backed j c hold ho)
  · intro j₁ j₂ c₁ c₂ hc₁ hc₂ ho hp
    -- each of the two is the new connection, or it was open before
    rcases (establish_open hm).mp hc₁ with ⟨hj₁, rfl⟩ | ⟨-, hold₁⟩
    · rcases (establish_open hm).mp hc₂ with ⟨hj₂, -⟩ | ⟨-, hold₂⟩
      · rw [hj₁, hj₂]
      · exact absurd hp.symm (hnew j₂ c₂ hold₂ ho.symm)
    · rcases (establish_open hm).mp hc₂ with ⟨-, rfl⟩ | ⟨-, hold₂⟩
      · exact absurd hp (hnew j₁ c₁ hold₁ ho)
      · exact hw.one j₁ j₂ c₁ c₂ hold₁ hold₂ ho hp

theorem handleClose {w : World} (hw : w.Backed) {c : DASvcHandler}
    (hc : w.fds c.handle = some c) : (c.handleClose w).Backed := by
  have hpos : 0 ≤ c.handle := (hw.tracked.own _ c hc).2.1
  refine ⟨hw.tracked.handleClose hc, ?_, ?_⟩
  · intro j d hd ho
    obtain ⟨hj, hold⟩ := (DASvcHandler.handleClose_open hpos).mp hd
    exact (DASvcHandler.handleClose_lists hpos d.peer j).mpr
      ⟨hw.backed j d hold ho, fun he => hj he.2⟩
  · intro j₁ j₂ c₁ c₂ hc₁ hc₂
    exact hw.one j₁ j₂ c₁ c₂ ((DASvcHandler.handleClose_open hpos).mp hc₁).2
      ((DASvcHandler.handleClose_open hpos).mp hc₂).2

/-! ## §2. Servers that come and go. -/

/-- `connSvr` for a registered server that lists no handle. -/
theorem connSvr {w : World} (hw : w.Backed) (env : Env) {a : Addr}
    (hreg : SvrMgr.isSvrExist a w = true) (hnone : ∀ j, ¬ w.Lists a j) :
    (SvrMgr.connSvr env a w).2.Backed := by
  rcases SvrMgr.connSvr_cases env a w with he | ⟨h, hpos, hfree, he⟩
  · rw [he]
    exact hw
  · rw [he]
    apply hw.establish env hpos hfree
    · intro j c hc ho hp
      exact hnone j (hp ▸ hw.backed j c hc ho)
    · exact fun _ => hreg

theorem register {w : World} (hw : w.Backed) (env : Env) {a : Addr}
    (hnone : w.mapSvr a = none) : (SvrMgr.connSvr env a (SvrMgr.addSvr a w)).2.Backed := by
  have hadd : SvrMgr.addSvr a w = w.setSvr a (some {}) := by
    simp [SvrMgr.addSvr, hnone, setSvr]
  have hw' : (SvrMgr.addSvr a w).Backed := by
    apply hw.onlySvr (hw.tracked.addSvr a)
    · rw [hadd]
      exact setSvr_onlySvr w a _
    · exact fun h c _ _ hl => (SvrMgr.lists_addSvr a c.peer w h).mpr hl
  apply hw'.connSvr env
  · rw [hadd, setSvr_exist, if_pos rfl]
    rfl
  · intro j hl
    obtain ⟨s, hs, -⟩ := (SvrMgr.lists_addSvr a a w j).mp hl
    rw [hnone] at hs
    exact absurd hs (by simp)

theorem close {w : World} (hw : w.Backed) (h : Int) : (ConnMgr.close h w).2.Backed := by
  rcases hw.tracked.close_cases h with ⟨-, he⟩ | ⟨c, -, hc, he⟩
  · rw [he]
    exact hw
  · rw [he]
    exact hw.handleClose hc

theorem closeSvr {w : World} (hw : w.Backed) (a : Addr) : (SvrMgr.closeSvr a w).Backed := by
  unfold SvrMgr.closeSvr
  split
  · exact hw
  · exact List.foldlRecOn _ _ hw (fun _ hw h _ => hw.close h)

/-- A server is forgotten after its connections are closed, so none is left behind. -/
theorem dropSvr {w : World} (hw : w.Backed) (a : Addr) : (ProxyMgr.dropSvr a w).Backed := by
  have hclosed := hw.closeSvr a
  apply hclosed.onlySvr (hw.tracked.dropSvr a) (setSvr_onlySvr _ a none)
  intro h c hc ho hl
  refine (SvrMgr.lists_rmSvr a c.peer _ h).mpr ⟨?_, hl⟩
  intro he
  rw [he] at hl
  exact hw.tracked.closeSvr_lists a h hl

/-! ## §3. reBuild. -/

/-- **A server never lists more than two handles.** -/
theorem handles_le_two {w : World} (hw : w.Backed) {a : Addr} {s : SServer}
    (hs : w.mapSvr a = some s) : s.handleList.length ≤ 2 := by
  obtain ⟨hnd, hmem⟩ := hw.tracked.shadow a s hs
  -- each handle is a connection to the server, known by its origin
  have hconn : ∀ h, h ∈ s.handleList → ∃ c, w.fds h = some c ∧ c.peer = a :=
    fun h hh => hw.tracked.listed a h ⟨s, hs, (hmem h).mp hh⟩
  match hlist : s.handleList with
  | [] => simp
  | [_] => simp
  | [_, _] => simp
  | h₁ :: h₂ :: h₃ :: rest =>
      rw [hlist] at hnd hconn
      obtain ⟨c₁, hc₁, hp₁⟩ := hconn h₁ (by simp)
      obtain ⟨c₂, hc₂, hp₂⟩ := hconn h₂ (by simp)
      obtain ⟨c₃, hc₃, hp₃⟩ := hconn h₃ (by simp)
      have h12 : c₁.origin ≠ c₂.origin := fun ho => by
        have he := hw.one h₁ h₂ c₁ c₂ hc₁ hc₂ ho (hp₁.trans hp₂.symm)
        simp [he] at hnd
      have h13 : c₁.origin ≠ c₃.origin := fun ho => by
        have he := hw.one h₁ h₃ c₁ c₃ hc₁ hc₃ ho (hp₁.trans hp₃.symm)
        simp [he] at hnd
      have h23 : c₂.origin ≠ c₃.origin := fun ho => by
        have he := hw.one h₂ h₃ c₂ c₃ hc₂ hc₃ ho (hp₂.trans hp₃.symm)
        simp [he] at hnd
      -- three connections, two origins
      exfalso
      revert h12 h13 h23
      cases c₁.origin <;> cases c₂.origin <;> cases c₃.origin <;> simp

/-- reBuild connects at no handle, and has nothing to trim. -/
theorem reBuildSvr {w : World} (hw : w.Backed) (env : Env) (a : Addr) :
    (ProxyMgr.reBuildSvr env a w).Backed := by
  cases hs : w.mapSvr a with
  | none => simpa [ProxyMgr.reBuildSvr, SvrMgr.getHandleNum, hs] using hw
  | some s =>
      have hnum : SvrMgr.getHandleNum a w = s.handleList.length := by
        simp [SvrMgr.getHandleNum, hs]
      have hle := hw.handles_le_two hs
      unfold ProxyMgr.reBuildSvr
      rw [hnum]
      by_cases h0 : (s.handleList.length : Int) = 0
      · rw [if_pos h0]
        apply hw.connSvr env
        · simp [SvrMgr.isSvrExist, hs]
        · rintro j ⟨s', hs', hj⟩
          obtain rfl : s = s' := Option.some.inj (hs.symm.trans hs')
          have hnil : s.handleList = [] := by simpa using h0
          have hjl := ((hw.tracked.shadow a s hs).2 j).mpr hj
          rw [hnil] at hjl
          exact absurd hjl List.not_mem_nil
      · rw [if_neg h0, if_neg (by omega)]
        exact hw

theorem getConn {w : World} (hw : w.Backed) (a : Addr) : (SvrMgr.getConn a w).2.Backed :=
  hw.onlySvr (hw.tracked.getConn a) (SvrMgr.getConn_edits a w).onlySvr
    (fun h c _ _ hl => (SvrMgr.lists_getConn a c.peer w h).mpr hl)

/-! ## §4. Runs. -/

theorem tableInvariant : TableInvariant World.Backed where
  proxy := fun _ m hw => ⟨hw.tracked.withProxy m, hw.backed, hw.one⟩
  register := fun env _ _ hw hnone => hw.register env hnone
  drop := fun a _ hw => hw.dropSvr a
  reBuildSvr := fun env a _ hw => hw.reBuildSvr env a
  getConn := fun a _ hw => hw.getConn a

end World.Backed

/-- An accepted connection does not have the peer address of an open accepted one. -/
def Op.distinctPeer (w : World) : Op → Prop
  | .accept _ _ peer => ∀ h c, w.fds h = some c → c.origin = .accepted → c.peer ≠ peer
  | _ => True

theorem World.Backed.step {w w' : World} {op : Op} (hok : op.distinctPeer w) (hw : w.Backed)
    (h : w.step op = some w') : w'.Backed := by
  apply World.Backed.tableInvariant.step _ _ hw h
  · intro env handle peer hop hpos hfree
    subst hop
    exact hw.establish env hpos hfree hok (fun ho => absurd ho (by simp))
  · intro handle c _ hc
    exact hw.handleClose (by rw [(hw.tracked.own handle c hc).1, hc])

/-- ConnMgr and SvrMgr agree: what a server lists is recorded in ConnMgr as an open
connection to that server, so it is listed under one server only; and an open connection
that connSvr created is listed under a registered server. -/
structure World.Agree (w : World) : Prop where
  listed : ∀ a s h, w.mapSvr a = some s → h ∈ s.handles →
    ∃ c, w.mConn h = some c ∧ w.fds h = some c ∧ c.peer = a
  single : ∀ a b s t h, w.mapSvr a = some s → w.mapSvr b = some t →
    h ∈ s.handles → h ∈ t.handles → a = b
  backed : ∀ h c, w.fds h = some c → c.origin = .connected →
    ∃ s, w.mapSvr c.peer = some s ∧ h ∈ s.handles

theorem World.Backed.agree {w : World} (hw : w.Backed) : w.Agree where
  listed := by
    intro a s h hs hh
    obtain ⟨c, hc, hp⟩ := hw.tracked.listed a h ⟨s, hs, hh⟩
    exact ⟨c, by rw [hw.tracked.recorded, hc], hc, hp⟩
  single := by
    intro a b s t h hs ht hh hh'
    obtain ⟨c, hc, hp⟩ := hw.tracked.listed a h ⟨s, hs, hh⟩
    obtain ⟨d, hd, hq⟩ := hw.tracked.listed b h ⟨t, ht, hh'⟩
    obtain rfl : c = d := Option.some.inj (hc.symm.trans hd)
    exact hp.symm.trans hq
  backed := hw.backed

/-- **ConnMgr and SvrMgr agree in every state of a run** in which no two open accepted
connections share a peer address. -/
theorem server_conns_agree (ops : List Op)
    (hok : Along World.step (fun w op => op.distinctPeer w) World.start ops) :
    Always World.step World.Agree World.start ops :=
  hok.always (fun _ _ _ hok hw h => hw.step hok h) (fun _ hw => hw.agree) ops World.start
    World.Backed.start

/-- A run in which a client has the server's own address, the connection of connSvr closes
and its descriptor is given to another client. -/
theorem server_conns_agree_reuse :
    Always World.step World.Agree World.start
      [.addSvr .dial 1 (10, 80), .accept .dial 4 (10, 80), .closed 3, .accept .dial 3 (11, 80),
        .reBuild .dial, .rmSvr 1 (10, 80)] := by
  apply server_conns_agree
  refine .cons trivial rfl (.cons ?_ rfl (.cons trivial rfl (.cons ?_ rfl
    (.cons trivial rfl (.cons trivial rfl trivial)))))
  · -- only the connection of connSvr is open
    intro h c hc ho
    have hfds : Function.update (fun _ => none) 3
      (some (⟨0, 3, (10, 80), .connected⟩ : DASvcHandler)) h = some c := hc
    by_cases hh : h = 3
    · subst hh
      obtain rfl := Option.some.inj hfds
      exact absurd ho (by decide)
    · simp [hh] at hfds
  · -- only the first client is
    intro h c hc _
    have hfds : Function.update (Function.update (Function.update (fun _ => none) 3
        (some (⟨0, 3, (10, 80), .connected⟩ : DASvcHandler))) 4
        (some ⟨1, 4, (10, 80), .accepted⟩)) 3 none h = some c := hc
    by_cases hh : h = 4
    · subst hh
      obtain rfl := Option.some.inj hfds
      decide
    · by_cases hh3 : h = 3
      · simp [hh3] at hfds
      · simp [hh, hh3] at hfds

/-! ## §5. The pass that is left of reBuild. -/

namespace ProxyMgr

/-- `reBuildSvr` without the trimming. -/
def reConnectSvr (env : Env) (a : Addr) (w : World) : World :=
  if SvrMgr.getHandleNum a w = 0 then (SvrMgr.connSvr env a w).2 else w

/-- `reBuild` without the trimming. -/
def reConnect (env : Env) (w : World) : World :=
  w.mapProxy.keys.elems.foldl
    (fun w key =>
      match w.mapProxy.find key with
      | none => w
      | some p => p.serverList.foldl (fun w a => reConnectSvr env a w) w)
    w

end ProxyMgr

/-- What was open is open, and what was listed is listed. -/
structure World.Grows (w w' : World) : Prop where
  fds : ∀ h c, w.fds h = some c → w'.fds h = some c
  lists : ∀ a h, w.Lists a h → w'.Lists a h

theorem World.Grows.refl (w : World) : w.Grows w := ⟨fun _ _ h => h, fun _ _ h => h⟩

theorem World.Grows.trans {w w' w'' : World} (h : w.Grows w') (h' : w'.Grows w'') :
    w.Grows w'' :=
  ⟨fun j c hc => h'.fds j c (h.fds j c hc), fun a j hl => h'.lists a j (h.lists a j hl)⟩

/-- reBuild, in the state `w`, is the pass without the trimming, and takes nothing away. -/
structure World.OnlyReconnects (w : World) : Prop where
  bounded : ∀ a s, w.mapSvr a = some s → s.handleList.length ≤ 2
  untrimmed : ∀ env, ProxyMgr.reBuild env w = ProxyMgr.reConnect env w
  grows : ∀ env, w.Grows (ProxyMgr.reBuild env w)

namespace World.Backed

open World

theorem reBuildSvr_eq {w : World} (hw : w.Backed) (env : Env) (a : Addr) :
    ProxyMgr.reBuildSvr env a w = ProxyMgr.reConnectSvr env a w := by
  cases hs : w.mapSvr a with
  | none => simp [ProxyMgr.reBuildSvr, ProxyMgr.reConnectSvr, SvrMgr.getHandleNum, hs]
  | some s =>
      have hnum : SvrMgr.getHandleNum a w = s.handleList.length := by
        simp [SvrMgr.getHandleNum, hs]
      have hle := hw.handles_le_two hs
      unfold ProxyMgr.reBuildSvr ProxyMgr.reConnectSvr
      rw [hnum, if_neg (by omega : ¬ ((s.handleList.length : Int) > 3))]

theorem reConnectSvr_grows {w : World} (hw : w.Backed) (env : Env) (a : Addr) :
    w.Grows (ProxyMgr.reConnectSvr env a w) := by
  unfold ProxyMgr.reConnectSvr
  split
  · rcases SvrMgr.connSvr_cases env a w with he | ⟨h, -, hfree, he⟩
    · rw [he]
      exact .refl w
    · have hm : w.mConn h = none := by rw [hw.tracked.recorded, hfree]
      rw [he]
      refine ⟨fun j c hc => (establish_open hm).mpr (Or.inr ⟨?_, hc⟩), fun b j hl =>
        (establish_lists hm b j).mpr (Or.inl hl)⟩
      rintro rfl
      rw [hfree] at hc
      exact absurd hc (by simp)
  · exact .refl w

/-- Two walks that agree at every turn, and only add to what is there. -/
theorem walk_eq {β : Type} {f g : World → β → World}
    (hturn : ∀ w b, w.Backed → f w b = g w b ∧ (f w b).Backed ∧ w.Grows (f w b)) (l : List β) :
    ∀ {w : World}, w.Backed →
      l.foldl f w = l.foldl g w ∧ (l.foldl f w).Backed ∧ w.Grows (l.foldl f w) := by
  induction l with
  | nil => exact fun hw => ⟨rfl, hw, .refl _⟩
  | cons b l ih =>
      intro w hw
      obtain ⟨hone, hback, hgrow⟩ := hturn w b hw
      obtain ⟨heq, hback', hgrow'⟩ := ih hback
      refine ⟨?_, hback', hgrow.trans hgrow'⟩
      rw [List.foldl_cons, List.foldl_cons, heq, hone]

theorem onlyReconnects {w : World} (hw : w.Backed) : w.OnlyReconnects := by
  have hsvr : ∀ env w a, w.Backed → ProxyMgr.reBuildSvr env a w = ProxyMgr.reConnectSvr env a w
      ∧ (ProxyMgr.reBuildSvr env a w).Backed ∧ w.Grows (ProxyMgr.reBuildSvr env a w) := by
    intro env w a hw
    refine ⟨hw.reBuildSvr_eq env a, hw.reBuildSvr env a, ?_⟩
    rw [hw.reBuildSvr_eq env a]
    exact hw.reConnectSvr_grows env a
  have hpass : ∀ env, ProxyMgr.reBuild env w = ProxyMgr.reConnect env w
      ∧ (ProxyMgr.reBuild env w).Backed ∧ w.Grows (ProxyMgr.reBuild env w) := by
    intro env
    refine walk_eq (fun w key hw => ?_) _ hw
    -- a turn is the walk over the servers of the key
    cases w.mapProxy.find key with
    | none => exact ⟨rfl, hw, .refl w⟩
    | some p => exact walk_eq (fun w a hw => hsvr env w a hw) p.serverList hw
  exact ⟨fun a s hs => hw.handles_le_two hs, fun env => (hpass env).1,
    fun env => (hpass env).2.2⟩

end World.Backed

/-- **reBuild never trims**: in every state of a run in which no two open accepted connections
share a peer address, no server lists more than two handles, and the pass opens connections
and does nothing else. -/
theorem reBuild_never_trims (ops : List Op)
    (hok : Along World.step (fun w op => op.distinctPeer w) World.start ops) :
    Always World.step World.OnlyReconnects World.start ops :=
  hok.always (fun _ _ _ hok hw h => hw.step hok h) (fun _ hw => hw.onlyReconnects) ops
    World.start World.Backed.start

/-- A server whose connection closes, and passes before and after. -/
theorem reBuild_never_trims_closed :
    Always World.step World.OnlyReconnects World.start
      [.addSvr .dial 1 (10, 80), .reBuild .dial, .closed 3, .reBuild .dial] :=
  reBuild_never_trims _ (.cons trivial rfl (.cons trivial rfl (.cons trivial rfl
    (.cons trivial rfl trivial))))

end TcpFramework
