/-
  TcpFramework.Finalize — ProxyMgr::finalize, and the service after it.

  The destructor of SVCMgr calls finalize first: every server of every key is closed and
  taken out of SvrMgr.  The routing stays as it is, so that ProxyMgr still lists servers
  that SvrMgr does not have; and the reactor, the timer thread with its reconnection
  timer and the workers are still at work then.

  Main results:
    * `finalize_closes` — finalize closes the backend connections and no others.
    * `finalize_final` — afterwards no dispatch finds a connection and no reconnection
      pass opens one, whatever runs on until something is added.
-/
import TcpFramework.ServerConns
import TcpFramework.UpdateRouter

namespace TcpFramework

open StepSystem

/-! ## §1. finalize. -/

namespace ProxyMgr

/-- A turn of the outer loop: the servers of the key are closed and unregistered. -/
def finalizeKey (w : World) (key : Int) : World :=
  match w.mapProxy.find key with
  | none => w
  | some p => p.serverList.foldl (fun w a => dropSvr a w) w

/-- `finalize`.  The keys stay, and so do the servers under them. -/
def finalize (w : World) : World := w.mapProxy.keys.elems.foldl finalizeKey w

open World

theorem finalizeKey_dropped {w : World} (hw : w.Tracked) (key : Int) :
    w.Dropped (fun a => a ∈ w.serversOf key) (finalizeKey w key)
      ∧ (finalizeKey w key).mapProxy = w.mapProxy := by
  unfold finalizeKey serversOf
  cases w.mapProxy.find key with
  | none => exact ⟨.none_of w (fun _ => List.not_mem_nil), rfl⟩
  | some p => exact ⟨dropAll_dropped p.serverList hw, (dropAll_routes p.serverList w).1⟩

theorem finalizeKey_tracked {w : World} (hw : w.Tracked) (key : Int) :
    (finalizeKey w key).Tracked := by
  unfold finalizeKey
  split
  · exact hw
  · exact List.foldlRecOn _ _ hw (fun _ hw a _ => hw.dropSvr a)

/-- The outer loop, over any list of keys. -/
theorem finalizeKeys_dropped (ks : List Int) :
    ∀ {w : World}, w.Tracked →
      w.Dropped (fun a => ∃ key ∈ ks, a ∈ w.serversOf key) (ks.foldl finalizeKey w) := by
  induction ks with
  | nil => exact fun {w} _ => .none_of w (fun _ ⟨_, hk, _⟩ => List.not_mem_nil hk)
  | cons key ks ih =>
      intro w hw
      obtain ⟨hdrop, hproxy⟩ := finalizeKey_dropped hw key
      refine (hdrop.trans (ih (finalizeKey_tracked hw key))).congr (fun a => ?_)
      -- the turn leaves the other keys their servers
      have hservers : ∀ k, (finalizeKey w key).serversOf k = w.serversOf k := fun k => by
        rw [serversOf, hproxy, serversOf]
      simp only [hservers, List.mem_cons, exists_eq_or_imp]

theorem finalize_tracked {w : World} (hw : w.Tracked) : (finalize w).Tracked :=
  List.foldlRecOn _ _ hw (fun _ hw key _ => finalizeKey_tracked hw key)

/-- **finalize drops every registered server.** -/
theorem finalize_dropped {w : World} (hw : w.Routed) (ht : w.Tracked) :
    w.Dropped (fun a => SvrMgr.isSvrExist a w = true) (finalize w) := by
  refine (finalizeKeys_dropped w.mapProxy.keys.elems ht).congr (fun a => ?_)
  rw [(hw.consistent ht).registered a]
  constructor
  · rintro ⟨key, -, ha⟩
    obtain ⟨p, hp, hm⟩ := mem_serversOf.mp ha
    exact ⟨key, p, hp, (((hw.consistent ht).serverList key p hp).2 a).mp hm⟩
  · rintro ⟨key, p, hp, hm⟩
    exact ⟨key, UnorderedMap.mem_keys_of_find hp,
      mem_serversOf.mpr ⟨p, hp, (((hw.consistent ht).serverList key p hp).2 a).mpr hm⟩⟩

end ProxyMgr

/-- What finalize does to connections and servers: the connections that were listed under a
server are closed, which are all that connSvr has opened, and no others; no server is
registered any more; ConnMgr has what is open. -/
structure World.Closes (w w' : World) : Prop where
  unregistered : ∀ a, w'.mapSvr a = none
  open_iff : ∀ h c, w'.fds h = some c ↔ w.fds h = some c ∧ ¬ w.Lists c.peer h
  clients : ∀ h c, w'.fds h = some c → c.origin = .accepted
  recorded : w'.mConn = w'.fds

theorem World.Backed.finalize {w : World} (hw : w.Backed) (hr : w.Routed) :
    w.Closes (ProxyMgr.finalize w) := by
  have ht := hw.tracked
  have hdrop := ProxyMgr.finalize_dropped hr ht
  have hopen : ∀ j c, (ProxyMgr.finalize w).fds j = some c
      ↔ w.fds j = some c ∧ ¬ w.Lists c.peer j := by
    intro j c
    rw [hdrop.fds j c]
    refine and_congr_right fun hc => not_congr ?_
    constructor
    · rintro ⟨a, -, hl⟩
      -- a handle is listed under the peer of its connection only
      obtain ⟨d, hd, hp⟩ := ht.listed a j hl
      obtain rfl : c = d := Option.some.inj (hc.symm.trans hd)
      rwa [hp]
    · intro hl
      obtain ⟨s, hs, -⟩ := id hl
      exact ⟨c.peer, by simp [SvrMgr.isSvrExist, hs], hl⟩
  refine ⟨fun a => ?_, hopen, fun j c hc => ?_, (ProxyMgr.finalize_tracked ht).recorded⟩
  · by_cases ha : SvrMgr.isSvrExist a w = true
    · exact hdrop.gone a ha
    · rw [hdrop.others a ha]
      simpa [SvrMgr.isSvrExist] using ha
  · cases ho : c.origin with
    | accepted => rfl
    | connected =>
        obtain ⟨hold, hnot⟩ := (hopen j c).mp hc
        exact absurd (hw.backed j c hold ho) hnot

theorem World.Backed.of_run {ops : List Op}
    (hok : Along World.step (fun w op => op.distinctPeer w) World.start ops) {w : World}
    (h : replay World.step World.start ops = some w) : w.Backed :=
  replay_invariant (fun _ _ _ hok hw hs => hw.step hok hs) ops World.start w World.Backed.start
    hok h

/-- **finalize closes the backends**: in every state reached by a run in which no two open
accepted connections share a peer address. -/
theorem finalize_closes {ops : List Op}
    (hok : Along World.step (fun w op => op.distinctPeer w) World.start ops) {w : World}
    (h : replay World.step World.start ops = some w) : w.Closes (ProxyMgr.finalize w) :=
  (World.Backed.of_run hok h).finalize (World.Routed.of_run h)

/-- A server and a client. -/
def serverAndClient : List Op := [.addSvr .dial 1 (10, 80), .accept .dial 4 (11, 80)]

theorem serverAndClient_distinct :
    Along World.step (fun w op => op.distinctPeer w) World.start serverAndClient := by
  refine .cons trivial rfl (.cons ?_ rfl trivial)
  -- only the connection to the server is open
  intro h c hc ho
  have hfds : Function.update (fun _ => none) 3
    (some (⟨0, 3, (10, 80), .connected⟩ : DASvcHandler)) h = some c := hc
  by_cases hh : h = 3
  · subst hh
    obtain rfl := Option.some.inj hfds
    exact absurd ho (by decide)
  · simp [hh] at hfds

/-- The client stays. -/
theorem finalize_closes_server :
    ∃ w, replay World.step World.start serverAndClient = some w
      ∧ w.Closes (ProxyMgr.finalize w)
      ∧ (ProxyMgr.finalize w).fds 4 = some ⟨1, 4, (11, 80), .accepted⟩ := by
  have hclose := finalize_closes serverAndClient_distinct rfl
  exact ⟨_, rfl, hclose, by decide⟩

/-! ## §2. Afterwards. -/

/-- SvrMgr has no server. -/
def World.NoServer (w : World) : Prop := ∀ a, w.mapSvr a = none

namespace World.NoServer

variable {w : World}

theorem getConn (hw : w.NoServer) (a : Addr) : SvrMgr.getConn a w = (-1, w) := by
  simp [SvrMgr.getConn, hw a]

theorem reBuildSvr (hw : w.NoServer) (env : Env) (a : Addr) :
    ProxyMgr.reBuildSvr env a w = w := by
  simp [ProxyMgr.reBuildSvr, SvrMgr.getHandleNum, hw a]

/-- A reconnection pass does nothing: a server that SvrMgr does not have has -1 handles,
which is neither 0 nor more than 3. -/
theorem reBuild (hw : w.NoServer) (env : Env) : ProxyMgr.reBuild env w = w := by
  refine List.foldlRecOn (motive := (· = w)) _ _ rfl (fun w' hw' key _ => ?_)
  obtain rfl := hw'
  split
  · rfl
  · refine List.foldlRecOn (motive := (· = w')) _ _ rfl (fun w'' hw'' a _ => ?_)
    obtain rfl := hw''
    exact hw.reBuildSvr env a

theorem dropSvr (hw : w.NoServer) (a : Addr) : ProxyMgr.dropSvr a w = w := by
  have hclose : SvrMgr.closeSvr a w = w := by simp [SvrMgr.closeSvr, hw a]
  have hsame : Function.update w.mapSvr a none = w.mapSvr :=
    Function.update_eq_self_iff.mpr (hw a).symm
  rw [ProxyMgr.dropSvr, hclose, SvrMgr.rmSvr, hsame]

/-- rmSvr has the routing to change, and nothing else. -/
theorem rmSvr (hw : w.NoServer) (key : Int) (a : Addr) : w.OnlyProxy (ProxyMgr.rmSvr key a w) := by
  unfold ProxyMgr.rmSvr
  split
  · rfl
  · split
    · rw [hw.dropSvr a]
      rfl
    · rfl

/-- The loop of getSvrConn asks every server in vain. -/
theorem getSvrConnLoop (key : Int) (n : Nat) :
    ∀ {w : World}, w.NoServer → (ProxyMgr.getSvrConnLoop key n (-1) w).1 = -1
      ∧ w.OnlyProxy (ProxyMgr.getSvrConnLoop key n (-1) w).2 := by
  induction n with
  | zero => exact fun _ => ⟨rfl, rfl⟩
  | succ n ih =>
      intro w hw
      have hnext : (ProxyMgr.nextPos key w).NoServer := hw
      unfold ProxyMgr.getSvrConnLoop
      split
      · exact ⟨rfl, rfl⟩
      · dsimp only
        split
        · exact ⟨rfl, rfl⟩
        next a _ =>
          obtain ⟨hneg, honly⟩ := ih hnext
          rw [hnext.getConn a]
          refine ⟨hneg, ?_⟩
          unfold World.OnlyProxy at honly ⊢
          rw [honly]
          rfl

theorem getSvrConn (hw : w.NoServer) (key : Int) :
    (ProxyMgr.getSvrConn key w).1 = -1 ∧ w.OnlyProxy (ProxyMgr.getSvrConn key w).2 := by
  unfold ProxyMgr.getSvrConn
  split
  · exact ⟨rfl, rfl⟩
  · exact getSvrConnLoop key _ hw

end World.NoServer

/-- What runs on after finalize, as long as nobody adds a server: clients come and go, the
reconnection timer expires, messages are dispatched, servers are removed. -/
def Op.addsNothing : Op → Prop
  | .addSvr .. => False
  | .updateProxy .. => False
  | _ => True

/-- No backend: no server is registered and only accepted connections are open, so no
dispatch finds a connection, by key or by address; a reconnection pass changes nothing. -/
structure World.Retired (w : World) : Prop where
  unregistered : w.NoServer
  clients : ∀ h c, w.fds h = some c → c.origin = .accepted
  byKey : ∀ key, (ProxyMgr.getSvrConn key w).1 = -1
  byAddr : ∀ a, (SvrMgr.getConn a w).1 = -1
  reBuild : ∀ env, ProxyMgr.reBuild env w = w

/-- The invariant behind it. -/
structure World.Clientele (w : World) : Prop where
  tracked : w.Tracked
  unregistered : w.NoServer
  clients : ∀ h c, w.fds h = some c → c.origin = .accepted

namespace World.Clientele

variable {w w' : World}

theorem retired (hw : w.Clientele) : w.Retired where
  unregistered := hw.unregistered
  clients := hw.clients
  byKey := fun key => (hw.unregistered.getSvrConn key).1
  byAddr := fun a => by rw [hw.unregistered.getConn a]
  reBuild := fun env => hw.unregistered.reBuild env

theorem onlyProxy (hw : w.Clientele) (h : w.OnlyProxy w') : w'.Clientele := by
  rw [h]
  exact ⟨hw.tracked.withProxy _, hw.unregistered, hw.clients⟩

/-- A client comes: no server has its address. -/
theorem accept (hw : w.Clientele) (env : Env) {handle : Int} (peer : Addr) (hpos : 0 ≤ handle)
    (hfree : w.fds handle = none) : (w.establish env handle peer .accepted).Clientele := by
  have hm : w.mConn handle = none := by rw [hw.tracked.recorded, hfree]
  refine ⟨hw.tracked.establish env peer .accepted hpos hfree, fun a => ?_, fun j c hc => ?_⟩
  · have hsame := (establish_sameRoutes env handle peer .accepted w).exist a
    simpa [SvrMgr.isSvrExist, hw.unregistered a] using hsame
  · rcases (establish_open hm).mp hc with ⟨-, rfl⟩ | ⟨-, hold⟩
    · rfl
    · exact hw.clients j c hold

/-- A connection closes. -/
theorem closed (hw : w.Clientele) {c : DASvcHandler} (hc : w.fds c.handle = some c) :
    (c.handleClose w).Clientele := by
  have hpos : 0 ≤ c.handle := (hw.tracked.own _ c hc).2.1
  refine ⟨hw.tracked.handleClose hc, fun a => ?_, fun j d hd => ?_⟩
  · have hsame := (DASvcHandler.handleClose_sameRoutes c w).exist a
    simpa [SvrMgr.isSvrExist, hw.unregistered a] using hsame
  · exact hw.clients j d ((DASvcHandler.handleClose_open hpos).mp hd).2

theorem step (hw : w.Clientele) {op : Op} (hop : op.addsNothing) (hstep : w.step op = some w') :
    w'.Clientele := by
  cases op with
  | accept env handle peer =>
      simp only [World.step] at hstep
      split at hstep
      next hfree =>
        obtain rfl := Option.some.inj hstep
        exact hw.accept env peer hfree.1 hfree.2
      next => exact absurd hstep (by simp)
  | closed handle =>
      simp only [World.step] at hstep
      cases hc : w.fds handle with
      | none => simp [hc] at hstep
      | some c =>
          simp only [hc, Option.some.injEq] at hstep
          subst hstep
          exact hw.closed (by rw [(hw.tracked.own handle c hc).1, hc])
  | addSvr env key a => exact absurd hop id
  | updateProxy env t => exact absurd hop id
  | rmSvr key a =>
      obtain rfl := Option.some.inj hstep
      exact hw.onlyProxy (hw.unregistered.rmSvr key a)
  | reBuild env =>
      obtain rfl := Option.some.inj hstep
      rwa [hw.unregistered.reBuild env]
  | getSvrConn key =>
      obtain rfl := Option.some.inj hstep
      exact hw.onlyProxy (hw.unregistered.getSvrConn key).2
  | getConn a =>
      obtain rfl := Option.some.inj hstep
      rwa [hw.unregistered.getConn a]

end World.Clientele

/-- **finalize is final**: from such a state, whatever runs on after finalize, as long as no
server is added, no state has a backend again. -/
theorem finalize_final {ops : List Op}
    (hok : Along World.step (fun w op => op.distinctPeer w) World.start ops) {w : World}
    (h : replay World.step World.start ops = some w) :
    Henceforth World.step Op.addsNothing World.Retired (ProxyMgr.finalize w) := by
  have hbacked := World.Backed.of_run hok h
  have hclose := hbacked.finalize (World.Routed.of_run h)
  have hclientele : (ProxyMgr.finalize w).Clientele :=
    ⟨ProxyMgr.finalize_tracked hbacked.tracked, hclose.unregistered, hclose.clients⟩
  have hstep : ∀ (w : World) (op : Op) (w' : World), op.addsNothing → w.Clientele →
      w.step op = some w' → w'.Clientele :=
    fun _ _ _ hop hw hs => hw.step hop hs
  exact Henceforth.of_inv hstep (fun _ hw => hw.retired) (fun _ _ hop => hop) hclientele

/-- The reconnection timer expires, and another client comes. -/
theorem finalize_final_server :
    ∃ w, replay World.step World.start serverAndClient = some w
      ∧ Always World.step World.Retired (ProxyMgr.finalize w)
          [.reBuild .dial, .accept .dial 5 (10, 80), .getSvrConn 1] := by
  refine ⟨_, rfl, finalize_final serverAndClient_distinct rfl _ ?_⟩
  simp [Op.addsNothing]

end TcpFramework
