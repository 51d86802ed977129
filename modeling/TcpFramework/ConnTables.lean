/-
  TcpFramework.ConnTables — what each operation does to the connection tables.

  §1 and §2 say, operation by operation, which handles a server lists afterwards, which
  servers are registered, and that the rest is untouched.  §3 is the invariant that ties
  ConnMgr and SvrMgr to the open connections, and §4 the rule by which a property of the
  managers' building blocks becomes a property of addSvr, rmSvr, updateProxy and reBuild.

  Main results:
    * `Tracked.step` — every atomic operation keeps the invariant.
    * `TableInvariant.step` — the rule for ProxyMgr's operations.
-/
import TcpFramework.Managers

namespace TcpFramework

open StepSystem

/-! ## §1. SvrMgr, operation by operation. -/

/-- The server is registered and has the handle among its handles. -/
def World.Lists (w : World) (a : Addr) (h : Int) : Prop :=
  ∃ s, w.mapSvr a = some s ∧ h ∈ s.handles

/-- Every handle_list enumerates its handles. -/
def World.Shadowed (w : World) : Prop :=
  ∀ a s, w.mapSvr a = some s → Enumerates s.handleList s.handles

/-- Nothing but `mapSvr` differs. -/
def World.OnlySvr (w w' : World) : Prop := w' = { w with mapSvr := w'.mapSvr }

/-- Registered servers and routing are the same. -/
structure World.SameRoutes (w w' : World) : Prop where
  mapProxy : w'.mapProxy = w.mapProxy
  exist : ∀ a, SvrMgr.isSvrExist a w' = SvrMgr.isSvrExist a w

namespace World

theorem OnlySvr.fds {w w' : World} (h : w.OnlySvr w') : w'.fds = w.fds := by rw [h]
theorem OnlySvr.mConn {w w' : World} (h : w.OnlySvr w') : w'.mConn = w.mConn := by rw [h]
theorem OnlySvr.nextId {w w' : World} (h : w.OnlySvr w') : w'.nextId = w.nextId := by rw [h]
theorem OnlySvr.mapProxy {w w' : World} (h : w.OnlySvr w') : w'.mapProxy = w.mapProxy := by
  rw [h]

theorem SameRoutes.refl (w : World) : w.SameRoutes w := ⟨rfl, fun _ => rfl⟩

theorem SameRoutes.trans {w w' w'' : World} (h : w.SameRoutes w') (h' : w'.SameRoutes w'') :
    w.SameRoutes w'' :=
  ⟨h'.mapProxy.trans h.mapProxy, fun a => (h'.exist a).trans (h.exist a)⟩

/-- The entry of one server is replaced. -/
def setSvr (w : World) (a : Addr) (s : Option SServer) : World :=
  { w with mapSvr := Function.update w.mapSvr a s }

theorem setSvr_onlySvr (w : World) (a : Addr) (s : Option SServer) :
    w.OnlySvr (w.setSvr a s) := rfl

theorem setSvr_exist (w : World) (a b : Addr) (s : Option SServer) :
    SvrMgr.isSvrExist b (w.setSvr a s) = if b = a then s.isSome else SvrMgr.isSvrExist b w := by
  by_cases hb : b = a <;> simp [SvrMgr.isSvrExist, setSvr, hb]

/-- A registered server keeps its registration when its entry is replaced. -/
theorem setSvr_sameRoutes {w : World} {a : Addr} {s : SServer} (hs : w.mapSvr a = some s)
    (s' : SServer) : w.SameRoutes (w.setSvr a (some s')) := by
  refine ⟨rfl, fun b => ?_⟩
  rw [setSvr_exist]
  by_cases hb : b = a
  · simp [hb, SvrMgr.isSvrExist, hs]
  · simp [hb]

/-- Nothing changes, or the entry of the registered server `a` does. -/
def Edits (w : World) (a : Addr) (w' : World) : Prop :=
  w' = w ∨ ∃ s s', w.mapSvr a = some s ∧ w' = w.setSvr a (some s')

theorem Edits.onlySvr {w w' : World} {a : Addr} (h : w.Edits a w') : w.OnlySvr w' := by
  rcases h with rfl | ⟨s, s', -, rfl⟩
  · rfl
  · exact setSvr_onlySvr w a (some s')

theorem Edits.sameRoutes {w w' : World} {a : Addr} (h : w.Edits a w') : w.SameRoutes w' := by
  rcases h with rfl | ⟨s, s', hs, rfl⟩
  · exact .refl w'
  · exact setSvr_sameRoutes hs s'

theorem lists_setSvr (w : World) (a b : Addr) (s' : SServer) (h : Int) :
    (w.setSvr a (some s')).Lists b h ↔ if b = a then h ∈ s'.handles else w.Lists b h := by
  by_cases hb : b = a <;> simp [World.Lists, setSvr, hb]

theorem Shadowed.setSvr {w : World} (h : w.Shadowed) {a : Addr} {s' : SServer}
    (hs' : Enumerates s'.handleList s'.handles) : (w.setSvr a (some s')).Shadowed := by
  intro b s hs
  by_cases hb : b = a
  · subst hb
    obtain rfl : s' = s := by simpa [World.setSvr] using hs
    exact hs'
  · exact h b s (by simpa [World.setSvr, hb] using hs)

end World

namespace SvrMgr

open World

/-- `addSvr` does nothing, or registers a server without handles. -/
theorem addSvr_cases (a : Addr) (w : World) :
    (isSvrExist a w = true ∧ addSvr a w = w) ∨
    (w.mapSvr a = none ∧ addSvr a w = w.setSvr a (some {})) := by
  cases hs : w.mapSvr a with
  | none => exact Or.inr ⟨rfl, by simp [addSvr, hs, setSvr]⟩
  | some s => exact Or.inl ⟨by simp [isSvrExist, hs], by simp [addSvr, hs]⟩

theorem lists_addSvr (a b : Addr) (w : World) (h : Int) :
    (addSvr a w).Lists b h ↔ w.Lists b h := by
  rcases addSvr_cases a w with ⟨-, hw⟩ | ⟨hs, hw⟩
  · rw [hw]
  · rw [hw, lists_setSvr]
    by_cases hb : b = a
    · simp [hb, World.Lists, hs]
    · simp [hb]

/-- `rmSvr` unregisters the server, with whatever it lists. -/
theorem lists_rmSvr (a b : Addr) (w : World) (h : Int) :
    (rmSvr a w).Lists b h ↔ b ≠ a ∧ w.Lists b h := by
  by_cases hb : b = a <;> simp [World.Lists, rmSvr, hb]

theorem rmSvr_exist (a b : Addr) (w : World) :
    isSvrExist b (rmSvr a w) = if b = a then false else isSvrExist b w :=
  setSvr_exist w a b none

theorem rmSvr_shadowed {a : Addr} {w : World} (h : w.Shadowed) : (rmSvr a w).Shadowed := by
  intro b s hs
  by_cases hb : b = a
  · simp [rmSvr, hb] at hs
  · exact h b s (by simpa [rmSvr, hb] using hs)

/-- `addSvrConn` does nothing, because the server is unknown or has the handle, or adds the
handle to the set and the vector. -/
theorem addSvrConn_cases (env : Env) (a : Addr) (h : Int) (w : World) :
    ((isSvrExist a w = false ∨ w.Lists a h) ∧ addSvrConn env a h w = w) ∨
    ∃ s, w.mapSvr a = some s ∧ h ∉ s.handles ∧ addSvrConn env a h w
      = w.setSvr a (some { s with
          handles := s.handles.insert env.handlePlace h, handleList := s.handleList ++ [h] }) := by
  cases hs : w.mapSvr a with
  | none => exact Or.inl ⟨Or.inl (by simp [isSvrExist, hs]), by simp [addSvrConn, hs]⟩
  | some s =>
      by_cases hh : h ∈ s.handles
      · exact Or.inl ⟨Or.inr ⟨s, hs, hh⟩, by simp [addSvrConn, hs, hh]⟩
      · exact Or.inr ⟨s, rfl, hh, by simp [addSvrConn, hs, hh, setSvr]⟩

theorem lists_addSvrConn (env : Env) (a b : Addr) (h j : Int) (w : World) :
    (addSvrConn env a h w).Lists b j
      ↔ w.Lists b j ∨ (b = a ∧ j = h ∧ isSvrExist a w = true) := by
  rcases addSvrConn_cases env a h w with ⟨hno, hw⟩ | ⟨s, hs, hh, hw⟩
  · -- nothing is added: the server is unknown, or lists the handle already
    rw [hw]
    constructor
    · exact Or.inl
    · intro hl
      rcases hl with hl | ⟨rfl, rfl, hex⟩
      · exact hl
      · rcases hno with hno | hno
        · rw [hno] at hex
          exact absurd hex (by simp)
        · exact hno
  · rw [hw, lists_setSvr]
    have hex : isSvrExist a w = true := by simp [isSvrExist, hs]
    by_cases hb : b = a
    · subst hb
      have hold : w.Lists b j ↔ j ∈ s.handles := by simp [World.Lists, hs]
      simp only [if_pos, UnorderedSet.mem_insert, hold, hex]
      constructor
      · intro hj
        rcases hj with hj | hj
        · exact Or.inr ⟨trivial, hj, trivial⟩
        · exact Or.inl hj
      · intro hj
        rcases hj with hj | ⟨-, hj, -⟩
        · exact Or.inr hj
        · exact Or.inl hj
    · simp [hb]

theorem addSvrConn_edits (env : Env) (a : Addr) (h : Int) (w : World) :
    w.Edits a (addSvrConn env a h w) := by
  rcases addSvrConn_cases env a h w with ⟨-, hw⟩ | ⟨s, hs, -, hw⟩
  · exact Or.inl hw
  · exact Or.inr ⟨s, _, hs, hw⟩

theorem addSvrConn_shadowed {env : Env} {a : Addr} {h : Int} {w : World} (hw : w.Shadowed) :
    (addSvrConn env a h w).Shadowed := by
  rcases addSvrConn_cases env a h w with ⟨-, he⟩ | ⟨s, hs, hh, he⟩
  · rw [he]
    exact hw
  · rw [he]
    exact hw.setSvr ((hw a s hs).push_back env.handlePlace hh)

/-- `rmSvrConn` does nothing, or erases the handle and copies the set to the vector. -/
theorem rmSvrConn_cases (a : Addr) (h : Int) (w : World) :
    (¬ w.Lists a h ∧ rmSvrConn a h w = w) ∨
    ∃ s, w.mapSvr a = some s ∧ h ∈ s.handles ∧ rmSvrConn a h w
      = w.setSvr a (some { s with
          handles := s.handles.erase h, handleList := (s.handles.erase h).elems }) := by
  cases hs : w.mapSvr a with
  | none => exact Or.inl ⟨by simp [World.Lists, hs], by simp [rmSvrConn, hs]⟩
  | some s =>
      by_cases hh : h ∈ s.handles
      · exact Or.inr ⟨s, rfl, hh, by simp [rmSvrConn, hs, hh, setSvr]⟩
      · exact Or.inl ⟨by simp [World.Lists, hs, hh], by simp [rmSvrConn, hs, hh]⟩

theorem lists_rmSvrConn (a b : Addr) (h j : Int) (w : World) :
    (rmSvrConn a h w).Lists b j ↔ w.Lists b j ∧ ¬ (b = a ∧ j = h) := by
  rcases rmSvrConn_cases a h w with ⟨hno, hw⟩ | ⟨s, hs, hh, hw⟩
  · -- nothing is erased, and there was nothing to erase
    rw [hw]
    constructor
    · intro hl
      refine ⟨hl, fun hbj => hno ?_⟩
      rw [← hbj.1, ← hbj.2]
      exact hl
    · exact And.left
  · rw [hw, lists_setSvr]
    by_cases hb : b = a
    · subst hb
      have hold : w.Lists b j ↔ j ∈ s.handles := by simp [World.Lists, hs]
      simp [hold, and_comm]
    · simp [hb]

theorem rmSvrConn_edits (a : Addr) (h : Int) (w : World) : w.Edits a (rmSvrConn a h w) := by
  rcases rmSvrConn_cases a h w with ⟨-, hw⟩ | ⟨s, hs, -, hw⟩
  · exact Or.inl hw
  · exact Or.inr ⟨s, _, hs, hw⟩

theorem rmSvrConn_shadowed {a : Addr} {h : Int} {w : World} (hw : w.Shadowed) :
    (rmSvrConn a h w).Shadowed := by
  rcases rmSvrConn_cases a h w with ⟨-, he⟩ | ⟨s, -, -, he⟩
  · rw [he]
    exact hw
  · rw [he]
    exact hw.setSvr Enumerates.elems

/-- `getConn` returns -1 and changes nothing, or returns the handle at the turn and
advances the turn. -/
theorem getConn_cases (a : Addr) (w : World) :
    getConn a w = (-1, w) ∨
    ∃ s h, w.mapSvr a = some s ∧ h ∈ s.handleList
      ∧ getConn a w = (h, w.setSvr a (some { s with nPos := s.nPos + 1 })) := by
  cases hs : w.mapSvr a with
  | none => exact Or.inl (by simp [getConn, hs])
  | some s =>
      by_cases hstat : s.eStat = .unnormal
      · exact Or.inl (by simp [getConn, hs, hstat])
      · cases hh : s.handleList[s.nPos.toNat % s.handleList.length]? with
        | none => exact Or.inl (by simp [getConn, hs, hstat, hh])
        | some h =>
            exact Or.inr ⟨s, h, rfl, List.mem_of_getElem? hh,
              by simp [getConn, hs, hstat, hh, setSvr]⟩

theorem lists_getConn (a b : Addr) (w : World) (j : Int) :
    (getConn a w).2.Lists b j ↔ w.Lists b j := by
  rcases getConn_cases a w with hw | ⟨s, h, hs, -, hw⟩
  · rw [hw]
  · rw [hw, lists_setSvr]
    by_cases hb : b = a
    · simp [hb, World.Lists, hs]
    · simp [hb]

theorem getConn_edits (a : Addr) (w : World) : w.Edits a (getConn a w).2 := by
  rcases getConn_cases a w with hw | ⟨s, h, hs, -, hw⟩
  · exact Or.inl (by rw [hw])
  · exact Or.inr ⟨s, _, hs, by rw [hw]⟩

theorem getConn_shadowed {a : Addr} {w : World} (hw : w.Shadowed) :
    (getConn a w).2.Shadowed := by
  rcases getConn_cases a w with he | ⟨s, h, hs, -, he⟩
  · rw [he]
    exact hw
  · rw [he]
    exact hw.setSvr (hw a s hs)

/-- What `getConn` returns is -1 or a handle of the server. -/
theorem getConn_handle {a : Addr} {w : World} (hw : w.Shadowed) (hne : (getConn a w).1 ≠ -1) :
    w.Lists a (getConn a w).1 := by
  rcases getConn_cases a w with he | ⟨s, h, hs, hh, he⟩
  · exact absurd (by rw [he]) hne
  · rw [he]
    exact ⟨s, hs, ((hw a s hs).2 h).mp hh⟩

end SvrMgr

/-! ## §2. Connections that open and close. -/

namespace ConnMgr

open World

/-- `addConn` on a descriptor that is not recorded. -/
theorem addConn_onlySvr (env : Env) {c : DASvcHandler} {w : World}
    (hfree : w.mConn c.handle = none) :
    OnlySvr { w with mConn := Function.update w.mConn c.handle (some c) }
      (addConn env c w) := by
  have he := (SvrMgr.addSvrConn_edits env c.peer c.handle
    { w with mConn := Function.update w.mConn c.handle (some c) }).onlySvr
  simpa only [addConn, hfree] using he

theorem addConn_lists (env : Env) {c : DASvcHandler} {w : World}
    (hfree : w.mConn c.handle = none) (b : Addr) (j : Int) :
    (addConn env c w).Lists b j ↔ w.Lists b j
      ∨ (b = c.peer ∧ j = c.handle ∧ SvrMgr.isSvrExist c.peer w = true) := by
  simp only [addConn, hfree]
  exact SvrMgr.lists_addSvrConn env c.peer b c.handle j _

/-- `rmConn` of a handler that has a descriptor. -/
theorem rmConn_onlySvr (peerAddr : Addr) {c : DASvcHandler} (w : World)
    (hne : c.handle ≠ -1) :
    OnlySvr { w with mConn := Function.update w.mConn c.handle none }
      (rmConn peerAddr c w) := by
  have he := (SvrMgr.rmSvrConn_edits peerAddr c.handle
    { w with mConn := Function.update w.mConn c.handle none }).onlySvr
  simpa only [rmConn, hne, if_false] using he

theorem rmConn_lists (peerAddr : Addr) {c : DASvcHandler} (w : World)
    (hne : c.handle ≠ -1) (b : Addr) (j : Int) :
    (rmConn peerAddr c w).Lists b j
      ↔ w.Lists b j ∧ ¬ (b = peerAddr ∧ j = c.handle) := by
  simp only [rmConn, hne, if_false]
  exact SvrMgr.lists_rmSvrConn peerAddr b c.handle j
    { w with mConn := Function.update w.mConn c.handle none }

end ConnMgr

namespace World

theorem establish_onlySvr (env : Env) (h : Int) (peer : Addr) (o : Origin) (w : World)
    (hfree : w.mConn h = none) :
    OnlySvr { w with
        fds := Function.update w.fds h (some ⟨w.nextId, h, peer, o⟩)
        nextId := w.nextId + 1
        mConn := Function.update w.mConn h (some ⟨w.nextId, h, peer, o⟩) }
      (w.establish env h peer o) :=
  ConnMgr.addConn_onlySvr env (c := ⟨w.nextId, h, peer, o⟩) (w := { w with
    fds := Function.update w.fds h (some ⟨w.nextId, h, peer, o⟩), nextId := w.nextId + 1 }) hfree

/-- What is open once a connection has opened on a descriptor. -/
theorem establish_open {env : Env} {h : Int} {peer : Addr} {o : Origin} {w : World}
    (hfree : w.mConn h = none) {j : Int} {c : DASvcHandler} :
    (w.establish env h peer o).fds j = some c
      ↔ (j = h ∧ c = ⟨w.nextId, h, peer, o⟩) ∨ (j ≠ h ∧ w.fds j = some c) := by
  rw [(establish_onlySvr env h peer o w hfree).fds]
  by_cases hj : j = h
  · subst hj
    simp [eq_comm]
  · simp [hj]

theorem establish_lists {env : Env} {h : Int} {peer : Addr} {o : Origin} {w : World}
    (hfree : w.mConn h = none) (b : Addr) (j : Int) :
    (w.establish env h peer o).Lists b j
      ↔ w.Lists b j ∨ (b = peer ∧ j = h ∧ SvrMgr.isSvrExist peer w = true) :=
  ConnMgr.addConn_lists env (c := ⟨w.nextId, h, peer, o⟩) (w := { w with
    fds := Function.update w.fds h (some ⟨w.nextId, h, peer, o⟩), nextId := w.nextId + 1 })
    hfree b j

theorem establish_sameRoutes (env : Env) (h : Int) (peer : Addr) (o : Origin) (w : World) :
    w.SameRoutes (w.establish env h peer o) := by
  refine SameRoutes.trans ?_ (SvrMgr.addSvrConn_edits env peer h _).sameRoutes
  cases w.mConn h <;> exact ⟨rfl, fun _ => rfl⟩

theorem establish_shadowed {env : Env} {h : Int} {peer : Addr} {o : Origin} {w : World}
    (hw : w.Shadowed) : (w.establish env h peer o).Shadowed := by
  apply SvrMgr.addSvrConn_shadowed
  cases w.mConn h <;> exact hw

/-- What a connection that opens does to the entries of other servers: nothing. -/
theorem establish_mapSvr (env : Env) (h : Int) {peer : Addr} (o : Origin) (w : World)
    {b : Addr} (hb : b ≠ peer) : (w.establish env h peer o).mapSvr b = w.mapSvr b := by
  unfold establish ConnMgr.addConn
  rcases SvrMgr.addSvrConn_edits env peer h _ with he | ⟨s, s', -, he⟩
  · rw [he]
    cases w.mConn h <;> rfl
  · rw [he]
    refine (Function.update_of_ne hb _ _).trans ?_
    cases w.mConn h <;> rfl

end World

namespace DASvcHandler

open World

theorem handleClose_onlySvr {c : DASvcHandler} (w : World) (hc : 0 ≤ c.handle) :
    OnlySvr { w with
        fds := Function.update w.fds c.handle none
        mConn := Function.update w.mConn c.handle none }
      (c.handleClose w) := by
  have he := ConnMgr.rmConn_onlySvr c.peer (c := c) w (by omega)
  unfold handleClose
  rw [he]
  rfl

/-- What is open once a connection has closed. -/
theorem handleClose_open {c : DASvcHandler} {w : World} (hc : 0 ≤ c.handle) {j : Int}
    {d : DASvcHandler} :
    (c.handleClose w).fds j = some d ↔ j ≠ c.handle ∧ w.fds j = some d := by
  rw [(handleClose_onlySvr w hc).fds]
  by_cases hj : j = c.handle <;> simp [hj]

theorem handleClose_lists {c : DASvcHandler} {w : World} (hc : 0 ≤ c.handle) (b : Addr)
    (j : Int) :
    (c.handleClose w).Lists b j ↔ w.Lists b j ∧ ¬ (b = c.peer ∧ j = c.handle) :=
  ConnMgr.rmConn_lists c.peer w (by omega) b j

theorem handleClose_sameRoutes (c : DASvcHandler) (w : World) :
    w.SameRoutes (c.handleClose w) := by
  unfold handleClose ConnMgr.rmConn
  split
  · exact ⟨rfl, fun _ => rfl⟩
  · have he := (SvrMgr.rmSvrConn_edits c.peer c.handle
      { w with mConn := Function.update w.mConn c.handle none }).sameRoutes
    exact ⟨he.mapProxy, he.exist⟩

theorem handleClose_shadowed {c : DASvcHandler} {w : World} (hw : w.Shadowed) :
    (c.handleClose w).Shadowed := by
  unfold handleClose ConnMgr.rmConn
  split
  · exact hw
  · exact SvrMgr.rmSvrConn_shadowed (w := { w with mConn := _ }) hw

/-- What `handle_close` does to the entries of other servers: nothing. -/
theorem handleClose_mapSvr {c : DASvcHandler} {w : World} (hc : 0 ≤ c.handle)
    {b : Addr} (hb : b ≠ c.peer) : (c.handleClose w).mapSvr b = w.mapSvr b := by
  have hne : c.handle ≠ -1 := by omega
  show (ConnMgr.rmConn c.peer c w).mapSvr b = w.mapSvr b
  rw [ConnMgr.rmConn, if_neg hne]
  rcases SvrMgr.rmSvrConn_edits c.peer c.handle
    { w with mConn := Function.update w.mConn c.handle none } with he | ⟨s, s', -, he⟩
  · rw [he]
  · rw [he]
    exact Function.update_of_ne hb _ _

end DASvcHandler

/-! ## §3. The tables agree with the open connections. -/

/-- ConnMgr records the open connections, each under its own descriptor; what a server
lists is open and has that server as its peer; the vectors follow the sets. -/
structure World.Tracked (w : World) : Prop where
  recorded : w.mConn = w.fds
  own : ∀ h c, w.fds h = some c → c.handle = h ∧ 0 ≤ h ∧ c.id < w.nextId
  listed : ∀ a h, w.Lists a h → ∃ c, w.fds h = some c ∧ c.peer = a
  shadow : w.Shadowed

namespace World.Tracked

open World

theorem start : World.start.Tracked where
  recorded := rfl
  own := fun h c hc => by simp [World.start] at hc
  listed := fun a h hl => by simp [World.start, World.Lists] at hl
  shadow := fun a s hs => by simp [World.start] at hs

/-- Routing is no part of the invariant. -/
theorem withProxy {w : World} (hw : w.Tracked) (m : UnorderedMap Int SProxy) :
    ({ w with mapProxy := m } : World).Tracked :=
  ⟨hw.recorded, hw.own, hw.listed, hw.shadow⟩

/-- A change of SvrMgr alone keeps the invariant when nothing new is listed. -/
theorem onlySvr {w w' : World} (hw : w.Tracked) (h : w.OnlySvr w')
    (hl : ∀ a j, w'.Lists a j → w.Lists a j) (hs : w'.Shadowed) : w'.Tracked where
  recorded := by rw [h.mConn, h.fds, hw.recorded]
  own := by
    rw [h.fds, h.nextId]
    exact hw.own
  listed := by
    rw [h.fds]
    exact fun a j hj => hw.listed a j (hl a j hj)
  shadow := hs

theorem addSvr {w : World} (hw : w.Tracked) (a : Addr) : (SvrMgr.addSvr a w).Tracked := by
  rcases SvrMgr.addSvr_cases a w with ⟨-, he⟩ | ⟨-, he⟩
  · rw [he]
    exact hw
  · refine hw.onlySvr ?_ (fun b j => (SvrMgr.lists_addSvr a b w j).mp) ?_
    · rw [he]
      exact setSvr_onlySvr w a _
    · rw [he]
      exact hw.shadow.setSvr (Enumerates.elems (s := .empty))

theorem rmSvr {w : World} (hw : w.Tracked) (a : Addr) : (SvrMgr.rmSvr a w).Tracked :=
  hw.onlySvr (setSvr_onlySvr w a none) (fun b j h => ((SvrMgr.lists_rmSvr a b w j).mp h).2)
    (SvrMgr.rmSvr_shadowed hw.shadow)

theorem rmSvrConn {w : World} (hw : w.Tracked) (a : Addr) (h : Int) :
    (SvrMgr.rmSvrConn a h w).Tracked :=
  hw.onlySvr (SvrMgr.rmSvrConn_edits a h w).onlySvr
    (fun b j hj => ((SvrMgr.lists_rmSvrConn a b h j w).mp hj).1)
    (SvrMgr.rmSvrConn_shadowed hw.shadow)

theorem getConn {w : World} (hw : w.Tracked) (a : Addr) : (SvrMgr.getConn a w).2.Tracked :=
  hw.onlySvr (SvrMgr.getConn_edits a w).onlySvr
    (fun b j => (SvrMgr.lists_getConn a b w j).mp)
    (SvrMgr.getConn_shadowed hw.shadow)

/-- A connection that opens on a free descriptor. -/
theorem establish {w : World} (hw : w.Tracked) (env : Env) {h : Int} (peer : Addr) (o : Origin)
    (hpos : 0 ≤ h) (hfree : w.fds h = none) : (w.establish env h peer o).Tracked := by
  have hm : w.mConn h = none := by rw [hw.recorded, hfree]
  have hsame := establish_onlySvr env h peer o w hm
  refine ⟨?_, ?_, ?_, establish_shadowed hw.shadow⟩
  · rw [hsame.mConn, hsame.fds, hw.recorded]
  · intro j c hc
    rw [hsame.nextId]
    rcases (establish_open hm).mp hc with ⟨rfl, rfl⟩ | ⟨-, hold⟩
    · exact ⟨rfl, hpos, Nat.lt_succ_self _⟩
    · exact ⟨(hw.own j c hold).1, (hw.own j c hold).2.1, Nat.lt_succ_of_lt (hw.own j c hold).2.2⟩
  · intro a j hl
    rcases (establish_lists hm a j).mp hl with hl | ⟨rfl, rfl, -⟩
    · obtain ⟨c, hc, hp⟩ := hw.listed a j hl
      -- a descriptor that a server lists is not free
      have hj : j ≠ h := by
        rintro rfl
        rw [hfree] at hc
        exact absurd hc (by simp)
      exact ⟨c, (establish_open hm).mpr (Or.inr ⟨hj, hc⟩), hp⟩
    · exact ⟨_, (establish_open hm).mpr (Or.inl ⟨rfl, rfl⟩), rfl⟩

/-- An open connection that closes. -/
theorem handleClose {w : World} (hw : w.Tracked) {c : DASvcHandler}
    (hc : w.fds c.handle = some c) : (c.handleClose w).Tracked := by
  have hpos : 0 ≤ c.handle := (hw.own _ c hc).2.1
  have hsame := DASvcHandler.handleClose_onlySvr w hpos
  refine ⟨?_, ?_, ?_, DASvcHandler.handleClose_shadowed hw.shadow⟩
  · rw [hsame.mConn, hsame.fds, hw.recorded]
  · intro j d hd
    rw [hsame.nextId]
    exact hw.own j d ((DASvcHandler.handleClose_open hpos).mp hd).2
  · intro a j hl
    obtain ⟨hold, hnot⟩ := (DASvcHandler.handleClose_lists hpos a j).mp hl
    obtain ⟨d, hd, hp⟩ := hw.listed a j hold
    -- the closed connection was listed under its own peer only
    have hj : j ≠ c.handle := by
      intro hj
      rw [hj, hc] at hd
      obtain rfl := Option.some.inj hd
      exact hnot ⟨hp.symm, hj⟩
    exact ⟨d, (DASvcHandler.handleClose_open hpos).mpr ⟨hj, hd⟩, hp⟩

/-- `close` closes the connection that has the descriptor, if there is one. -/
theorem close_cases {w : World} (hw : w.Tracked) (h : Int) :
    (w.fds h = none ∧ ConnMgr.close h w = (-2, w)) ∨
    ∃ c, c.handle = h ∧ w.fds c.handle = some c ∧ ConnMgr.close h w = (0, c.handleClose w) := by
  cases hc : w.fds h with
  | none => exact Or.inl ⟨rfl, by simp [ConnMgr.close, hw.recorded, hc]⟩
  | some c =>
      have hh : c.handle = h := (hw.own h c hc).1
      exact Or.inr ⟨c, hh, by rw [hh, hc], by simp [ConnMgr.close, hw.recorded, hc]⟩

theorem close {w : World} (hw : w.Tracked) (h : Int) : (ConnMgr.close h w).2.Tracked := by
  rcases hw.close_cases h with ⟨-, he⟩ | ⟨c, -, hc, he⟩
  · rw [he]
    exact hw
  · rw [he]
    exact hw.handleClose hc

end World.Tracked

/-- `connSvr` changes nothing, or opens a connection to the server on a free descriptor. -/
theorem SvrMgr.connSvr_cases (env : Env) (a : Addr) (w : World) :
    SvrMgr.connSvr env a w = (-1, w) ∨
    ∃ h, 0 ≤ h ∧ w.fds h = none
      ∧ SvrMgr.connSvr env a w = (0, w.establish env h a .connected) := by
  cases hc : env.connect a w.fds with
  | none => exact Or.inl (by simp [connSvr, ConnMgr.connect, hc])
  | some h =>
      obtain ⟨hpos, hfree⟩ := env.fresh a w.fds h hc
      exact Or.inr ⟨h, hpos, hfree, by simp [connSvr, ConnMgr.connect, hc]⟩

theorem SvrMgr.connSvr_sameRoutes (env : Env) (a : Addr) (w : World) :
    w.SameRoutes (SvrMgr.connSvr env a w).2 := by
  rcases SvrMgr.connSvr_cases env a w with he | ⟨h, -, -, he⟩
  · rw [he]
    exact .refl w
  · rw [he]
    exact World.establish_sameRoutes env h a .connected w

theorem World.Tracked.connSvr {w : World} (hw : w.Tracked) (env : Env) (a : Addr) :
    (SvrMgr.connSvr env a w).2.Tracked := by
  rcases SvrMgr.connSvr_cases env a w with he | ⟨h, hpos, hfree, he⟩
  · rw [he]
    exact hw
  · rw [he]
    exact hw.establish env a .connected hpos hfree

theorem ConnMgr.close_sameRoutes (h : Int) (w : World) :
    w.SameRoutes (ConnMgr.close h w).2 := by
  unfold ConnMgr.close
  split
  · exact DASvcHandler.handleClose_sameRoutes _ w
  · exact .refl w

/-- The fold of closeSvr, over any list of handles. -/
theorem closeAll_sameRoutes (l : List Int) (w : World) :
    w.SameRoutes (l.foldl (fun w h => (ConnMgr.close h w).2) w) := by
  induction l generalizing w with
  | nil => exact .refl w
  | cons h l ih => exact (ConnMgr.close_sameRoutes h w).trans (ih _)

theorem SvrMgr.closeSvr_sameRoutes (a : Addr) (w : World) :
    w.SameRoutes (SvrMgr.closeSvr a w) := by
  unfold SvrMgr.closeSvr
  split
  · exact .refl w
  · exact closeAll_sameRoutes _ w

theorem closeAll_tracked (l : List Int) {w : World} (hw : w.Tracked) :
    (l.foldl (fun w h => (ConnMgr.close h w).2) w).Tracked := by
  induction l generalizing w with
  | nil => exact hw
  | cons h l ih => exact ih (hw.close h)

theorem World.Tracked.closeSvr {w : World} (hw : w.Tracked) (a : Addr) :
    (SvrMgr.closeSvr a w).Tracked := by
  unfold SvrMgr.closeSvr
  split
  · exact hw
  · exact closeAll_tracked _ hw

/-- Once its descriptor is closed, a handle is listed nowhere. -/
theorem World.Tracked.close_lists {w : World} (hw : w.Tracked) {h j : Int} {b : Addr}
    (hl : (ConnMgr.close h w).2.Lists b j) : w.Lists b j ∧ j ≠ h := by
  rcases hw.close_cases h with ⟨hfree, he⟩ | ⟨c, hh, hc, he⟩
  · rw [he] at hl
    -- the descriptor is free, and what a server lists is open
    refine ⟨hl, fun hj => ?_⟩
    obtain ⟨d, hd, -⟩ := hw.listed b j hl
    rw [hj, hfree] at hd
    exact absurd hd (by simp)
  · rw [he] at hl
    obtain ⟨hold, hnot⟩ := (DASvcHandler.handleClose_lists (hw.own _ c hc).2.1 b j).mp hl
    refine ⟨hold, fun hj => ?_⟩
    -- the connection was listed under its own peer only
    have hjc : j = c.handle := hj.trans hh.symm
    obtain ⟨d, hd, hp⟩ := hw.listed b j hold
    obtain rfl : c = d := Option.some.inj (hc.symm.trans (hjc ▸ hd))
    exact hnot ⟨hp.symm, hjc⟩

theorem World.Tracked.closeAll_lists {j : Int} {b : Addr} (l : List Int) :
    ∀ {w : World}, w.Tracked → (l.foldl (fun w h => (ConnMgr.close h w).2) w).Lists b j →
      w.Lists b j ∧ j ∉ l := by
  induction l with
  | nil => exact fun _ hl => ⟨hl, List.not_mem_nil⟩
  | cons h l ih =>
      intro w hw hl
      obtain ⟨hmid, hjl⟩ := ih (hw.close h) hl
      obtain ⟨hold, hjh⟩ := hw.close_lists hmid
      exact ⟨hold, fun hm => (List.mem_cons.mp hm).elim hjh hjl⟩

/-- After `closeSvr` the server lists nothing. -/
theorem World.Tracked.closeSvr_lists {w : World} (hw : w.Tracked) (a : Addr) (j : Int) :
    ¬ (SvrMgr.closeSvr a w).Lists a j := by
  intro hl
  cases hs : w.mapSvr a with
  | none =>
      obtain ⟨s, hs', -⟩ := (by simpa [SvrMgr.closeSvr, hs] using hl : w.Lists a j)
      rw [hs] at hs'
      exact absurd hs' (by simp)
  | some s =>
      have hl' : (s.handles.elems.foldl (fun w h => (ConnMgr.close h w).2) w).Lists a j := by
        simpa [SvrMgr.closeSvr, hs] using hl
      -- the fold has closed every handle that the server listed
      obtain ⟨⟨s', hs', hm⟩, hnot⟩ := hw.closeAll_lists s.handles.elems hl'
      obtain rfl : s = s' := Option.some.inj (hs.symm.trans hs')
      exact hnot hm

/-! ## §4. From the building blocks to ProxyMgr's operations. -/

/-- A property that the building blocks of ProxyMgr's operations keep: the registration of
a new server, the removal of one, reBuild's work at one, a turn of getConn. -/
structure TableInvariant (P : World → Prop) : Prop where
  proxy : ∀ w m, P w → P { w with mapProxy := m }
  register : ∀ env a w, P w → w.mapSvr a = none →
    P (SvrMgr.connSvr env a (SvrMgr.addSvr a w)).2
  drop : ∀ a w, P w → P (ProxyMgr.dropSvr a w)
  reBuildSvr : ∀ env a w, P w → P (ProxyMgr.reBuildSvr env a w)
  getConn : ∀ a w, P w → P (SvrMgr.getConn a w).2

namespace TableInvariant

variable {P : World → Prop}

theorem addSvr (hP : TableInvariant P) (env : Env) (key : Int) (a : Addr) {w : World}
    (hw : P w) : P (ProxyMgr.addSvr env key a w).2 := by
  have hkey : P (ProxyMgr.ensureKey env key w) := by
    unfold ProxyMgr.ensureKey
    split
    · exact hP.proxy w _ hw
    · exact hw
  unfold ProxyMgr.addSvr
  dsimp only
  split
  · exact hkey
  · split
    · exact hkey
    · split
      · exact hkey
      next hex =>
        refine hP.proxy _ _ (hP.register env a _ hkey ?_)
        simpa [SvrMgr.isSvrExist] using hex

theorem rmSvr (hP : TableInvariant P) (key : Int) (a : Addr) {w : World} (hw : P w) :
    P (ProxyMgr.rmSvr key a w) := by
  unfold ProxyMgr.rmSvr
  split
  · exact hw
  · split
    · exact hP.proxy _ _ (hP.drop a w hw)
    · exact hw

theorem addRoutes (hP : TableInvariant P) (env : Env) (t : ProxyMgr.Target) {w : World}
    (hw : P w) : P (ProxyMgr.addRoutes env t w) := by
  refine List.foldlRecOn _ _ hw (fun w hw key _ => ?_)
  split
  · exact hw
  · exact List.foldlRecOn _ _ hw (fun w hw a _ => hP.addSvr env key a hw)

theorem pruneKey (hP : TableInvariant P) (t : ProxyMgr.Target) (key : Int) {w : World}
    (hw : P w) : P (ProxyMgr.pruneKey t w key) := by
  unfold ProxyMgr.pruneKey
  split
  · exact hw
  · split
    · exact hP.proxy _ _ (List.foldlRecOn _ _ hw (fun w hw a _ => hP.drop a w hw))
    · refine hP.proxy _ _ (List.foldlRecOn _ _ hw (fun w hw a _ => ?_))
      unfold ProxyMgr.pruneSvr
      split
      · exact hw
      · exact hP.proxy _ _ (hP.drop a w hw)

theorem updateProxy (hP : TableInvariant P) (env : Env) (t : ProxyMgr.Target) {w : World}
    (hw : P w) : P (ProxyMgr.updateProxy env t w) :=
  List.foldlRecOn _ _ (hP.addRoutes env t hw) (fun _ hw key _ => hP.pruneKey t key hw)

theorem reBuild (hP : TableInvariant P) (env : Env) {w : World} (hw : P w) :
    P (ProxyMgr.reBuild env w) := by
  refine List.foldlRecOn _ _ hw (fun w hw key _ => ?_)
  split
  · exact hw
  · exact List.foldlRecOn _ _ hw (fun w hw a _ => hP.reBuildSvr env a w hw)

theorem getSvrConn (hP : TableInvariant P) (key : Int) {w : World} (hw : P w) :
    P (ProxyMgr.getSvrConn key w).2 := by
  have hloop : ∀ (n : Nat) (h : Int) (w : World), P w →
      P (ProxyMgr.getSvrConnLoop key n h w).2 := by
    intro n
    induction n with
    | zero => exact fun _ _ hw => hw
    | succ n ih =>
        intro h w hw
        unfold ProxyMgr.getSvrConnLoop
        split
        · exact hw
        · dsimp only
          split
          · exact hP.proxy w _ hw
          · exact ih _ _ (hP.getConn _ _ (hP.proxy w _ hw))
  unfold ProxyMgr.getSvrConn
  split
  · exact hw
  · exact hloop _ _ w hw

/-- **The rule**: what the building blocks keep, and the opening and closing of
connections too, every atomic operation keeps. -/
theorem step (hP : TableInvariant P) {w w' : World} {op : Op}
    (haccept : ∀ env h peer, op = .accept env h peer → 0 ≤ h → w.fds h = none →
      P (w.establish env h peer .accepted))
    (hclosed : ∀ h c, op = .closed h → w.fds h = some c → P (c.handleClose w))
    (hw : P w) (hstep : w.step op = some w') : P w' := by
  cases op with
  | accept env h peer =>
      simp only [World.step] at hstep
      split at hstep
      next hfree =>
        obtain rfl := Option.some.inj hstep
        exact haccept env h peer rfl hfree.1 hfree.2
      next => exact absurd hstep (by simp)
  | closed h =>
      simp only [World.step] at hstep
      cases hc : w.fds h with
      | none => simp [hc] at hstep
      | some c =>
          simp only [hc, Option.some.injEq] at hstep
          subst hstep
          exact hclosed h c rfl hc
  | addSvr env key a =>
      obtain rfl := Option.some.inj hstep
      exact hP.addSvr env key a hw
  | rmSvr key a =>
      obtain rfl := Option.some.inj hstep
      exact hP.rmSvr key a hw
  | updateProxy env t =>
      obtain rfl := Option.some.inj hstep
      exact hP.updateProxy env t hw
  | reBuild env =>
      obtain rfl := Option.some.inj hstep
      exact hP.reBuild env hw
  | getSvrConn key =>
      obtain rfl := Option.some.inj hstep
      exact hP.getSvrConn key hw
  | getConn a =>
      obtain rfl := Option.some.inj hstep
      exact hP.getConn a w hw

end TableInvariant

namespace World.Tracked

theorem dropSvr {w : World} (hw : w.Tracked) (a : Addr) : (ProxyMgr.dropSvr a w).Tracked :=
  (hw.closeSvr a).rmSvr a

theorem trimSvr {w : World} (hw : w.Tracked) (a : Addr) : (ProxyMgr.trimSvr a w).Tracked := by
  unfold ProxyMgr.trimSvr
  split
  · exact (hw.getConn a).rmSvrConn a _
  · exact hw.getConn a

theorem trims {w : World} (hw : w.Tracked) (a : Addr) (n : Nat) :
    ((ProxyMgr.trimSvr a)^[n] w).Tracked := by
  induction n generalizing w with
  | zero => exact hw
  | succ n ih => exact ih (hw.trimSvr a)

theorem reBuildSvr {w : World} (hw : w.Tracked) (env : Env) (a : Addr) :
    (ProxyMgr.reBuildSvr env a w).Tracked := by
  unfold ProxyMgr.reBuildSvr
  split
  · exact hw.connSvr env a
  · split
    · exact hw.trims a _
    · exact hw

theorem tableInvariant : TableInvariant World.Tracked where
  proxy := fun _ m hw => hw.withProxy m
  register := fun env a _ hw _ => (hw.addSvr a).connSvr env a
  drop := fun a _ hw => hw.dropSvr a
  reBuildSvr := fun env a _ hw => hw.reBuildSvr env a
  getConn := fun a _ hw => hw.getConn a

/-- **Every atomic operation** keeps the connection tables in step with the connections. -/
theorem step {w w' : World} {op : Op} (hw : w.Tracked) (h : w.step op = some w') : w'.Tracked :=
  tableInvariant.step
    (fun env _ peer _ hpos hfree => hw.establish env peer .accepted hpos hfree)
    (fun h c _ hc => hw.handleClose (by rw [(hw.own h c hc).1, hc])) hw h

/-- So they are in step in every reachable state. -/
theorem of_run {ops : List Op} {w : World} (h : replay World.step World.start ops = some w) :
    w.Tracked :=
  replay_invariant' (fun _ _ _ hw hs => hw.step hs) ops _ w start h

end World.Tracked

end TcpFramework
