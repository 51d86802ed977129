/-
  TcpFramework.Reconnection — what a reBuild pass leaves.

  reBuild visits every server of every key once: it connects to one without handles and
  trims one with more than three.  The trimming loop takes its victims from getConn's
  rotating place while rmSvrConn rebuilds handle_list at every step, so which handles go is
  anybody's guess; but each step takes out one handle that is there (`trimSvr_spec`), so
  three of them remain.

  Main results:
    * `trims_spec` — a number of turns of the trimming loop.
    * `reBuild_eq` — the pass is one walk over the routed servers.
    * `reBuild_reconnects` — what every routed server has after the pass.
-/
import TcpFramework.RoutingTables

namespace TcpFramework

/-! ## §1. The states reBuild is about. -/

/-- The routed servers, in the order in which reBuild visits them. -/
def World.routed (w : World) : List Addr := w.mapProxy.keys.elems.flatMap w.serversOf

/-- An entry of SvrMgr as it is constructed and kept: the state is ST_NORMAL, handle_list
enumerates the handles, and these are descriptors of connections. -/
structure SServer.Regular (s : SServer) : Prop where
  normal : s.eStat = .normal
  shadow : Enumerates s.handleList s.handles
  descriptor : ∀ h ∈ s.handles, h ≠ -1

/-- The server_list of each key enumerates registered servers, and no server is under two
keys. -/
structure World.Regular (w : World) : Prop where
  registered : ∀ key p a, w.mapProxy.find key = some p → a ∈ p.serverList →
    ∃ s, w.mapSvr a = some s
  listed : ∀ key p, w.mapProxy.find key = some p → p.serverList.Nodup
  disjoint : ∀ key key' p p' a, w.mapProxy.find key = some p → w.mapProxy.find key' = some p' →
    a ∈ p.serverList → a ∈ p'.serverList → key = key'
  entry : ∀ a s, w.mapSvr a = some s → s.Regular

namespace World

theorem mem_routed {w : World} {a : Addr} :
    a ∈ w.routed ↔ ∃ key p, w.mapProxy.find key = some p ∧ a ∈ p.serverList := by
  unfold routed
  rw [List.mem_flatMap]
  constructor
  · rintro ⟨key, -, ha⟩
    exact ⟨key, mem_serversOf.mp ha⟩
  · rintro ⟨key, p, hp, ha⟩
    exact ⟨key, UnorderedMap.mem_keys_of_find hp, mem_serversOf.mpr ⟨p, hp, ha⟩⟩

/-- No server is visited twice. -/
theorem Regular.routed_nodup {w : World} (hw : w.Regular) : w.routed.Nodup := by
  unfold routed
  rw [List.nodup_flatMap]
  constructor
  · intro key _
    unfold serversOf
    cases hp : w.mapProxy.find key with
    | none => exact List.nodup_nil
    | some p => exact hw.listed key p hp
  · refine w.mapProxy.keys.nodup.imp (fun {k k'} hne a ha ha' => hne ?_)
    obtain ⟨p, hp, hm⟩ := mem_serversOf.mp ha
    obtain ⟨p', hp', hm'⟩ := mem_serversOf.mp ha'
    exact hw.disjoint k k' p p' a hp hp' hm hm'

end World

namespace ProxyMgr

open World

/-! ## §2. The walk. -/

/-- **reBuild is one walk** over the routed servers: no turn changes the routing. -/
theorem reBuild_eq (env : Env) (w : World) :
    reBuild env w = w.routed.foldl (fun w a => reBuildSvr env a w) w := by
  have hwalk : ∀ (l : List Addr) (w' : World),
      (l.foldl (fun w a => reBuildSvr env a w) w').mapProxy = w'.mapProxy := by
    intro l
    induction l with
    | nil => exact fun _ => rfl
    | cons a l ih =>
        intro w'
        show (l.foldl _ (reBuildSvr env a w')).mapProxy = w'.mapProxy
        rw [ih, (reBuildSvr_sameRoutes env a w').mapProxy]
  have hpass : reBuild env w = w.mapProxy.keys.elems.foldl
      (fun w key => (w.serversOf key).foldl (fun w a => reBuildSvr env a w) w) w := by
    unfold reBuild
    congr 1
    funext w' key
    unfold serversOf
    cases w'.mapProxy.find key <;> rfl
  have hkeys : ∀ (ks : List Int) (w' : World), w'.mapProxy = w.mapProxy →
      ks.foldl (fun w key => (w.serversOf key).foldl (fun w a => reBuildSvr env a w) w) w'
      = (ks.flatMap w.serversOf).foldl (fun w a => reBuildSvr env a w) w' := by
    intro ks
    induction ks with
    | nil => exact fun _ _ => rfl
    | cons key ks ih =>
        intro w' hsame
        rw [List.foldl_cons, List.flatMap_cons, List.foldl_append]
        have hservers : w'.serversOf key = w.serversOf key := by
          unfold serversOf
          rw [hsame]
        rw [hservers]
        exact ih _ ((hwalk _ w').trans hsame)
  exact hpass.trans (hkeys w.mapProxy.keys.elems w rfl)

/-- A turn of the trimming loop leaves the other servers alone. -/
theorem trimSvr_others (a : Addr) (w : World) {b : Addr} (hb : b ≠ a) :
    (trimSvr a w).mapSvr b = w.mapSvr b := by
  have hedit : ∀ {w' w'' : World}, w'.Edits a w'' → w''.mapSvr b = w'.mapSvr b := by
    intro w' w'' h
    rcases h with rfl | ⟨s, s', -, rfl⟩
    · rfl
    · exact Function.update_of_ne hb _ _
  unfold trimSvr
  split
  · rw [hedit (SvrMgr.rmSvrConn_edits a _ _), hedit (SvrMgr.getConn_edits a w)]
  · exact hedit (SvrMgr.getConn_edits a w)

/-- So does the work at one server. -/
theorem reBuildSvr_others (env : Env) (a : Addr) (w : World) {b : Addr} (hb : b ≠ a) :
    (reBuildSvr env a w).mapSvr b = w.mapSvr b := by
  have htrims : ∀ (n : Nat) (w : World), ((trimSvr a)^[n] w).mapSvr b = w.mapSvr b := by
    intro n
    induction n with
    | zero => exact fun _ => rfl
    | succ n ih =>
        intro w
        rw [Function.iterate_succ_apply, ih, trimSvr_others a w hb]
  unfold reBuildSvr
  split
  · rcases SvrMgr.connSvr_cases env a w with he | ⟨h, -, -, he⟩
    · rw [he]
    · rw [he]
      exact establish_mapSvr env h .connected w hb
  · split
    · exact htrims _ w
    · rfl

theorem reBuildSvrs_others (env : Env) {b : Addr} (l : List Addr) :
    ∀ {w : World}, b ∉ l → (l.foldl (fun w a => reBuildSvr env a w) w).mapSvr b = w.mapSvr b := by
  induction l with
  | nil => exact fun _ => rfl
  | cons a l ih =>
      intro w hb
      rw [List.mem_cons, not_or] at hb
      rw [List.foldl_cons, ih hb.2, reBuildSvr_others env a w hb.1]

/-! ## §3. One server. -/

/-- **One turn of the trimming loop** takes out one of the server's handles. -/
theorem trimSvr_spec {w : World} {a : Addr} {s : SServer} (hs : w.mapSvr a = some s)
    (hreg : s.Regular) (hne : s.handleList ≠ []) :
    ∃ s', (trimSvr a w).mapSvr a = some s' ∧ s'.Regular
      ∧ s'.handleList.length + 1 = s.handleList.length ∧ ∀ h ∈ s'.handles, h ∈ s.handles := by
  have hstat : s.eStat ≠ .unnormal := by
    rw [hreg.normal]
    exact fun h => STATUS.noConfusion h
  have hlt := Nat.mod_lt s.nPos.toNat (List.length_pos_iff.mpr hne)
  obtain ⟨h, hh⟩ : ∃ h, s.handleList[s.nPos.toNat % s.handleList.length]? = some h :=
    ⟨_, List.getElem?_eq_getElem hlt⟩
  have hmem : h ∈ s.handles := (hreg.shadow.2 h).mp (List.mem_of_getElem? hh)
  have hget : SvrMgr.getConn a w
      = (h, { w with
          mapSvr := Function.update w.mapSvr a (some { s with nPos := s.nPos + 1 }) }) := by
    simp [SvrMgr.getConn, hs, hstat, hh]
  have htrim : (trimSvr a w).mapSvr a = some { s with
      nPos := s.nPos + 1
      handles := s.handles.erase h
      handleList := (s.handles.erase h).elems } := by
    unfold trimSvr
    rw [hget, if_pos (hreg.descriptor h hmem)]
    simp [SvrMgr.rmSvrConn, hmem]
  -- the vector had as many elements as the set
  have hlen : s.handleList.length = s.handles.elems.length :=
    ((List.perm_ext_iff_of_nodup hreg.shadow.1 s.handles.nodup).mpr hreg.shadow.2).length_eq
  refine ⟨_, htrim, ⟨hreg.normal, Enumerates.elems, ?_⟩, ?_, ?_⟩
  · exact fun j hj => hreg.descriptor j (UnorderedSet.mem_erase.mp hj).2
  · show (s.handles.elems.erase h).length + 1 = s.handleList.length
    rw [List.length_erase_of_mem hmem, hlen]
    have hpos : 0 < s.handles.elems.length := List.length_pos_of_mem hmem
    omega
  · exact fun j hj => (UnorderedSet.mem_erase.mp hj).2

/-- **The trimming loop** takes out as many handles as it makes turns. -/
theorem trims_spec {a : Addr} (n : Nat) :
    ∀ {w : World} {s : SServer}, w.mapSvr a = some s → s.Regular → n ≤ s.handleList.length →
      ∃ s', ((trimSvr a)^[n] w).mapSvr a = some s' ∧ s'.Regular
        ∧ s'.handleList.length + n = s.handleList.length ∧ ∀ h ∈ s'.handles, h ∈ s.handles := by
  induction n with
  | zero => exact fun hs hreg _ => ⟨_, hs, hreg, rfl, fun _ hh => hh⟩
  | succ n ih =>
      intro w s hs hreg hle
      have hne : s.handleList ≠ [] := List.length_pos_iff.mp (by omega)
      obtain ⟨s₁, hs₁, hreg₁, hlen₁, hsub₁⟩ := trimSvr_spec hs hreg hne
      obtain ⟨s₂, hs₂, hreg₂, hlen₂, hsub₂⟩ := ih hs₁ hreg₁ (by omega)
      rw [Function.iterate_succ_apply]
      exact ⟨s₂, hs₂, hreg₂, by omega, fun h hh => hsub₁ h (hsub₂ h hh)⟩

/-- What the pass leaves at a server that had the entry `s`, when its connect has this
outcome. -/
structure Rebuilt (s : SServer) (outcome : Option Int) (s' : SServer) : Prop where
  shadow : Enumerates s'.handleList s'.handles
  /-- No handle: one if the connect succeeded, none otherwise. -/
  connected : s.handleList = [] → s'.handleList = outcome.toList
  /-- One to three handles: the same ones. -/
  same : 1 ≤ s.handleList.length → s.handleList.length ≤ 3 → s' = s
  /-- More: three of them. -/
  trimmed : 3 < s.handleList.length →
    s'.handleList.length = 3 ∧ ∀ h ∈ s'.handles, h ∈ s.handles

theorem connSvr_fails {env : Env} {a : Addr} {w : World} (hc : env.connect a w.fds = none) :
    (SvrMgr.connSvr env a w).2.mapSvr = w.mapSvr := by
  simp [SvrMgr.connSvr, ConnMgr.connect, hc]

/-- A new connection enters the entry of its peer, which is the server. -/
theorem connSvr_connects {env : Env} {a : Addr} {w : World} {s : SServer} {h : Int}
    (hs : w.mapSvr a = some s) (hc : env.connect a w.fds = some h) (hnew : h ∉ s.handles) :
    (SvrMgr.connSvr env a w).2.mapSvr a = some { s with
      handles := s.handles.insert env.handlePlace h
      handleList := s.handleList ++ [h] } := by
  cases hm : w.mConn h <;>
    simp [SvrMgr.connSvr, ConnMgr.connect, hc, World.establish, ConnMgr.addConn, hm,
      SvrMgr.addSvrConn, hs, hnew]

/-- The work at one server. -/
theorem reBuildSvr_spec (env : Env) {a : Addr} {w : World} {s : SServer}
    (hs : w.mapSvr a = some s) (hreg : s.Regular) :
    ∃ s', (reBuildSvr env a w).mapSvr a = some s' ∧ Rebuilt s (env.connect a w.fds) s' := by
  have hnum : SvrMgr.getHandleNum a w = s.handleList.length := by
    simp [SvrMgr.getHandleNum, hs]
  unfold reBuildSvr
  rw [hnum]
  by_cases h0 : (s.handleList.length : Int) = 0
  · rw [if_pos h0]
    have hnil : s.handleList = [] := List.length_eq_zero_iff.mp (by omega)
    have hempty : ∀ h, h ∉ s.handles := hreg.shadow.not_mem_of_nil hnil
    cases hc : env.connect a w.fds with
    | none =>
        refine ⟨s, by rw [connSvr_fails hc, hs], hreg.shadow, ?_, ?_, ?_⟩
        · exact fun _ => hnil
        · exact fun _ _ => rfl
        · intro hlen
          omega
    | some h =>
        refine ⟨_, connSvr_connects hs hc (hempty h),
          hreg.shadow.push_back env.handlePlace (hempty h), ?_, ?_, ?_⟩
        · intro _
          show s.handleList ++ [h] = [h]
          rw [hnil, List.nil_append]
        · intro hlen
          omega
        · intro hlen
          omega
  · rw [if_neg h0]
    by_cases h3 : (s.handleList.length : Int) > 3
    · rw [if_pos h3]
      obtain ⟨s', hs', hreg', hlen, hsub⟩ :=
        trims_spec (((s.handleList.length : Int) - 3).toNat) hs hreg (by omega)
      refine ⟨s', hs', hreg'.shadow, ?_, ?_, ?_⟩
      · intro hnil
        rw [hnil] at h0
        exact absurd rfl h0
      · intro _ hle
        omega
      · exact fun _ => ⟨by omega, hsub⟩
    · rw [if_neg h3]
      refine ⟨s, hs, hreg.shadow, ?_, fun _ _ => rfl, ?_⟩
      · intro hnil
        rw [hnil] at h0
        exact absurd rfl h0
      · intro hlen
        omega

/-! ## §4. The pass. -/

/-- The state in which the server's turn comes. -/
def beforeTurn (env : Env) (a : Addr) (w : World) : World :=
  (w.routed.takeWhile (· ≠ a)).foldl (fun w b => reBuildSvr env b w) w

/-- A list up to the first occurrence of an element, and the rest. -/
theorem takeWhile_ne_append {a : Addr} :
    ∀ {l : List Addr}, a ∈ l → ∃ rest, l = l.takeWhile (· ≠ a) ++ a :: rest
  | [], h => absurd h List.not_mem_nil
  | b :: l, h => by
      by_cases hb : b = a
      · exact ⟨l, by simp [hb]⟩
      · obtain ⟨rest, hl⟩ := takeWhile_ne_append ((List.mem_cons.mp h).resolve_left (Ne.symm hb))
        refine ⟨rest, ?_⟩
        rw [List.takeWhile_cons_of_pos (by simpa using hb), List.cons_append, ← hl]

/-- **The reconnection pass.**  From any regular state, with any number of handles and any
nPos, and for every outcome of the connects: a routed server without handles has one if its
connect succeeded, up to three stay as they are, and of more three remain. -/
theorem reBuild_reconnects {w : World} (hw : w.Regular) (env : Env) {key : Int} {p : SProxy}
    (hp : w.mapProxy.find key = some p) {a : Addr} (ha : a ∈ p.serverList) {s : SServer}
    (hs : w.mapSvr a = some s) :
    ∃ s', (reBuild env w).mapSvr a = some s'
      ∧ Rebuilt s (env.connect a (beforeTurn env a w).fds) s' := by
  have hmem : a ∈ w.routed := mem_routed.mpr ⟨key, p, hp, ha⟩
  -- the walk up to the server, its turn, and the rest
  obtain ⟨rest, hsplit⟩ := takeWhile_ne_append hmem
  have hnd := hw.routed_nodup
  rw [hsplit, List.nodup_append] at hnd
  have hbefore : a ∉ w.routed.takeWhile (· ≠ a) := fun hin =>
    hnd.2.2 a hin a List.mem_cons_self rfl
  have hafter : a ∉ rest := (List.nodup_cons.mp hnd.2.1).1
  have hturn : (beforeTurn env a w).mapSvr a = some s := by
    unfold beforeTurn
    rw [reBuildSvrs_others env _ hbefore, hs]
  obtain ⟨s', hs', hbuilt⟩ := reBuildSvr_spec env hturn (hw.entry a s hs)
  refine ⟨s', ?_, hbuilt⟩
  rw [reBuild_eq, hsplit, List.foldl_append, List.foldl_cons]
  show (rest.foldl _ (reBuildSvr env a (beforeTurn env a w))).mapSvr a = some s'
  rw [reBuildSvrs_others env _ hafter, hs']

end ProxyMgr

/-- Five connections to one server. -/
def unevenConns (h : Int) : Option DASvcHandler :=
  if 3 ≤ h ∧ h ≤ 7 then some ⟨h.toNat - 3, h, (10, 80), .connected⟩ else none

/-- Two servers under a key: one with five handles, in some order and with some nPos, and
one without any. -/
def World.uneven : World where
  fds := unevenConns
  nextId := 5
  mConn := unevenConns
  mapSvr := fun a =>
    if a = (10, 80) then some {
      nPos := 7, handles := ⟨[3, 4, 5, 6, 7], by decide⟩, handleList := [7, 5, 3, 4, 6] }
    else if a = (11, 80) then some {}
    else none
  mapProxy := UnorderedMap.empty.insert .front 1 { serverList := [(10, 80), (11, 80)] }

theorem World.uneven_regular : World.uneven.Regular := by
  have hkey : ∀ key p, World.uneven.mapProxy.find key = some p →
      key = 1 ∧ p.serverList = [(10, 80), (11, 80)] := by
    intro key p hp
    by_cases hk : key = 1
    · obtain rfl := (by simpa [uneven, hk] using hp : _ = p)
      exact ⟨hk, rfl⟩
    · simp [uneven, hk, UnorderedMap.empty] at hp
  refine ⟨?_, ?_, ?_, ?_⟩
  · intro key p a hp ha
    rw [(hkey key p hp).2] at ha
    rcases List.mem_cons.mp ha with rfl | ha
    · exact ⟨_, rfl⟩
    · obtain rfl := List.mem_singleton.mp ha
      exact ⟨_, rfl⟩
  · intro key p hp
    rw [(hkey key p hp).2]
    decide
  · intro key key' p p' a hp hp' _ _
    rw [(hkey key p hp).1, (hkey key' p' hp').1]
  · intro a s hs
    unfold uneven at hs
    by_cases ha : a = (10, 80)
    · obtain rfl := (by simpa [ha] using hs : _ = s)
      refine ⟨rfl, ⟨by decide, fun h => ?_⟩, ?_⟩
      · show h ∈ [7, 5, 3, 4, 6] ↔ h ∈ [3, 4, 5, 6, 7]
        simp only [List.mem_cons, List.not_mem_nil, or_false]
        omega
      · intro h hh
        have hh' : h ∈ [3, 4, 5, 6, 7] := hh
        simp only [List.mem_cons, List.not_mem_nil, or_false] at hh'
        omega
    · by_cases hb : a = (11, 80)
      · obtain rfl := (by simpa [hb] using hs : _ = s)
        exact ⟨rfl, Enumerates.elems (s := .empty), fun h hh => absurd hh List.not_mem_nil⟩
      · simp [ha, hb] at hs

/-- Two of the five handles go. -/
theorem reBuild_reconnects_uneven :
    ∃ s', (ProxyMgr.reBuild .dial World.uneven).mapSvr (10, 80) = some s'
      ∧ s'.handleList.length = 3 := by
  obtain ⟨s', hs', hbuilt⟩ := @ProxyMgr.reBuild_reconnects World.uneven World.uneven_regular
    .dial 1 _ rfl (10, 80) List.mem_cons_self _ rfl
  exact ⟨s', hs', (hbuilt.trimmed (by decide)).1⟩

end TcpFramework
