/-
  TcpFramework.UpdateRouter — SVCMgr::onUpdateRouter, and what repeating it does.

  onUpdateRouter copies a std::map from route keys to vectors of servers into the target of
  updateProxy.  updateProxy loses a server that moves from one key to another
  (RouteUpdate), so one call may leave a part of the map uninstalled.  What it leaves
  uninstalled is free, though: the second call with the same map installs all of it, and
  the calls after that find nothing to do.

  Main result:
    * `onUpdateRouter_settles` — two calls install the map, whatever connections do in
      between, and it stays installed; further calls touch no connection.
-/
import TcpFramework.RouteUpdate
import TcpFramework.UpdateEffects

namespace TcpFramework

open StepSystem Assignment

/-! ## §1. onUpdateRouter. -/

/-- `std::map<int, std::vector<PAIR_SVR_INFO> >`: its entries, in the order of the keys. -/
structure RouterMap where
  entries : List (Int × List Addr)
  sorted : entries.Pairwise fun e e' => e.1 < e'.1

/-- The map puts the server under the key. -/
def RouterMap.Puts (m : RouterMap) (key : Int) (a : Addr) : Prop :=
  ∃ svrs, (key, svrs) ∈ m.entries ∧ a ∈ svrs

/-- No server is under two keys of the map. -/
def RouterMap.OneKeyEach (m : RouterMap) : Prop :=
  ∀ key key' a, m.Puts key a → m.Puts key' a → key = key'

namespace SVCMgr

/-- The key gets its set, when it has none. -/
def ensureSet (env : Env) (key : Int) (mapServer : ProxyMgr.Target) : ProxyMgr.Target :=
  match mapServer.find key with
  | none => mapServer.insert env.keyPlace key .empty
  | some _ => mapServer

/-- A turn of the outer loop: the servers are inserted into the set of the key. -/
def addServers (env : Env) (mapServer : ProxyMgr.Target) (e : Int × List Addr) :
    ProxyMgr.Target :=
  e.2.foldl (fun m a => m.modify e.1 fun s => s.insert env.svrPlace a)
    (ensureSet env e.1 mapServer)

/-- `mapServer`, after the loops. -/
def mapServer (env : Env) (mapSvrs : RouterMap) : ProxyMgr.Target :=
  mapSvrs.entries.foldl (addServers env) .empty

/-- `onUpdateRouter`; it returns true in every case. -/
def onUpdateRouter (env : Env) (mapSvrs : RouterMap) (w : World) : Bool × World :=
  (true, ProxyMgr.updateProxy env (mapServer env mapSvrs) w)

/-! ## §2. The target. -/

/-- The inner loop leaves the other keys alone. -/
theorem insertAll_find (env : Env) (key : Int) (svrs : List Addr) :
    ∀ (m : ProxyMgr.Target) (k : Int), k ≠ key →
      (svrs.foldl (fun m a => m.modify key fun s => s.insert env.svrPlace a) m).find k
        = m.find k := by
  induction svrs with
  | nil => exact fun _ _ _ => rfl
  | cons a svrs ih =>
      intro m k hk
      rw [List.foldl_cons, ih _ k hk]
      simp [hk]

/-- At the key it inserts the servers. -/
theorem insertAll_self (env : Env) (key : Int) (svrs : List Addr) :
    ∀ (m : ProxyMgr.Target) (s : UnorderedSet Addr), m.find key = some s →
      ∃ s', (svrs.foldl (fun m a => m.modify key fun s => s.insert env.svrPlace a) m).find key
          = some s' ∧ ∀ a, a ∈ s' ↔ a ∈ s ∨ a ∈ svrs := by
  induction svrs with
  | nil => exact fun m s hs => ⟨s, hs, by simp⟩
  | cons b svrs ih =>
      intro m s hs
      obtain ⟨s', hs', hmem⟩ := ih (m.modify key fun s => s.insert env.svrPlace b)
        (s.insert env.svrPlace b) (by simp [hs])
      refine ⟨s', hs', fun a => ?_⟩
      rw [hmem a, UnorderedSet.mem_insert, List.mem_cons, or_comm (a := a = b), or_assoc]

/-- The set of the key is there when the inner loop starts, and empty if it is new. -/
theorem ensureSet_find (env : Env) (key : Int) (m : ProxyMgr.Target) :
    ∃ s, (ensureSet env key m).find key = some s
      ∧ ∀ a, a ∈ s ↔ (key, a) ∈ ProxyMgr.pairs m := by
  simp only [ProxyMgr.mem_pairs]
  unfold ensureSet
  cases hm : m.find key with
  | none => exact ⟨.empty, by simp, by simp⟩
  | some s => exact ⟨s, hm, by simp⟩

/-- A turn of the outer loop adds its key, and its servers under it. -/
theorem addServers_spec (env : Env) (m : ProxyMgr.Target) (e : Int × List Addr) (key : Int) :
    (((addServers env m e).find key).isSome = true
        ↔ (m.find key).isSome = true ∨ key = e.1)
      ∧ ∀ a, (key, a) ∈ ProxyMgr.pairs (addServers env m e)
          ↔ (key, a) ∈ ProxyMgr.pairs m ∨ key = e.1 ∧ a ∈ e.2 := by
  by_cases hk : key = e.1
  · subst hk
    obtain ⟨s, hs, hold⟩ := ensureSet_find env e.1 m
    obtain ⟨s', hs', hmem⟩ := insertAll_self env e.1 e.2 _ s hs
    have hfind : (addServers env m e).find e.1 = some s' := hs'
    constructor
    · simp [hfind]
    · intro a
      rw [← hold a, ProxyMgr.mem_pairs]
      simp [hfind, hmem a]
  · have hfind : (addServers env m e).find key = m.find key := by
      have hset : (ensureSet env e.1 m).find key = m.find key := by
        unfold ensureSet
        cases hm : m.find e.1 <;> simp [hk]
      exact (insertAll_find env e.1 e.2 _ key hk).trans hset
    constructor
    · simp [hfind, hk]
    · intro a
      rw [ProxyMgr.mem_pairs, ProxyMgr.mem_pairs, hfind]
      simp [hk]

/-- The target has the keys of the map, and under each key the servers of the map. -/
theorem mapServer_spec (env : Env) (mapSvrs : RouterMap) (key : Int) :
    (((mapServer env mapSvrs).find key).isSome = true
        ↔ ∃ svrs, (key, svrs) ∈ mapSvrs.entries)
      ∧ ∀ a, (key, a) ∈ ProxyMgr.pairs (mapServer env mapSvrs) ↔ mapSvrs.Puts key a := by
  have hloop : ∀ (es : List (Int × List Addr)) (m : ProxyMgr.Target),
      (((es.foldl (addServers env) m).find key).isSome = true
          ↔ (m.find key).isSome = true ∨ ∃ svrs, (key, svrs) ∈ es)
        ∧ ∀ a, (key, a) ∈ ProxyMgr.pairs (es.foldl (addServers env) m)
            ↔ (key, a) ∈ ProxyMgr.pairs m ∨ ∃ svrs, (key, svrs) ∈ es ∧ a ∈ svrs := by
    intro es
    induction es with
    | nil => intro m; simp
    | cons e es ih =>
        intro m
        obtain ⟨hkey, hmem⟩ := addServers_spec env m e key
        obtain ⟨hkey', hmem'⟩ := ih (addServers env m e)
        obtain ⟨k, svrs⟩ := e
        constructor
        · rw [List.foldl_cons, hkey', hkey, or_assoc]
          simp only [List.mem_cons, Prod.mk.injEq, exists_or, exists_and_left, exists_eq,
            and_true]
        · intro a
          rw [List.foldl_cons, hmem' a, hmem a, or_assoc]
          refine or_congr_right ?_
          constructor
          · rintro (⟨rfl, ha⟩ | ⟨svrs', hs, ha⟩)
            · exact ⟨svrs, List.mem_cons_self, ha⟩
            · exact ⟨svrs', List.mem_cons_of_mem _ hs, ha⟩
          · rintro ⟨svrs', hs, ha⟩
            rcases List.mem_cons.mp hs with he | hs
            · obtain ⟨rfl, rfl⟩ := Prod.mk.inj he
              exact Or.inl ⟨rfl, ha⟩
            · exact Or.inr ⟨svrs', hs, ha⟩
  have hnone : ∀ k, (UnorderedMap.empty : ProxyMgr.Target).find k = none := fun _ => rfl
  obtain ⟨hkey, hmem⟩ := hloop mapSvrs.entries .empty
  constructor
  · rw [mapServer, hkey, hnone]
    simp
  · intro a
    rw [mapServer, hmem a, ProxyMgr.mem_pairs, hnone]
    simp [RouterMap.Puts]

end SVCMgr

/-! ## §3. Operations that keep the routing. -/

/-- Connections open and close, backends are reconnected, messages are dispatched. -/
def Op.keepsRoutes : Op → Prop
  | .addSvr .. => False
  | .rmSvr .. => False
  | .updateProxy .. => False
  | _ => True

namespace World

/-- The same keys are there. -/
def SameKeys (w w' : World) : Prop :=
  ∀ key, (w'.mapProxy.find key).isSome = (w.mapProxy.find key).isSome

theorem SameRoutes.keys {w w' : World} (h : w.SameRoutes w') : w.SameKeys w' :=
  fun key => by rw [h.mapProxy]

theorem nextPos_keys (key : Int) (w : World) : w.SameKeys (ProxyMgr.nextPos key w) := by
  intro k
  by_cases hk : k = key <;> simp [ProxyMgr.nextPos, hk]

theorem getSvrConnLoop_keys (key : Int) (n : Nat) :
    ∀ (handle : Int) (w : World), w.SameKeys (ProxyMgr.getSvrConnLoop key n handle w).2 := by
  induction n with
  | zero => exact fun _ _ _ => rfl
  | succ n ih =>
      intro handle w
      unfold ProxyMgr.getSvrConnLoop
      split
      · exact fun _ => rfl
      · dsimp only
        split
        · exact nextPos_keys key w
        next a _ =>
          have hget := (SvrMgr.getConn_edits a (ProxyMgr.nextPos key w)).sameRoutes.keys
          intro k
          exact (ih _ _ k).trans ((hget k).trans (nextPos_keys key w k))

/-- What every server is assigned to, and the keys, stay as they are. -/
structure KeepsRoutes (w w' : World) : Prop where
  routes : ∀ r, w.Routes r → w.ListedExcept none → w'.Routes r ∧ w'.ListedExcept none
  keys : w.SameKeys w'

theorem SameRoutes.keepsRoutes {w w' : World} (h : w.SameRoutes w') : w.KeepsRoutes w' :=
  ⟨fun _ hr hl => ⟨hr.same h, hl.same h⟩, h.keys⟩

/-- **One such operation.** -/
theorem step_keepsRoutes {w w' : World} {op : Op} (hop : op.keepsRoutes)
    (hstep : w.step op = some w') : w.KeepsRoutes w' := by
  cases op with
  | accept env handle peer =>
      simp only [World.step] at hstep
      split at hstep
      next =>
        obtain rfl := Option.some.inj hstep
        exact (establish_sameRoutes env handle peer .accepted w).keepsRoutes
      next => exact absurd hstep (by simp)
  | closed handle =>
      simp only [World.step] at hstep
      split at hstep
      next => exact absurd hstep (by simp)
      next =>
        obtain rfl := Option.some.inj hstep
        exact (DASvcHandler.handleClose_sameRoutes _ w).keepsRoutes
  | addSvr env key a => exact absurd hop id
  | rmSvr key a => exact absurd hop id
  | updateProxy env t => exact absurd hop id
  | reBuild env =>
      obtain rfl := Option.some.inj hstep
      exact (reBuild_sameRoutes env w).keepsRoutes
  | getSvrConn key =>
      obtain rfl := Option.some.inj hstep
      refine ⟨fun _ hr hl => hr.getSvrConn hl key, ?_⟩
      show w.SameKeys (ProxyMgr.getSvrConn key w).2
      unfold ProxyMgr.getSvrConn
      split
      · exact fun _ => rfl
      · exact getSvrConnLoop_keys key _ _ w
  | getConn a =>
      obtain rfl := Option.some.inj hstep
      exact (SvrMgr.getConn_edits a w).sameRoutes.keepsRoutes

theorem run_keepsRoutes {ops : List Op} :
    ∀ {w w' : World}, (∀ op ∈ ops, op.keepsRoutes) → replay World.step w ops = some w' →
      w.KeepsRoutes w' := by
  induction ops with
  | nil =>
      intro w w' _ h
      obtain rfl := Option.some.inj h
      exact ⟨fun _ hr hl => ⟨hr, hl⟩, fun _ => rfl⟩
  | cons op ops ih =>
      intro w w' hops h
      obtain ⟨w₁, hstep, hrest⟩ := replay_cons.mp h
      have hfirst := step_keepsRoutes (hops op List.mem_cons_self) hstep
      have hlast := ih (fun o ho => hops o (List.mem_cons_of_mem op ho)) hrest
      refine ⟨fun r hr hl => ?_, fun key => (hlast.keys key).trans (hfirst.keys key)⟩
      obtain ⟨hr', hl'⟩ := hfirst.routes r hr hl
      exact hlast.routes r hr' hl'

end World

/-! ## §4. The map is installed. -/

/-- The tables are exactly the map; a key of the map that is not there counts as one without
servers. -/
structure World.Follows (w : World) (m : RouterMap) : Prop where
  keys : ∀ key p, w.mapProxy.find key = some p → ∃ svrs, (key, svrs) ∈ m.entries
  servers : ∀ key a, w.Serves key a ↔ m.Puts key a
  serverList : ∀ key a, a ∈ w.serversOf key ↔ m.Puts key a
  registered : ∀ a, SvrMgr.isSvrExist a w = true ↔ ∃ key, m.Puts key a

/-- Nothing but `mapProxy` differs: no connection is opened, closed or moved, and no server
is registered or forgotten. -/
def World.OnlyProxy (w w' : World) : Prop := w' = { w with mapProxy := w'.mapProxy }

/-- So it is when no server has been dropped. -/
theorem World.Dropped.onlyProxy {w w' : World} {R : Addr → Prop} (h : w.Dropped R w')
    (hw : w.Tracked) (hw' : w'.Tracked) (hR : ∀ a, ¬ R a) : w.OnlyProxy w' := by
  have hfds : w'.fds = w.fds := funext fun j => Option.ext fun c =>
    (h.fds j c).trans (and_iff_left fun ⟨a, ha, _⟩ => hR a ha)
  have hsvr : w'.mapSvr = w.mapSvr := funext fun a => h.others a (hR a)
  have hconn : w'.mConn = w.mConn := by rw [hw'.recorded, hfds, hw.recorded]
  show World.mk w'.fds w'.nextId w'.mConn w'.mapSvr w'.mapProxy = _
  rw [hfds, h.nextId, hconn, hsvr]

/-- The assignment behind the tables is the map. -/
structure World.Settled (w : World) (m : RouterMap) (r : Assignment Int Addr) : Prop where
  routes : w.Routes r
  listed : w.ListedExcept none
  exact : ∀ key a, r a = some key ↔ m.Puts key a
  keys : ∀ key, (w.mapProxy.find key).isSome = true → ∃ svrs, (key, svrs) ∈ m.entries

namespace World

theorem Settled.follows {w : World} {m : RouterMap} {r : Assignment Int Addr}
    (h : w.Settled m r) : w.Follows m where
  keys := fun key p hp => h.keys key (by rw [hp]; rfl)
  servers := fun key a => (h.routes.serves key a).trans (h.exact key a)
  serverList := by
    intro key a
    rw [mem_serversOf, ← h.exact key a, ← h.routes.serves key a]
    exact exists_congr fun p => and_congr_right fun hp => (h.listed key p (by simp) hp).2 a
  registered := by
    intro a
    rw [h.routes.exist a, Option.isSome_iff_exists]
    exact exists_congr fun key => h.exact key a

theorem Settled.keeps {w w' : World} {m : RouterMap} {r : Assignment Int Addr}
    (h : w.Settled m r) (hk : w.KeepsRoutes w') : w'.Settled m r := by
  obtain ⟨hr, hl⟩ := hk.routes r h.routes h.listed
  exact ⟨hr, hl, h.exact, fun key hkey => h.keys key ((hk.keys key).symm.trans hkey)⟩

end World

namespace SVCMgr

/-- The keys that the second pass visits are those that have a server after the first. -/
theorem visited {w : World} {r : Assignment Int Addr} (hr : w.Routes r)
    (hl : w.ListedExcept none) (env : Env) (t : ProxyMgr.Target) (a : Addr) (key : Int)
    (ha : assignAll (ProxyMgr.pairs t) r a = some key) :
    key ∈ (ProxyMgr.addRoutes env t w).mapProxy.keys.elems := by
  obtain ⟨p, hp, -⟩ := ((hr.addRoutes hl env t).1.serves key a).mpr ha
  exact UnorderedMap.mem_keys_of_find hp

theorem mapServer_pairs (env : Env) (m : RouterMap) (p : Int × Addr) :
    p ∈ ProxyMgr.pairs (mapServer env m) ↔ m.Puts p.1 p.2 :=
  (mapServer_spec env m p.1).2 p.2

theorem mapServer_exclusive (env : Env) {m : RouterMap} (hm : m.OneKeyEach) :
    Exclusive (ProxyMgr.pairs (mapServer env m)) := fun key key' a h h' =>
  hm key key' a ((mapServer_pairs env m _).mp h) ((mapServer_pairs env m _).mp h')

theorem onUpdateRouter_keys (env : Env) (m : RouterMap) (w : World) (key : Int)
    (h : ((onUpdateRouter env m w).2.mapProxy.find key).isSome = true) :
    ∃ svrs, (key, svrs) ∈ m.entries := by
  obtain ⟨p, hp⟩ := Option.isSome_iff_exists.mp h
  obtain ⟨svrs, hs⟩ := ProxyMgr.updateProxy_keys env (mapServer env m) w hp
  exact (mapServer_spec env m key).1.mp (by rw [hs]; rfl)

/-- **The second call installs the map.** -/
theorem settled_of_twice {w w₁ : World} (hw : w.Routed) {m : RouterMap} (hm : m.OneKeyEach)
    (env env' : Env) (h₁ : (onUpdateRouter env m w).2.KeepsRoutes w₁) :
    ∃ r, (onUpdateRouter env' m w₁).2.Settled m r := by
  obtain ⟨r, hr, hl⟩ := hw
  obtain ⟨hr', hl'⟩ := hr.updateProxy hl env (mapServer env m)
  obtain ⟨hr₁, hl₁⟩ := h₁.routes _ hr' hl'
  obtain ⟨hr₂, hl₂⟩ := hr₁.updateProxy hl₁ env' (mapServer env' m)
  refine ⟨_, hr₂, hl₂, fun key a => ?_, onUpdateRouter_keys env' m w₁⟩
  rw [replace_replace_exact (mapServer_exclusive env hm)
    (fun p => (mapServer_pairs env' m p).trans (mapServer_pairs env m p).symm)
    (visited hr hl env _) (visited hr₁ hl₁ env' _) key a, mapServer_pairs]

/-- A further call leaves it installed. -/
theorem settled_again {w : World} {m : RouterMap} {r : Assignment Int Addr}
    (h : w.Settled m r) (hm : m.OneKeyEach) (env : Env) :
    ∃ r', (onUpdateRouter env m w).2.Settled m r' := by
  obtain ⟨hr', hl'⟩ := h.routes.updateProxy h.listed env (mapServer env m)
  refine ⟨_, hr', hl', fun key a => ?_, onUpdateRouter_keys env m w⟩
  rw [replace_of_exact (mapServer_exclusive env hm) (visited h.routes h.listed env _)
    (fun key a => (h.exact key a).trans (mapServer_pairs env m (key, a)).symm) key a,
    mapServer_pairs]

/-- Its first pass does nothing: every server of the map is refused. -/
theorem addRoutes_settled {w : World} {m : RouterMap} {r : Assignment Int Addr}
    (h : w.Settled m r) (env : Env) : ProxyMgr.addRoutes env (mapServer env m) w = w := by
  unfold ProxyMgr.addRoutes
  refine List.foldlRecOn (motive := (· = w)) _ _ rfl (fun w' hw' key _ => ?_)
  obtain rfl := hw'
  split
  · rfl
  next svrs hs =>
    refine List.foldlRecOn (motive := (· = w')) _ _ rfl (fun w'' hw'' a ha => ?_)
    obtain rfl := hw''
    have hput : r a = some key := (h.exact key a).mpr
      ((mapServer_pairs env m (key, a)).mp (ProxyMgr.mem_pairs.mpr ⟨svrs, hs, ha⟩))
    obtain ⟨p, hp, -⟩ := (h.routes.serves key a).mpr hput
    rcases ProxyMgr.addSvr_cases env key a h.routes with ⟨-, he⟩ | ⟨_, hfree, -⟩
    · rw [he]
      simp only [ProxyMgr.ensureKey, hp]
    · rw [hput] at hfree
      exact absurd hfree (by simp)

/-- Its second pass drops nothing. -/
theorem onUpdateRouter_onlyProxy {w : World} (hw : w.Tracked) {m : RouterMap}
    {r : Assignment Int Addr} (h : w.Settled m r) (env : Env) :
    w.OnlyProxy (onUpdateRouter env m w).2 := by
  have hdrop := pruneKeys_dropped (mapServer env m) w.mapProxy.keys.elems hw h.routes h.listed
  have hno : ∀ a, ¬ ∃ key ∈ w.mapProxy.keys.elems, r a = some key
      ∧ (key, a) ∉ ProxyMgr.pairs (mapServer env m) := by
    rintro a ⟨key, -, ha, hnot⟩
    exact hnot ((mapServer_pairs env m (key, a)).mpr ((h.exact key a).mp ha))
  have hpass : (onUpdateRouter env m w).2
      = w.mapProxy.keys.elems.foldl (ProxyMgr.pruneKey (mapServer env m)) w := by
    show ProxyMgr.updateProxy env (mapServer env m) w = _
    unfold ProxyMgr.updateProxy
    rw [addRoutes_settled h env]
  have htrack : (onUpdateRouter env m w).2.Tracked :=
    World.Tracked.tableInvariant.updateProxy env (mapServer env m) hw
  rw [hpass] at htrack ⊢
  exact hdrop.onlyProxy hw htrack hno

/-! ## §5. Repeated calls. -/

/-- What may go on when the map is not changed any more: operations that keep the routing,
and further calls with the same map. -/
def keeps (m : RouterMap) (op : Op) : Prop :=
  op.keepsRoutes ∨ ∃ env, op = .updateProxy env (mapServer env m)

/-- A step of such a run leaves the map installed. -/
theorem settled_step {w w' : World} {m : RouterMap} (hm : m.OneKeyEach) {op : Op}
    (hop : keeps m op) (hw : ∃ r, w.Settled m r) (hstep : w.step op = some w') :
    ∃ r, w'.Settled m r := by
  obtain ⟨r, hr⟩ := hw
  rcases hop with hop | ⟨env, rfl⟩
  · exact ⟨r, hr.keeps (World.step_keepsRoutes hop hstep)⟩
  · obtain rfl := Option.some.inj hstep
    exact settled_again hr hm env

end SVCMgr

/-- **Repeated calls settle**: from any reachable state and for any map without a server
under two keys, two calls of onUpdateRouter install the map, whatever connections do in
between and whether servers move or not; it stays installed over every run of operations
that keep the routing and of further calls; and none of those calls touches a connection. -/
theorem onUpdateRouter_settles {ops : List Op} {w : World}
    (h : replay World.step World.start ops = some w) {m : RouterMap} (hm : m.OneKeyEach)
    (env env' : Env) {between rest : List Op} {w₁ w₂ : World}
    (hbetween : ∀ op ∈ between, op.keepsRoutes)
    (h₁ : replay World.step (SVCMgr.onUpdateRouter env m w).2 between = some w₁)
    (hrest : ∀ op ∈ rest, SVCMgr.keeps m op)
    (h₂ : replay World.step (SVCMgr.onUpdateRouter env' m w₁).2 rest = some w₂) :
    w₂.Follows m ∧ ∀ env'', w₂.OnlyProxy (SVCMgr.onUpdateRouter env'' m w₂).2 := by
  have hroutes := World.Routed.of_run h
  have htrack := World.Tracked.of_run h
  have htrack₁ : w₁.Tracked := replay_invariant' (fun _ _ _ hw hs => hw.step hs) between _ w₁
    (World.Tracked.tableInvariant.updateProxy env _ htrack) h₁
  have hsettled := SVCMgr.settled_of_twice hroutes hm env env'
    (World.run_keepsRoutes hbetween h₁)
  have hstep : ∀ (v : World) (op : Op) (v' : World), SVCMgr.keeps m op →
      v.Tracked ∧ (∃ r, v.Settled m r) → v.step op = some v' →
      v'.Tracked ∧ ∃ r, v'.Settled m r :=
    fun v op v' hop hv hs => ⟨hv.1.step hs, SVCMgr.settled_step hm hop hv.2 hs⟩
  obtain ⟨htrack₂, r, hr⟩ := replay_invariant hstep rest _ w₂
    ⟨World.Tracked.tableInvariant.updateProxy env' _ htrack₁, hsettled⟩
    (along_of_forall hrest _) h₂
  exact ⟨hr.follows, fun env'' => SVCMgr.onUpdateRouter_onlyProxy htrack₂ hr env''⟩

/-- A map with two keys. -/
def routerMove : RouterMap where
  entries := [(1, [(11, 80)]), (2, [(10, 80), (10, 80)])]
  sorted := by decide

theorem routerMove_oneKeyEach : routerMove.OneKeyEach := by
  rintro key key' a ⟨svrs, hs, ha⟩ ⟨svrs', hs', ha'⟩
  simp only [routerMove, List.mem_cons, Prod.mk.injEq, List.not_mem_nil, or_false] at hs hs'
  rcases hs with ⟨rfl, rfl⟩ | ⟨rfl, rfl⟩ <;> rcases hs' with ⟨rfl, rfl⟩ | ⟨rfl, rfl⟩ <;>
    simp_all

/-- Server 10 is under key 1; the map moves it to key 2 and brings server 11. -/
theorem onUpdateRouter_settles_move :
    ∃ w w₁ w₂, replay World.step World.start [.addSvr .dial 1 (10, 80)] = some w
      ∧ replay World.step (SVCMgr.onUpdateRouter .dial routerMove w).2 [.reBuild .dial] = some w₁
      ∧ replay World.step (SVCMgr.onUpdateRouter .dial routerMove w₁).2
          [.updateProxy .refuse (SVCMgr.mapServer .refuse routerMove)] = some w₂
      ∧ w₂.Follows routerMove := by
  refine ⟨_, _, _, rfl, rfl, rfl, ?_⟩
  exact (@onUpdateRouter_settles [.addSvr .dial 1 (10, 80)] _ rfl _ routerMove_oneKeyEach
    .dial .dial [.reBuild .dial]
    [.updateProxy .refuse (SVCMgr.mapServer .refuse routerMove)] _ _
    (by simp [Op.keepsRoutes]) rfl (by simp [SVCMgr.keeps]) rfl).1

end TcpFramework
