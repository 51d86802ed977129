/-
  TcpFramework.RouteUpdate — what updateProxy installs.

  The first pass of updateProxy adds every server of the target, and addSvr refuses one
  that SvrMgr has; the second pass deletes what the target does not have.  A server that
  the target puts under another key is therefore refused by the first pass and deleted by
  the second, and ends up under no key at all.

  `updateProxy_installs_iff` says that this is the only way to go wrong.
-/
import TcpFramework.RoutingTables

namespace TcpFramework

open StepSystem Assignment

/-! ## §1. The property. -/

/-- No server is under two keys of the target. -/
def ProxyMgr.OneKeyEach (t : ProxyMgr.Target) : Prop :=
  ∀ key key' svrs svrs' a, t.find key = some svrs → t.find key' = some svrs' →
    a ∈ svrs → a ∈ svrs' → key = key'

/-- The tables are exactly the target; a key of the target that is not there counts as one
without servers. -/
structure World.Installs (w : World) (t : ProxyMgr.Target) : Prop where
  keys : ∀ key p, w.mapProxy.find key = some p → ∃ svrs, t.find key = some svrs
  servers : ∀ key svrs a, t.find key = some svrs →
    (a ∈ svrs ↔ ∃ p, w.mapProxy.find key = some p ∧ a ∈ p.servers)
  serverList : ∀ key svrs a, t.find key = some svrs →
    (a ∈ svrs ↔ ∃ p, w.mapProxy.find key = some p ∧ a ∈ p.serverList)
  registered : ∀ a, SvrMgr.isSvrExist a w = true ↔ ∃ key svrs, t.find key = some svrs ∧ a ∈ svrs

/-- The condition: no server of the target is now under a key other than its own there. -/
def World.NoServerMoves (w : World) (t : ProxyMgr.Target) : Prop :=
  ∀ key svrs a key' p, t.find key = some svrs → a ∈ svrs →
    w.mapProxy.find key' = some p → a ∈ p.servers → key' = key

/-! ## §2. The keys that remain. -/

namespace ProxyMgr

/-- The partial deletion keeps the keys. -/
theorem pruneSvrs_keys (svrs : UnorderedSet Addr) (k key : Int) (l : List Addr) :
    ∀ w : World, ((l.foldl (pruneSvr svrs k) w).mapProxy.find key).isSome
      = (w.mapProxy.find key).isSome := by
  induction l with
  | nil => exact fun _ => rfl
  | cons a l ih =>
      intro w
      rw [List.foldl_cons, ih]
      unfold pruneSvr
      split
      · rfl
      · -- the server is erased from the key, which stays
        by_cases hk : key = k
        · simp [hk, (dropSvr_routes a w).1]
        · simp [hk, (dropSvr_routes a w).1]

/-- A turn of the second pass removes its key when the target does not have it. -/
theorem pruneKey_keys (t : Target) (k key : Int) (w : World) :
    ((pruneKey t w k).mapProxy.find key).isSome = true ↔
      (w.mapProxy.find key).isSome = true ∧ (key = k → (t.find key).isSome = true) := by
  unfold pruneKey
  cases hp : w.mapProxy.find k with
  | none =>
      constructor
      · intro h
        refine ⟨h, fun he => ?_⟩
        simp [he, hp] at h
      · exact And.left
  | some p =>
      cases ht : t.find k with
      | none =>
          by_cases hk : key = k
          · simp [hk, ht]
          · simp [hk, (dropAll_routes p.servers.elems w).1]
      | some svrs =>
          have hkeys := pruneSvrs_keys svrs k key p.servers.elems w
          by_cases hk : key = k
          · subst hk
            simp [ht, hkeys]
          · simp [hk, hkeys]

theorem pruneKeys_keys (t : Target) (key : Int) (ks : List Int) :
    ∀ w : World, ((ks.foldl (pruneKey t) w).mapProxy.find key).isSome = true ↔
      (w.mapProxy.find key).isSome = true ∧ (key ∈ ks → (t.find key).isSome = true) := by
  induction ks with
  | nil => simp
  | cons k ks ih =>
      intro w
      rw [List.foldl_cons, ih, pruneKey_keys, List.mem_cons]
      constructor
      · intro h
        -- a key that the target does not have is removed at the latest by its own turn
        exact ⟨h.1.1, fun hm => hm.elim h.1.2 h.2⟩
      · intro h
        exact ⟨⟨h.1, fun he => h.2 (Or.inl he)⟩, fun hm => h.2 (Or.inr hm)⟩

/-- Only keys of the target remain. -/
theorem updateProxy_keys (env : Env) (t : Target) (w : World) {key : Int} {p : SProxy}
    (hp : (updateProxy env t w).mapProxy.find key = some p) :
    ∃ svrs, t.find key = some svrs := by
  have hsome : ((updateProxy env t w).mapProxy.find key).isSome = true := by rw [hp]; rfl
  obtain ⟨hold, hkeep⟩ := (pruneKeys_keys t key _ _).mp hsome
  exact Option.isSome_iff_exists.mp (hkeep (((addRoutes env t w).mapProxy.dom key).mpr hold))

end ProxyMgr

/-! ## §3. When the target is installed. -/

/-- The tables are the target exactly when their assignment is. -/
theorem World.installs_iff {w : World} {r : Assignment Int Addr} (h : w.Routes r)
    (hl : w.ListedExcept none) {t : ProxyMgr.Target}
    (hkeys : ∀ key p, w.mapProxy.find key = some p → ∃ svrs, t.find key = some svrs) :
    w.Installs t ↔ ∀ key a, r a = some key ↔ (key, a) ∈ ProxyMgr.pairs t := by
  constructor
  · intro hin key a
    rw [← h.serves key a, ProxyMgr.mem_pairs]
    constructor
    · intro hs
      obtain ⟨p, hp, hm⟩ := hs
      obtain ⟨svrs, ht⟩ := hkeys key p hp
      exact ⟨svrs, ht, (hin.servers key svrs a ht).mpr ⟨p, hp, hm⟩⟩
    · intro hs
      obtain ⟨svrs, ht, hm⟩ := hs
      exact (hin.servers key svrs a ht).mp hm
  · intro hr
    have hserves : ∀ key svrs a, t.find key = some svrs → (a ∈ svrs ↔ w.Serves key a) := by
      intro key svrs a ht
      rw [h.serves key a, hr key a, ProxyMgr.mem_pairs, ht]
      simp
    refine ⟨hkeys, hserves, ?_, ?_⟩
    · intro key svrs a ht
      rw [hserves key svrs a ht]
      -- the vector has the elements of the set
      exact exists_congr fun p => and_congr_right fun hp => ((hl key p (by simp) hp).2 a).symm
    · intro a
      rw [h.exist a, Option.isSome_iff_exists]
      exact exists_congr fun key => (hr key a).trans ProxyMgr.mem_pairs

/-- **updateProxy installs its target exactly when no server moves**: from any reachable
state, for a target without a server under two keys, whatever the connects do and whatever
the iteration orders are. -/
theorem updateProxy_installs_iff {ops : List Op} {w : World}
    (h : replay World.step World.start ops = some w) (env : Env) (t : ProxyMgr.Target)
    (ht : ProxyMgr.OneKeyEach t) :
    (ProxyMgr.updateProxy env t w).Installs t ↔ w.NoServerMoves t := by
  obtain ⟨r, hr, hl⟩ := World.Routed.of_run h
  obtain ⟨hr', hl'⟩ := hr.updateProxy hl env t
  have hex : Exclusive (ProxyMgr.pairs t) := by
    intro key key' a hm hm'
    obtain ⟨svrs, hs, ha⟩ := ProxyMgr.mem_pairs.mp hm
    obtain ⟨svrs', hs', ha'⟩ := ProxyMgr.mem_pairs.mp hm'
    exact ht key key' svrs svrs' a hs hs' ha ha'
  -- every key that has a server after the first pass is visited by the second
  have hks : ∀ a key, assignAll (ProxyMgr.pairs t) r a = some key →
      key ∈ (ProxyMgr.addRoutes env t w).mapProxy.keys.elems := by
    intro a key ha
    obtain ⟨p, hp, -⟩ := ((hr.addRoutes hl env t).1.serves key a).mpr ha
    exact UnorderedMap.mem_keys_of_find hp
  rw [World.installs_iff hr' hl' (fun _ _ hp => ProxyMgr.updateProxy_keys env t w hp),
    replace_exact_iff hex hks]
  constructor
  · intro hmove key svrs a key' p hs ha hp hm
    exact hmove key key' a (ProxyMgr.mem_pairs.mpr ⟨svrs, hs, ha⟩)
      ((hr.mem_servers hp a).mp hm)
  · intro hmove key key' a hm ha
    obtain ⟨svrs, hs, hin⟩ := ProxyMgr.mem_pairs.mp hm
    obtain ⟨p, hp, hpm⟩ := (hr.serves key' a).mpr ha
    exact hmove key svrs a key' p hs hin hp hpm

/-- The target with one key and its servers. -/
def ProxyMgr.oneKey (key : Int) (svrs : List Addr) : ProxyMgr.Target :=
  UnorderedMap.empty.insert .front key
    (svrs.foldl (fun s a => s.insert .front a) UnorderedSet.empty)

theorem ProxyMgr.oneKey_find {key k : Int} {svrs : List Addr} {s : UnorderedSet Addr}
    (h : (ProxyMgr.oneKey key svrs).find k = some s) : k = key := by
  by_cases hk : k = key
  · exact hk
  · simp [oneKey, hk, UnorderedMap.empty] at h

/-- An update that keeps one server and brings another. -/
theorem updateProxy_installs_iff_addition :
    ∃ w, replay World.step World.start [.addSvr .dial 1 (10, 80)] = some w
      ∧ (ProxyMgr.updateProxy .dial (ProxyMgr.oneKey 1 [(10, 80), (11, 80)]) w).Installs
          (ProxyMgr.oneKey 1 [(10, 80), (11, 80)]) := by
  refine ⟨_, rfl, (@updateProxy_installs_iff [.addSvr .dial 1 (10, 80)] _ rfl .dial _
    ?_).mpr ?_⟩
  · intro key key' svrs svrs' a hs hs' _ _
    rw [ProxyMgr.oneKey_find hs, ProxyMgr.oneKey_find hs']
  · intro key svrs a key' p hs _ hp _
    have hkey : key' ∈ [(1 : Int)] := UnorderedMap.mem_keys_of_find hp
    rw [ProxyMgr.oneKey_find hs, List.mem_singleton.mp hkey]

/-- A server that the target moves from key 1 to key 2 is under neither afterwards. -/
theorem updateProxy_loses_moved_server :
    ∃ w, replay World.step World.start [.addSvr .dial 1 (10, 80)] = some w
      ∧ ProxyMgr.OneKeyEach (ProxyMgr.oneKey 2 [(10, 80)])
      ∧ ¬ (ProxyMgr.updateProxy .dial (ProxyMgr.oneKey 2 [(10, 80)]) w).Installs
          (ProxyMgr.oneKey 2 [(10, 80)]) := by
  refine ⟨_, rfl, ?_, ?_⟩
  · intro key key' svrs svrs' a hs hs' _ _
    rw [ProxyMgr.oneKey_find hs, ProxyMgr.oneKey_find hs']
  · intro h
    have hreg := (h.registered (10, 80)).mpr ⟨2, _, rfl, List.mem_cons_self⟩
    exact absurd hreg (by decide)

end TcpFramework
