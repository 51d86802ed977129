/-
  TcpFramework.RoutingTables — the routing tables refine an assignment.

  A server is under at most one route key, and it is under one exactly when SvrMgr has
  it: the tables of ProxyMgr and SvrMgr together are an assignment of servers to keys.
  `Routes` is that refinement relation.  addSvr is `Assignment.assign`, rmSvr a release,
  updateProxy the two passes of `Assignment.replace`; everything else leaves the
  assignment alone.

  Main results:
    * `Routes.updateProxy` — updateProxy refines the two-pass replacement.
    * `routing_tables_consistent` — the representation invariant in every state of a run.
-/
import TcpFramework.Lib.Assignment
import TcpFramework.ConnTables

namespace TcpFramework

open StepSystem Assignment

/-! ## §1. The refinement relation. -/

/-- The server is under the key. -/
def World.Serves (w : World) (key : Int) (a : Addr) : Prop :=
  ∃ p, w.mapProxy.find key = some p ∧ a ∈ p.servers

/-- The servers of the key, in the order of its server_list. -/
def World.serversOf (w : World) (key : Int) : List Addr :=
  match w.mapProxy.find key with
  | none => []
  | some p => p.serverList

/-- The tables are the assignment `r`. -/
structure World.Routes (w : World) (r : Assignment Int Addr) : Prop where
  serves : ∀ key a, w.Serves key a ↔ r a = some key
  exist : ∀ a, SvrMgr.isSvrExist a w = (r a).isSome

/-- Every server_list enumerates its servers, the one of `skip` perhaps excepted. -/
def World.ListedExcept (w : World) (skip : Option Int) : Prop :=
  ∀ key p, some key ≠ skip → w.mapProxy.find key = some p → Enumerates p.serverList p.servers

namespace World

theorem mem_serversOf {w : World} {key : Int} {a : Addr} :
    a ∈ w.serversOf key ↔ ∃ p, w.mapProxy.find key = some p ∧ a ∈ p.serverList := by
  unfold serversOf
  cases w.mapProxy.find key <;> simp

theorem Routes.start : World.start.Routes (fun _ => none) where
  serves := fun key a => by simp [Serves, World.start, UnorderedMap.empty]
  exist := fun a => rfl

/-- The servers of a key are those assigned to it. -/
theorem Routes.mem_servers {w : World} {r : Assignment Int Addr} (h : w.Routes r) {key : Int}
    {p : SProxy} (hp : w.mapProxy.find key = some p) (a : Addr) :
    a ∈ p.servers ↔ r a = some key := by
  rw [← h.serves key a]
  constructor
  · exact fun hm => ⟨p, hp, hm⟩
  · intro hs
    obtain ⟨q, hq, hm⟩ := hs
    obtain rfl : p = q := Option.some.inj (hp.symm.trans hq)
    exact hm

/-- Nobody is under a key that is not there. -/
theorem Routes.ne_of_find_none {w : World} {r : Assignment Int Addr} (h : w.Routes r) {key : Int}
    (hp : w.mapProxy.find key = none) (a : Addr) : r a ≠ some key := by
  intro ha
  obtain ⟨p, hfind, -⟩ := (h.serves key a).mpr ha
  rw [hp] at hfind
  exact absurd hfind (by simp)

/-- A server that nobody has is under no key. -/
theorem Routes.not_mem {w : World} {r : Assignment Int Addr} (h : w.Routes r) {key : Int}
    {p : SProxy} (hp : w.mapProxy.find key = some p) {a : Addr} (ha : r a = none) :
    a ∉ p.servers := by
  rw [h.mem_servers hp, ha]
  simp

theorem Routes.same {w w' : World} {r : Assignment Int Addr} (h : w.Routes r)
    (hs : w.SameRoutes w') : w'.Routes r where
  serves := fun key a => by
    rw [Serves, hs.mapProxy]
    exact h.serves key a
  exist := fun a => (hs.exist a).trans (h.exist a)

theorem ListedExcept.same {w w' : World} {skip : Option Int} (h : w.ListedExcept skip)
    (hs : w.SameRoutes w') : w'.ListedExcept skip := by
  intro key p hskip hp
  rw [hs.mapProxy] at hp
  exact h key p hskip hp

theorem ListedExcept.weaken {w : World} (h : w.ListedExcept none) (skip : Option Int) :
    w.ListedExcept skip :=
  fun key p _ hp => h key p (by simp) hp

/-- A change of ProxyMgr alone that keeps what every key serves. -/
theorem Routes.withProxy {w : World} {r : Assignment Int Addr} (h : w.Routes r)
    (m : UnorderedMap Int SProxy)
    (hm : ∀ key a, ({ w with mapProxy := m } : World).Serves key a ↔ w.Serves key a) :
    ({ w with mapProxy := m } : World).Routes r :=
  ⟨fun key a => (hm key a).trans (h.serves key a), h.exist⟩

/-- `modify` at a key, with a change that keeps the servers. -/
theorem serves_modify {w : World} {k : Int} {f : SProxy → SProxy}
    (hf : ∀ p, (f p).servers = p.servers) (key : Int) (a : Addr) :
    ({ w with mapProxy := w.mapProxy.modify k f } : World).Serves key a ↔ w.Serves key a := by
  by_cases hk : key = k
  · subst hk
    cases hp : w.mapProxy.find key <;> simp [Serves, hp, hf]
  · simp [Serves, hk]

end World

/-! ## §2. addSvr. -/

namespace ProxyMgr

open World

theorem ensureKey_find (env : Env) (key : Int) (w : World) :
    ∃ p, (ensureKey env key w).mapProxy.find key = some p := by
  unfold ensureKey
  cases hp : w.mapProxy.find key with
  | none => exact ⟨{}, by simp⟩
  | some p => exact ⟨p, by simpa using hp⟩

theorem ensureKey_serves (env : Env) (key k : Int) (a : Addr) (w : World) :
    (ensureKey env key w).Serves k a ↔ w.Serves k a := by
  unfold ensureKey
  cases hp : w.mapProxy.find key with
  | some p => exact Iff.rfl
  | none =>
      -- the new entry has no servers
      by_cases hk : k = key
      · subst hk
        simp [Serves, hp]
      · simp [Serves, hk]

theorem ensureKey_routes (env : Env) (key : Int) {w : World} {r : Assignment Int Addr}
    (h : w.Routes r) : (ensureKey env key w).Routes r where
  serves := fun k a => (ensureKey_serves env key k a w).trans (h.serves k a)
  exist := fun a => by
    rw [← h.exist a]
    unfold ensureKey
    cases w.mapProxy.find key <;> rfl

theorem ensureKey_listed (env : Env) (key : Int) {w : World} (h : w.ListedExcept none) :
    (ensureKey env key w).ListedExcept none := by
  unfold ensureKey
  cases hp : w.mapProxy.find key with
  | some p => exact h
  | none =>
      intro k p hskip hk
      by_cases hkey : k = key
      · obtain rfl : ({} : SProxy) = p := by simpa [hkey] using hk
        exact Enumerates.elems (s := .empty)
      · exact h k p hskip (by simpa [hkey] using hk)

/-- `addSvr` refuses a server that is registered, and installs one that is not. -/
theorem addSvr_cases (env : Env) (key : Int) (a : Addr) {w : World} {r : Assignment Int Addr}
    (h : w.Routes r) :
    ((r a).isSome = true ∧ addSvr env key a w = (false, ensureKey env key w)) ∨
    ∃ w₂ : World, r a = none
      ∧ w₂ = (SvrMgr.connSvr env a (SvrMgr.addSvr a (ensureKey env key w))).2
      ∧ addSvr env key a w = (true, { w₂ with mapProxy := w₂.mapProxy.modify key fun p => { p with
          servers := p.servers.insert env.svrPlace a
          serverList := p.serverList ++ [a] } }) := by
  obtain ⟨p, hp⟩ := ensureKey_find env key w
  have hr := ensureKey_routes env key h
  by_cases hex : SvrMgr.isSvrExist a (ensureKey env key w) = true
  · refine Or.inl ⟨(hr.exist a).symm.trans hex, ?_⟩
    by_cases hm : a ∈ p.servers <;> simp [addSvr, hp, hm, hex]
  · have hnone : r a = none := by
      have hs : (r a).isSome = false := by
        rw [← hr.exist a]
        simpa using hex
      simpa using hs
    have hm : a ∉ p.servers := hr.not_mem hp hnone
    exact Or.inr ⟨_, hnone, rfl, by simp [addSvr, hp, hm, hex]⟩

end ProxyMgr

namespace World

/-- Registration of a server and the connect that follows. -/
theorem register_routes (env : Env) (a : Addr) (w : World) :
    (SvrMgr.connSvr env a (SvrMgr.addSvr a w)).2.mapProxy = w.mapProxy
      ∧ ∀ b, SvrMgr.isSvrExist b (SvrMgr.connSvr env a (SvrMgr.addSvr a w)).2
          = if b = a then true else SvrMgr.isSvrExist b w := by
  have hconn := SvrMgr.connSvr_sameRoutes env a (SvrMgr.addSvr a w)
  rcases SvrMgr.addSvr_cases a w with ⟨hex, he⟩ | ⟨-, he⟩
  · rw [he] at hconn ⊢
    refine ⟨hconn.mapProxy, fun b => (hconn.exist b).trans ?_⟩
    by_cases hb : b = a <;> simp [hb, hex]
  · rw [he] at hconn ⊢
    exact ⟨hconn.mapProxy, fun b => (hconn.exist b).trans (setSvr_exist w a b _)⟩

/-- **addSvr refines `assign`.** -/
theorem Routes.addSvr {w : World} {r : Assignment Int Addr} (h : w.Routes r) (env : Env)
    (key : Int) (a : Addr) : (ProxyMgr.addSvr env key a w).2.Routes (assign key a r) := by
  rcases ProxyMgr.addSvr_cases env key a h with ⟨hsome, he⟩ | ⟨w₂, hnone, hw₂, he⟩
  · -- refused: the server stays with the key that has it
    obtain ⟨j, hj⟩ := Option.isSome_iff_exists.mp hsome
    rw [he, assign_of_owned hj]
    exact ProxyMgr.ensureKey_routes env key h
  · obtain ⟨hproxy, hexist⟩ := register_routes env a (ProxyMgr.ensureKey env key w)
    have hr := ProxyMgr.ensureKey_routes env key h
    obtain ⟨p, hp⟩ := ProxyMgr.ensureKey_find env key w
    rw [he, assign_of_free hnone]
    rw [← hw₂] at hproxy hexist
    constructor
    · intro k b
      have hold := hr.serves k b
      by_cases hk : k = key
      · subst hk
        -- under the key, the new server joins those that were there
        by_cases hb : b = a
        · simp [Serves, hproxy, hp, hb]
        · simpa [Serves, hproxy, hp, hb] using hold
      · by_cases hb : b = a
        · -- nobody served the new server before
          subst hb
          rw [hnone] at hold
          simpa [Serves, hproxy, hk, Ne.symm hk] using hold
        · simpa [Serves, hproxy, hk, hb] using hold
    · intro b
      show SvrMgr.isSvrExist b w₂ = _
      rw [hexist b, hr.exist b]
      by_cases hb : b = a <;> simp [hb]

theorem ListedExcept.addSvr {w : World} {r : Assignment Int Addr} (hl : w.ListedExcept none)
    (h : w.Routes r) (env : Env) (key : Int) (a : Addr) :
    (ProxyMgr.addSvr env key a w).2.ListedExcept none := by
  have hkey := ProxyMgr.ensureKey_listed env key hl
  rcases ProxyMgr.addSvr_cases env key a h with ⟨-, he⟩ | ⟨w₂, hnone, hw₂, he⟩
  · rw [he]
    exact hkey
  · have hproxy := (register_routes env a (ProxyMgr.ensureKey env key w)).1
    have hr := ProxyMgr.ensureKey_routes env key h
    obtain ⟨p, hp⟩ := ProxyMgr.ensureKey_find env key w
    rw [← hw₂] at hproxy
    rw [he]
    intro k q hskip hq
    by_cases hk : k = key
    · subst hk
      -- the server is new to the set, so it may be appended to the vector
      have hm : a ∉ p.servers := hr.not_mem hp hnone
      obtain rfl := (by simpa [hproxy, hp] using hq : _ = q)
      exact (hkey k p hskip hp).push_back env.svrPlace hm
    · exact hkey k q hskip (by simpa [hproxy, hk] using hq)

end World

/-! ## §3. Servers that are dropped. -/

namespace ProxyMgr

open World

/-- `dropSvr` takes the server out of SvrMgr and leaves the routing alone. -/
theorem dropSvr_routes (a : Addr) (w : World) :
    (dropSvr a w).mapProxy = w.mapProxy
      ∧ ∀ b, SvrMgr.isSvrExist b (dropSvr a w)
          = if b = a then false else SvrMgr.isSvrExist b w := by
  have hclose := SvrMgr.closeSvr_sameRoutes a w
  refine ⟨hclose.mapProxy, fun b => ?_⟩
  rw [dropSvr, SvrMgr.rmSvr_exist, hclose.exist b]

/-- The fold of the whole-key deletion, over any list of servers. -/
theorem dropAll_routes (l : List Addr) :
    ∀ w : World, (l.foldl (fun w a => dropSvr a w) w).mapProxy = w.mapProxy
      ∧ ∀ b, SvrMgr.isSvrExist b (l.foldl (fun w a => dropSvr a w) w)
          = if b ∈ l then false else SvrMgr.isSvrExist b w := by
  induction l with
  | nil => exact fun w => ⟨rfl, fun b => rfl⟩
  | cons a l ih =>
      intro w
      obtain ⟨hproxy, hexist⟩ := dropSvr_routes a w
      obtain ⟨hproxy', hexist'⟩ := ih (dropSvr a w)
      refine ⟨hproxy'.trans hproxy, fun b => ?_⟩
      rw [List.foldl_cons, hexist' b, hexist b]
      by_cases hb : b ∈ l
      · simp [hb]
      · by_cases hba : b = a <;> simp [hb, hba]

/-- A server that is dropped and erased from the key it is under is released. -/
theorem dropErase_routes {w : World} {r : Assignment Int Addr} (h : w.Routes r) {key : Int}
    {a : Addr} (ha : r a = some key) {f : SProxy → SProxy}
    (hf : ∀ p, (f p).servers = p.servers.erase a) :
    ({ dropSvr a w with mapProxy := (dropSvr a w).mapProxy.modify key f } : World).Routes
      (release a r) := by
  obtain ⟨hproxy, hexist⟩ := dropSvr_routes a w
  obtain ⟨p, hp, -⟩ := (h.serves key a).mpr ha
  constructor
  · intro k b
    rw [release_eq_some]
    have hold := h.serves k b
    by_cases hk : k = key
    · subst hk
      -- its own key: the server is erased
      have hb : b ∈ p.servers ↔ r b = some k := h.mem_servers hp b
      simp [Serves, hproxy, hp, hf, hb]
    · -- another key: the server was not there
      have hba : r b = some k → b ≠ a := by
        intro hb he
        rw [he, ha] at hb
        exact hk (Option.some.inj hb).symm
      constructor
      · intro hs
        have hs' : w.Serves k b := by simpa [Serves, hproxy, hk] using hs
        exact ⟨hba (hold.mp hs'), hold.mp hs'⟩
      · intro hs
        have hs' : w.Serves k b := hold.mpr hs.2
        simpa [Serves, hproxy, hk] using hs'
  · intro b
    show SvrMgr.isSvrExist b (dropSvr a w) = _
    rw [hexist b, release_isSome, h.exist b]

/-- The vectors of the other keys are untouched. -/
theorem dropErase_listed {w : World} {key : Int} (h : w.ListedExcept (some key)) (a : Addr)
    (f : SProxy → SProxy) :
    ({ dropSvr a w with mapProxy := (dropSvr a w).mapProxy.modify key f } :
      World).ListedExcept (some key) := by
  intro k p hskip hp
  have hk : k ≠ key := fun he => hskip (by rw [he])
  exact h k p hskip (by simpa [(dropSvr_routes a w).1, hk] using hp)

end ProxyMgr

namespace World

/-- A key whose vector is copied from its set again. -/
theorem ListedExcept.recopy {w : World} {key : Int} (h : w.ListedExcept (some key)) :
    ({ w with mapProxy := w.mapProxy.modify key fun p => { p with
      serverList := p.servers.elems } } : World).ListedExcept none := by
  intro k p hskip hp
  by_cases hk : k = key
  · subst hk
    cases hq : w.mapProxy.find k with
    | none => simp [hq] at hp
    | some q =>
        obtain rfl := (by simpa [hq] using hp : _ = p)
        exact Enumerates.elems
  · exact h k p (by simpa using hk) (by simpa [hk] using hp)

/-- **rmSvr refines `releaseFrom`.** -/
theorem Routes.rmSvr {w : World} {r : Assignment Int Addr} (h : w.Routes r) (key : Int)
    (a : Addr) : (ProxyMgr.rmSvr key a w).Routes (releaseFrom key a r) := by
  by_cases hs : w.Serves key a
  · -- the server is under the key
    have hr := (h.serves key a).mp hs
    obtain ⟨p, hp, hm⟩ := hs
    rw [releaseFrom, if_pos hr]
    simpa only [ProxyMgr.rmSvr, hp, hm, if_true] using
      ProxyMgr.dropErase_routes h hr (f := fun p => { p with
        servers := p.servers.erase a, serverList := (p.servers.erase a).elems }) (fun _ => rfl)
  · have hr : r a ≠ some key := fun hr => hs ((h.serves key a).mpr hr)
    rw [releaseFrom, if_neg hr]
    unfold ProxyMgr.rmSvr
    split
    · exact h
    next p hp =>
      rw [if_neg (fun hm => hs ⟨p, hp, hm⟩)]
      exact h

theorem ListedExcept.rmSvr {w : World} (hl : w.ListedExcept none) (key : Int) (a : Addr) :
    (ProxyMgr.rmSvr key a w).ListedExcept none := by
  unfold ProxyMgr.rmSvr
  split
  · exact hl
  next p hp =>
    split
    next hm =>
      have hdrop := ProxyMgr.dropErase_listed (hl.weaken (some key)) a
        fun p => { p with servers := p.servers.erase a }
      have hcopy := hdrop.recopy
      intro k q hskip hq
      apply hcopy k q hskip
      by_cases hk : k = key
      · subst hk
        simpa [hp, (ProxyMgr.dropSvr_routes a w).1] using hq
      · simpa [hk] using hq
    next => exact hl

end World

/-! ## §4. updateProxy. -/

/-- The pairs of a target, in the order in which its two loops visit them. -/
def ProxyMgr.pairs (t : ProxyMgr.Target) : List (Int × Addr) :=
  t.keys.elems.flatMap fun key =>
    match t.find key with
    | none => []
    | some svrs => svrs.elems.map fun a => (key, a)

/-- The first pass adds pair after pair. -/
theorem ProxyMgr.addRoutes_eq (env : Env) (t : ProxyMgr.Target) (w : World) :
    ProxyMgr.addRoutes env t w
      = (ProxyMgr.pairs t).foldl (fun w p => (ProxyMgr.addSvr env p.1 p.2 w).2) w := by
  unfold ProxyMgr.addRoutes ProxyMgr.pairs
  rw [List.foldl_flatMap]
  congr 1
  funext w key
  cases t.find key with
  | none => rfl
  | some svrs =>
      dsimp only
      rw [List.foldl_map]

theorem ProxyMgr.mem_pairs {t : ProxyMgr.Target} {key : Int} {a : Addr} :
    (key, a) ∈ ProxyMgr.pairs t ↔ ∃ svrs, t.find key = some svrs ∧ a ∈ svrs := by
  simp only [pairs, List.mem_flatMap]
  constructor
  · intro h
    obtain ⟨k, -, hm⟩ := h
    cases hk : t.find k with
    | none =>
        simp only [hk] at hm
        exact absurd hm List.not_mem_nil
    | some svrs =>
        simp only [hk, List.mem_map] at hm
        obtain ⟨b, hb, he⟩ := hm
        obtain ⟨rfl, rfl⟩ := Prod.mk.inj he
        exact ⟨svrs, hk, hb⟩
  · intro h
    obtain ⟨svrs, hk, hm⟩ := h
    refine ⟨key, UnorderedMap.mem_keys_of_find hk, ?_⟩
    simp only [hk]
    exact List.mem_map_of_mem hm

namespace World

/-- Adding pair after pair refines `assignAll`. -/
theorem Routes.addPairs (env : Env) (l : List (Int × Addr)) :
    ∀ {w : World} {r : Assignment Int Addr}, w.Routes r → w.ListedExcept none →
      (l.foldl (fun w p => (ProxyMgr.addSvr env p.1 p.2 w).2) w).Routes (assignAll l r)
      ∧ (l.foldl (fun w p => (ProxyMgr.addSvr env p.1 p.2 w).2) w).ListedExcept none := by
  induction l with
  | nil => exact fun h hl => ⟨h, hl⟩
  | cons p l ih => exact fun h hl => ih (h.addSvr env p.1 p.2) (hl.addSvr h env p.1 p.2)

/-- The first pass refines `assignAll`. -/
theorem Routes.addRoutes {w : World} {r : Assignment Int Addr} (h : w.Routes r)
    (hl : w.ListedExcept none) (env : Env) (t : ProxyMgr.Target) :
    (ProxyMgr.addRoutes env t w).Routes (assignAll (ProxyMgr.pairs t) r)
      ∧ (ProxyMgr.addRoutes env t w).ListedExcept none := by
  rw [ProxyMgr.addRoutes_eq]
  exact Routes.addPairs env (ProxyMgr.pairs t) h hl

/-- The loop of the partial deletion: of the servers of the key, those that the target
does not have are released. -/
theorem Routes.pruneSvrs (svrs : UnorderedSet Addr) {key : Int} (l : List Addr) :
    ∀ {w : World} {r : Assignment Int Addr}, l.Nodup → (∀ a ∈ l, r a = some key) →
      w.Routes r → w.ListedExcept (some key) →
      ∃ r', (∀ k b, r' b = some k ↔ r b = some k ∧ (b ∈ l → b ∈ svrs))
        ∧ (l.foldl (ProxyMgr.pruneSvr svrs key) w).Routes r'
        ∧ (l.foldl (ProxyMgr.pruneSvr svrs key) w).ListedExcept (some key) := by
  induction l with
  | nil => exact fun _ _ h hl => ⟨_, by simp, h, hl⟩
  | cons a l ih =>
      intro w r hnd hown h hl
      obtain ⟨hal, hnd'⟩ := List.nodup_cons.mp hnd
      have hown' : ∀ b ∈ l, r b = some key := fun b hb => hown b (List.mem_cons_of_mem a hb)
      rw [List.foldl_cons]
      by_cases ha : a ∈ svrs
      · -- the target has it: it stays
        have hstay : ProxyMgr.pruneSvr svrs key w a = w := if_pos ha
        rw [hstay]
        obtain ⟨r', hr', hroutes, hlisted⟩ := ih hnd' hown' h hl
        refine ⟨r', fun k b => ?_, hroutes, hlisted⟩
        rw [hr' k b, List.mem_cons]
        constructor
        · intro hb
          exact ⟨hb.1, fun hm => hm.elim (fun he => he ▸ ha) hb.2⟩
        · intro hb
          exact ⟨hb.1, fun hm => hb.2 (Or.inr hm)⟩
      · -- it goes, and the rest of the loop starts from its release
        have hgo : ProxyMgr.pruneSvr svrs key w a
            = { ProxyMgr.dropSvr a w with
                mapProxy := (ProxyMgr.dropSvr a w).mapProxy.modify key fun p => { p with
                  servers := p.servers.erase a } } := if_neg ha
        rw [hgo]
        have hown'' : ∀ b ∈ l, release a r b = some key := fun b hb =>
          release_eq_some.mpr ⟨fun he => hal (he ▸ hb), hown' b hb⟩
        obtain ⟨r', hr', hroutes, hlisted⟩ := ih hnd' hown''
          (ProxyMgr.dropErase_routes h (hown a List.mem_cons_self)
            (f := fun p => { p with servers := p.servers.erase a }) (fun _ => rfl))
          (ProxyMgr.dropErase_listed hl a _)
        refine ⟨r', fun k b => ?_, hroutes, hlisted⟩
        rw [hr' k b, release_eq_some, List.mem_cons]
        constructor
        · intro hb
          exact ⟨hb.1.2, fun hm => hm.elim (fun he => absurd he hb.1.1) hb.2⟩
        · intro hb
          exact ⟨⟨fun he => ha (he ▸ hb.2 (Or.inl he)), hb.1⟩, fun hm => hb.2 (Or.inr hm)⟩

/-- The whole-key deletion. -/
theorem Routes.eraseKey {w : World} {r : Assignment Int Addr} (h : w.Routes r) {key : Int}
    {p : SProxy} (hp : w.mapProxy.find key = some p) {keep : Int → Addr → Prop}
    (hkeep : ∀ a, ¬ keep key a) :
    ({ p.servers.elems.foldl (fun w a => ProxyMgr.dropSvr a w) w with
        mapProxy := (p.servers.elems.foldl (fun w a => ProxyMgr.dropSvr a w) w).mapProxy.erase
          key } : World).Routes (prune keep key r) := by
  obtain ⟨hproxy, hexist⟩ := ProxyMgr.dropAll_routes p.servers.elems w
  have hmem : ∀ a, a ∈ p.servers.elems ↔ r a = some key := h.mem_servers hp
  constructor
  · intro k b
    rw [prune_eq_some, ← h.serves k b]
    by_cases hk : k = key
    · subst hk
      simp [Serves, hkeep b]
    · simp [Serves, hproxy, hk]
  · intro b
    show SvrMgr.isSvrExist b (p.servers.elems.foldl (fun w a => ProxyMgr.dropSvr a w) w) = _
    rw [hexist b, h.exist b]
    -- the servers of the key are unregistered, and no others
    by_cases hb : r b = some key
    · simp [prune, hmem b, hb, hkeep b]
    · simp [prune, hmem b, hb]

/-- **One turn of the second pass refines `prune`.** -/
theorem Routes.pruneKey {w : World} {r : Assignment Int Addr} (h : w.Routes r)
    (hl : w.ListedExcept none) (t : ProxyMgr.Target) (key : Int) :
    (ProxyMgr.pruneKey t w key).Routes (prune (fun k a => (k, a) ∈ ProxyMgr.pairs t) key r)
      ∧ (ProxyMgr.pruneKey t w key).ListedExcept none := by
  unfold ProxyMgr.pruneKey
  cases hp : w.mapProxy.find key with
  | none =>
      rw [prune_of_unused (h.ne_of_find_none hp)]
      exact ⟨h, hl⟩
  | some p =>
      cases ht : t.find key with
      | none =>
          -- the target does not have the key: all of it goes
          have hkeep : ∀ a, ¬ (key, a) ∈ ProxyMgr.pairs t := by
            intro a ha
            obtain ⟨svrs, hs, -⟩ := ProxyMgr.mem_pairs.mp ha
            rw [ht] at hs
            exact absurd hs (by simp)
          refine ⟨h.eraseKey hp hkeep, ?_⟩
          intro k q hskip hq
          by_cases hk : k = key
          · simp [hk] at hq
          · exact hl k q hskip
              (by simpa [hk, (ProxyMgr.dropAll_routes p.servers.elems w).1] using hq)
      | some svrs =>
          -- it does: what it does not ask for goes
          have hmem : ∀ a, a ∈ p.servers.elems ↔ r a = some key := h.mem_servers hp
          obtain ⟨r', hr', hroutes, hlisted⟩ := Routes.pruneSvrs svrs p.servers.elems
            p.servers.nodup (fun a ha => (hmem a).mp ha) h (hl.weaken (some key))
          have hprune : prune (fun k a => (k, a) ∈ ProxyMgr.pairs t) key r = r' := by
            funext a
            apply Option.ext
            intro k
            rw [prune_eq_some, hr' k a, hmem a, ProxyMgr.mem_pairs]
            constructor
            · intro hk
              refine ⟨hk.1, fun ha => ?_⟩
              obtain rfl : k = key := Option.some.inj (hk.1.symm.trans ha)
              obtain ⟨svrs', hs, hm⟩ := hk.2 rfl
              obtain rfl : svrs = svrs' := Option.some.inj (ht.symm.trans hs)
              exact hm
            · intro hk
              refine ⟨hk.1, fun he => ?_⟩
              subst he
              exact ⟨svrs, ht, hk.2 hk.1⟩
          rw [hprune]
          exact ⟨hroutes.withProxy _ (serves_modify (fun _ => rfl)), hlisted.recopy⟩

theorem Routes.pruneKeys (t : ProxyMgr.Target) (ks : List Int) :
    ∀ {w : World} {r : Assignment Int Addr}, w.Routes r → w.ListedExcept none →
      (ks.foldl (ProxyMgr.pruneKey t) w).Routes
        (pruneAll (fun k a => (k, a) ∈ ProxyMgr.pairs t) ks r)
      ∧ (ks.foldl (ProxyMgr.pruneKey t) w).ListedExcept none := by
  induction ks with
  | nil => exact fun h hl => ⟨h, hl⟩
  | cons key ks ih =>
      intro w r h hl
      obtain ⟨h', hl'⟩ := h.pruneKey hl t key
      exact ih h' hl'

/-- **updateProxy refines the two-pass replacement** by the pairs of its target, over the
keys that are there after the first pass. -/
theorem Routes.updateProxy {w : World} {r : Assignment Int Addr} (h : w.Routes r)
    (hl : w.ListedExcept none) (env : Env) (t : ProxyMgr.Target) :
    (ProxyMgr.updateProxy env t w).Routes
        (replace (ProxyMgr.pairs t) (ProxyMgr.addRoutes env t w).mapProxy.keys.elems r)
      ∧ (ProxyMgr.updateProxy env t w).ListedExcept none := by
  obtain ⟨h', hl'⟩ := h.addRoutes hl env t
  exact Routes.pruneKeys t _ h' hl'

/-! ## §5. The operations that leave the routing alone. -/

theorem trimSvr_sameRoutes (a : Addr) (w : World) : w.SameRoutes (ProxyMgr.trimSvr a w) := by
  unfold ProxyMgr.trimSvr
  have hget := (SvrMgr.getConn_edits a w).sameRoutes
  split
  · exact hget.trans (SvrMgr.rmSvrConn_edits a _ _).sameRoutes
  · exact hget

theorem trims_sameRoutes (a : Addr) (n : Nat) (w : World) :
    w.SameRoutes ((ProxyMgr.trimSvr a)^[n] w) := by
  induction n generalizing w with
  | zero => exact .refl w
  | succ n ih => exact (trimSvr_sameRoutes a w).trans (ih (ProxyMgr.trimSvr a w))

theorem reBuildSvr_sameRoutes (env : Env) (a : Addr) (w : World) :
    w.SameRoutes (ProxyMgr.reBuildSvr env a w) := by
  unfold ProxyMgr.reBuildSvr
  split
  · exact SvrMgr.connSvr_sameRoutes env a w
  · split
    · exact trims_sameRoutes a _ w
    · exact .refl w

theorem reBuild_sameRoutes (env : Env) (w : World) :
    w.SameRoutes (ProxyMgr.reBuild env w) := by
  refine List.foldlRecOn _ _ (SameRoutes.refl w) (fun w' hw' key _ => hw'.trans ?_)
  split
  · exact .refl w'
  · exact List.foldlRecOn _ _ (SameRoutes.refl w')
      (fun w'' hw'' a _ => hw''.trans (reBuildSvr_sameRoutes env a w''))

theorem Routes.nextPos {w : World} {r : Assignment Int Addr} (h : w.Routes r) (key : Int) :
    (ProxyMgr.nextPos key w).Routes r :=
  h.withProxy _ (serves_modify (fun _ => rfl))

theorem ListedExcept.nextPos {w : World} (hl : w.ListedExcept none) (key : Int) :
    (ProxyMgr.nextPos key w).ListedExcept none := by
  intro k p hskip hp
  by_cases hk : k = key
  · subst hk
    cases hq : w.mapProxy.find k with
    | none => simp [ProxyMgr.nextPos, hq] at hp
    | some q =>
        obtain rfl := (by simpa [ProxyMgr.nextPos, hq] using hp : _ = p)
        exact hl k q hskip hq
  · exact hl k p hskip (by simpa [ProxyMgr.nextPos, hk] using hp)

/-- The loop of getSvrConn moves counters only. -/
theorem Routes.getSvrConnLoop {r : Assignment Int Addr} (key : Int) (n : Nat) :
    ∀ (handle : Int) {w : World}, w.Routes r → w.ListedExcept none →
      (ProxyMgr.getSvrConnLoop key n handle w).2.Routes r
      ∧ (ProxyMgr.getSvrConnLoop key n handle w).2.ListedExcept none := by
  induction n with
  | zero => exact fun _ _ h hl => ⟨h, hl⟩
  | succ n ih =>
      intro handle w h hl
      unfold ProxyMgr.getSvrConnLoop
      split
      · exact ⟨h, hl⟩
      · dsimp only
        split
        · exact ⟨h.nextPos key, hl.nextPos key⟩
        next a _ =>
          have hget := (SvrMgr.getConn_edits a (ProxyMgr.nextPos key w)).sameRoutes
          exact ih _ ((h.nextPos key).same hget) ((hl.nextPos key).same hget)

theorem Routes.getSvrConn {w : World} {r : Assignment Int Addr} (h : w.Routes r)
    (hl : w.ListedExcept none) (key : Int) :
    (ProxyMgr.getSvrConn key w).2.Routes r
      ∧ (ProxyMgr.getSvrConn key w).2.ListedExcept none := by
  unfold ProxyMgr.getSvrConn
  split
  · exact ⟨h, hl⟩
  · exact Routes.getSvrConnLoop key _ _ h hl

/-! ## §6. Runs. -/

/-- Some assignment is what the tables say. -/
def Routed (w : World) : Prop := ∃ r, w.Routes r ∧ w.ListedExcept none

/-- **One atomic operation** keeps the tables an assignment. -/
theorem Routed.step {w w' : World} {op : Op} (hw : w.Routed) (hstep : w.step op = some w') :
    w'.Routed := by
  obtain ⟨r, h, hl⟩ := hw
  have hsame : w.SameRoutes w' → w'.Routed := fun hs => ⟨r, h.same hs, hl.same hs⟩
  cases op with
  | accept env handle peer =>
      simp only [World.step] at hstep
      split at hstep
      next =>
        obtain rfl := Option.some.inj hstep
        exact hsame (establish_sameRoutes env handle peer .accepted w)
      next => exact absurd hstep (by simp)
  | closed handle =>
      simp only [World.step] at hstep
      split at hstep
      next => exact absurd hstep (by simp)
      next =>
        obtain rfl := Option.some.inj hstep
        exact hsame (DASvcHandler.handleClose_sameRoutes _ w)
  | addSvr env key a =>
      obtain rfl := Option.some.inj hstep
      exact ⟨_, h.addSvr env key a, hl.addSvr h env key a⟩
  | rmSvr key a =>
      obtain rfl := Option.some.inj hstep
      exact ⟨_, h.rmSvr key a, hl.rmSvr key a⟩
  | updateProxy env t =>
      obtain rfl := Option.some.inj hstep
      exact ⟨_, h.updateProxy hl env t⟩
  | reBuild env =>
      obtain rfl := Option.some.inj hstep
      exact hsame (reBuild_sameRoutes env w)
  | getSvrConn key =>
      obtain rfl := Option.some.inj hstep
      exact ⟨_, h.getSvrConn hl key⟩
  | getConn a =>
      obtain rfl := Option.some.inj hstep
      exact hsame (SvrMgr.getConn_edits a w).sameRoutes

theorem Routed.start : World.start.Routed :=
  ⟨_, Routes.start, fun key p _ hp => by simp [World.start, UnorderedMap.empty] at hp⟩

theorem Routed.of_run {ops : List Op} {w : World}
    (h : replay World.step World.start ops = some w) : w.Routed :=
  replay_invariant' (fun _ _ _ hw hs => hw.step hs) ops _ w Routed.start h

/-- The routing tables are consistent: the vectors shadow their sets, no server is under
two keys, and SvrMgr has exactly the servers that are under some key. -/
structure Consistent (w : World) : Prop where
  serverList : ∀ key p, w.mapProxy.find key = some p → Enumerates p.serverList p.servers
  disjoint : ∀ key key' p p' a, w.mapProxy.find key = some p → w.mapProxy.find key' = some p' →
    a ∈ p.servers → a ∈ p'.servers → key = key'
  registered : ∀ a, SvrMgr.isSvrExist a w = true
    ↔ ∃ key p, w.mapProxy.find key = some p ∧ a ∈ p.servers
  handleList : ∀ a s, w.mapSvr a = some s → Enumerates s.handleList s.handles

theorem Routed.consistent {w : World} (hw : w.Routed) (ht : w.Tracked) : w.Consistent := by
  obtain ⟨r, h, hl⟩ := hw
  refine ⟨fun key p hp => hl key p (by simp) hp, ?_, ?_, ht.shadow⟩
  · intro key key' p p' a hp hp' ha ha'
    have hr := (h.mem_servers hp a).mp ha
    have hr' := (h.mem_servers hp' a).mp ha'
    exact Option.some.inj (hr.symm.trans hr')
  · intro a
    rw [h.exist a, Option.isSome_iff_exists]
    exact exists_congr fun key => (h.serves key a).symm

end World

/-- **The routing tables are consistent in every state of every run** of the atomic
operations: (a) server_list enumerates servers, (b) no server is under two keys, (c) the
servers under the keys are those registered in SvrMgr, (d) handle_list enumerates handles. -/
theorem routing_tables_consistent (ops : List Op) :
    Always World.step World.Consistent World.start ops := by
  have hstep : ∀ (w : World) (op : Op) (w' : World), True → w.Routed ∧ w.Tracked →
      w.step op = some w' → w'.Routed ∧ w'.Tracked :=
    fun w op w' _ hw hs => ⟨hw.1.step hs, hw.2.step hs⟩
  exact Along.always hstep (fun _ hw => hw.1.consistent hw.2) ops World.start
    ⟨World.Routed.start, World.Tracked.start⟩ (along_true ops World.start)

end TcpFramework
