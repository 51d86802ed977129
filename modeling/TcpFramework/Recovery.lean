/-
  TcpFramework.Recovery — a reconnection pass that succeeds, and what holds until a server
  loses its last connection.

  connSvr may fail, connections close, and getSvrConn asks one server last, whether that
  one has a connection or not: a dispatch may fail although some server could take the
  message.  When every server has a connection none of this matters.  reBuild gets there
  when its connects succeed, and nothing but the loss of a server's last connection, or a
  new server that cannot be connected to, leads away from there.

  Main results:
    * `Routed.allUp_reBuild` — after the pass every server has a connection if and only if
      every connect of the pass succeeded.
    * `recovered_until_lost` — from then on every dispatch finds an open connection to a
      server of its key.
-/
import TcpFramework.Dispatch
import TcpFramework.Reconnection
import TcpFramework.RouteUpdate
import TcpFramework.UpdateEffects

namespace TcpFramework

open StepSystem Assignment

/-! ## §1. Servers with a connection. -/

/-- The server lists a handle. -/
def World.Has (w : World) (a : Addr) : Prop := ∃ j, w.Lists a j

/-- Every registered server does. -/
def World.AllUp (w : World) : Prop := ∀ a, SvrMgr.isSvrExist a w = true → w.Has a

namespace World

theorem exist_of_has {w : World} {a : Addr} (h : w.Has a) : SvrMgr.isSvrExist a w = true := by
  obtain ⟨j, s, hs, -⟩ := h
  simp [SvrMgr.isSvrExist, hs]

theorem has_iff_up {w : World} (hw : w.Shadowed) (a : Addr) : w.Has a ↔ w.Up a := by
  constructor
  · rintro ⟨j, s, hs, hj⟩
    exact ⟨s, hs, List.ne_nil_of_mem (((hw a s hs).2 j).mpr hj)⟩
  · rintro ⟨s, hs, hne⟩
    obtain ⟨j, hj⟩ := List.exists_mem_of_ne_nil _ hne
    exact ⟨j, s, hs, ((hw a s hs).2 j).mp hj⟩

theorem Has.congr {w w' : World} {a : Addr} (h : w.Has a) (hs : w'.mapSvr a = w.mapSvr a) :
    w'.Has a := by
  obtain ⟨j, s, hs', hj⟩ := h
  exact ⟨j, s, hs.trans hs', hj⟩

/-- The entries of a sound state are as reBuild takes them. -/
theorem Sound.regular {w : World} (hw : w.Sound) {a : Addr} {s : SServer}
    (hs : w.mapSvr a = some s) : s.Regular where
  normal := hw.normal a s hs
  shadow := hw.tracked.shadow a s hs
  descriptor := by
    intro h hh he
    obtain ⟨c, hc, -⟩ := hw.tracked.listed a h ⟨s, hs, hh⟩
    have hpos := (hw.tracked.own h c hc).2.1
    omega

theorem Sound.reBuildSvr {w : World} (hw : w.Sound) (env : Env) (a : Addr) :
    (ProxyMgr.reBuildSvr env a w).Sound :=
  ⟨hw.tracked.reBuildSvr env a, World.AllNormal.tableInvariant.reBuildSvr env a w hw.normal⟩

theorem Sound.step {w w' : World} {op : Op} (hw : w.Sound) (hstep : w.step op = some w') :
    w'.Sound :=
  ⟨hw.tracked.step hstep, World.AllNormal.tableInvariant.step
    (fun env h peer _ _ _ => hw.normal.establish env h peer .accepted)
    (fun _ c _ _ => hw.normal.handleClose c) hw.normal hstep⟩

end World

/-! ## §2. A reconnection pass. -/

/-- The connect of one turn succeeds, when the turn makes one. -/
def Env.answers (env : Env) (a : Addr) (w : World) : Prop :=
  SvrMgr.getHandleNum a w = 0 → (env.connect a w.fds).isSome = true

/-- Every connect of the walk over these servers does. -/
def Env.answersAll (env : Env) : List Addr → World → Prop
  | [], _ => True
  | a :: l, w => env.answers a w ∧ env.answersAll l (ProxyMgr.reBuildSvr env a w)

namespace ProxyMgr

open World

/-- The work at one server: it has a connection afterwards exactly when it had one or the
connect succeeded. -/
theorem has_reBuildSvr_self (env : Env) {a : Addr} {w : World} (hw : w.Sound)
    (hex : SvrMgr.isSvrExist a w = true) :
    (reBuildSvr env a w).Has a ↔ env.answers a w := by
  obtain ⟨s, hs⟩ := Option.isSome_iff_exists.mp hex
  obtain ⟨s', hs', hbuilt⟩ := reBuildSvr_spec env hs (hw.regular hs)
  have hnum : SvrMgr.getHandleNum a w = s.handleList.length := by
    simp [SvrMgr.getHandleNum, hs]
  have hup : (reBuildSvr env a w).Has a ↔ s'.handleList ≠ [] := by
    rw [has_iff_up (hw.reBuildSvr env a).tracked.shadow]
    simp [World.Up, hs']
  rw [hup]
  unfold Env.answers
  rw [hnum]
  by_cases hnil : s.handleList = []
  · -- the server had none: what it has is what the connect gave
    rw [hbuilt.connected hnil]
    cases env.connect a w.fds <;> simp [hnil]
  · have hlen : 0 < s.handleList.length := List.length_pos_iff.mpr hnil
    have hsome : s'.handleList ≠ [] := by
      by_cases h3 : s.handleList.length ≤ 3
      · rwa [hbuilt.same hlen h3]
      · have htrim := (hbuilt.trimmed (by omega)).1
        exact List.length_pos_iff.mp (by omega)
    constructor
    · intro _ h0
      omega
    · exact fun _ => hsome

/-- No server loses its last connection. -/
theorem has_reBuildSvr (env : Env) (a : Addr) {b : Addr} {w : World} (hw : w.Sound)
    (hb : w.Has b) : (reBuildSvr env a w).Has b := by
  by_cases hba : b = a
  · subst hba
    refine (has_reBuildSvr_self env hw (exist_of_has hb)).mpr (fun h0 => ?_)
    obtain ⟨s, hs, hne⟩ := (has_iff_up hw.tracked.shadow b).mp hb
    have hnil : s.handleList = [] := by simpa [SvrMgr.getHandleNum, hs] using h0
    exact absurd hnil hne
  · exact hb.congr (reBuildSvr_others env a w hba)

theorem has_reBuildSvrs (env : Env) {b : Addr} (l : List Addr) :
    ∀ {w : World}, w.Sound → w.Has b →
      (l.foldl (fun w a => reBuildSvr env a w) w).Has b := by
  induction l with
  | nil => exact fun _ hb => hb
  | cons a l ih => exact fun hw hb => ih (hw.reBuildSvr env a) (has_reBuildSvr env a hw hb)

/-- **The walk** leaves a connection to each of its servers, if and only if every connect of
the walk succeeded. -/
theorem has_walk_iff (env : Env) (l : List Addr) :
    ∀ {w : World}, w.Sound → l.Nodup → (∀ a ∈ l, SvrMgr.isSvrExist a w = true) →
      ((∀ a ∈ l, (l.foldl (fun w a => reBuildSvr env a w) w).Has a) ↔ env.answersAll l w) := by
  induction l with
  | nil => exact fun _ _ _ => ⟨fun _ => trivial, fun _ _ h => absurd h List.not_mem_nil⟩
  | cons a l ih =>
      intro w hw hnd hex
      obtain ⟨hal, hnd'⟩ := List.nodup_cons.mp hnd
      have hw' := hw.reBuildSvr env a
      have hex' : ∀ b ∈ l, SvrMgr.isSvrExist b (reBuildSvr env a w) = true := fun b hb =>
        ((reBuildSvr_sameRoutes env a w).exist b).trans (hex b (List.mem_cons_of_mem a hb))
      rw [Env.answersAll, ← ih hw' hnd' hex',
        ← has_reBuildSvr_self env hw (hex a List.mem_cons_self), List.forall_mem_cons,
        List.foldl_cons]
      refine and_congr_left fun _ => ?_
      constructor
      · -- the rest of the walk does not come back to the server
        exact fun h => h.congr (reBuildSvrs_others env l hal).symm
      · exact has_reBuildSvrs env l hw'

end ProxyMgr

theorem World.Routed.routed_iff {w : World} (hw : w.Routed) (ht : w.Tracked) (a : Addr) :
    a ∈ w.routed ↔ SvrMgr.isSvrExist a w = true := by
  have hc := hw.consistent ht
  rw [hc.registered a, World.mem_routed]
  exact exists_congr fun key => exists_congr fun p => and_congr_right fun hp =>
    (hc.serverList key p hp).2 a

/-- Every reachable state is one that reBuild is about. -/
theorem World.Routed.regular {w : World} (hw : w.Routed) (hs : w.Sound) : w.Regular := by
  have hc := hw.consistent hs.tracked
  have hmem : ∀ {key p a}, w.mapProxy.find key = some p → a ∈ p.serverList → a ∈ p.servers :=
    fun hp ha => ((hc.serverList _ _ hp).2 _).mp ha
  refine ⟨fun key p a hp ha => ?_, fun key p hp => (hc.serverList key p hp).1, ?_, ?_⟩
  · exact Option.isSome_iff_exists.mp ((hc.registered a).mpr ⟨key, p, hp, hmem hp ha⟩)
  · exact fun key key' p p' a hp hp' ha ha' =>
      hc.disjoint key key' p p' a hp hp' (hmem hp ha) (hmem hp' ha')
  · exact fun a s h => hs.regular h

/-- The pass. -/
theorem World.Routed.allUp_reBuild {w : World} (hw : w.Routed) (hs : w.Sound) (env : Env) :
    (ProxyMgr.reBuild env w).AllUp ↔ env.answersAll w.routed w := by
  have hmem := hw.routed_iff hs.tracked
  rw [← ProxyMgr.has_walk_iff env w.routed hs (hw.regular hs).routed_nodup
    (fun a ha => (hmem a).mp ha), ← ProxyMgr.reBuild_eq env w]
  refine forall_congr' fun a => ?_
  rw [(World.reBuild_sameRoutes env w).exist a, hmem a]

/-! ## §3. What keeps every server connected. -/

/-- The connect to a server that is added succeeds, when the server is new. -/
def Env.dials (env : Env) (a : Addr) (w : World) : Prop :=
  SvrMgr.isSvrExist a w = false → (env.connect a w.fds).isSome = true

/-- Every connect to the new servers among these does, as they are added one by one. -/
def Env.dialsAll (env : Env) : List (Int × Addr) → World → Prop
  | [], _ => True
  | (key, a) :: l, w => env.dials a w ∧ env.dialsAll l (ProxyMgr.addSvr env key a w).2

/-- The condition on an operation: a connection that closes is not a server's last one, and
new servers can be connected to.  Everything else is free: clients, removals, dispatches, and
reconnection passes whose connects may fail. -/
def Op.keepsUp (w : World) : Op → Prop
  | .closed h => ∀ a, w.Lists a h → ∃ j, j ≠ h ∧ w.Lists a j
  | .addSvr env _ a => env.dials a w
  | .updateProxy env t => env.dialsAll (ProxyMgr.pairs t) w
  | _ => True

namespace World.AllUp

open World

variable {w : World}

/-- Nothing happens to registrations and handles. -/
theorem same {w' : World} (hw : w.AllUp)
    (hex : ∀ a, SvrMgr.isSvrExist a w' = SvrMgr.isSvrExist a w)
    (hlists : ∀ a j, w'.Lists a j ↔ w.Lists a j) : w'.AllUp := by
  intro a ha
  obtain ⟨j, hj⟩ := hw a ((hex a).symm.trans ha)
  exact ⟨j, (hlists a j).mpr hj⟩

theorem accept (hw : w.AllUp) (ht : w.Tracked) (env : Env) {handle : Int} (peer : Addr)
    (hfree : w.fds handle = none) : (w.establish env handle peer .accepted).AllUp := by
  have hm : w.mConn handle = none := by rw [ht.recorded, hfree]
  have hsame := establish_sameRoutes env handle peer .accepted w
  intro a ha
  obtain ⟨j, hj⟩ := hw a ((hsame.exist a).symm.trans ha)
  exact ⟨j, (establish_lists hm a j).mpr (Or.inl hj)⟩

theorem closed (hw : w.AllUp) {c : DASvcHandler} (hpos : 0 ≤ c.handle)
    (hlast : ∀ a, w.Lists a c.handle → ∃ j, j ≠ c.handle ∧ w.Lists a j) :
    (c.handleClose w).AllUp := by
  intro a ha
  obtain ⟨j, hj⟩ := hw a (((DASvcHandler.handleClose_sameRoutes c w).exist a).symm.trans ha)
  by_cases hjc : j = c.handle
  · -- another connection is left
    obtain ⟨i, hne, hi⟩ := hlast a (hjc ▸ hj)
    exact ⟨i, (DASvcHandler.handleClose_lists hpos a i).mpr ⟨hi, fun he => hne he.2⟩⟩
  · exact ⟨j, (DASvcHandler.handleClose_lists hpos a j).mpr ⟨hj, fun he => hjc he.2⟩⟩

/-- A new server is registered and connected to. -/
theorem register (hw : w.AllUp) (ht : w.Tracked) {env : Env} {a : Addr}
    (hnone : w.mapSvr a = none) (hc : (env.connect a w.fds).isSome = true) :
    (SvrMgr.connSvr env a (SvrMgr.addSvr a w)).2.AllUp := by
  obtain ⟨h, hh⟩ := Option.isSome_iff_exists.mp hc
  have hadd : SvrMgr.addSvr a w = w.setSvr a (some {}) := by
    simp [SvrMgr.addSvr, hnone, setSvr]
  have hentry : (SvrMgr.addSvr a w).mapSvr a = some {} := by simp [hadd, setSvr]
  have hconn : env.connect a (SvrMgr.addSvr a w).fds = some h := by
    rw [hadd]
    exact hh
  have hself := ProxyMgr.connSvr_connects hentry hconn (UnorderedSet.not_mem_empty h)
  have hgrown := register_grown env ht hnone
  intro b hb
  by_cases hba : b = a
  · subst hba
    exact ⟨h, _, hself, UnorderedSet.mem_insert.mpr (Or.inl rfl)⟩
  · have hold : SvrMgr.isSvrExist b w = true := by
      rw [(register_routes env a w).2 b, if_neg hba] at hb
      exact hb
    obtain ⟨j, hj⟩ := hw b hold
    exact ⟨j, (Grown.lists hgrown hold j).mpr hj⟩

theorem ensureKey (hw : w.AllUp) (env : Env) (key : Int) :
    (ProxyMgr.ensureKey env key w).AllUp ∧ (ProxyMgr.ensureKey env key w).mapSvr = w.mapSvr
      ∧ (ProxyMgr.ensureKey env key w).fds = w.fds := by
  unfold ProxyMgr.ensureKey
  split <;> exact ⟨hw, rfl, rfl⟩

theorem addSvr (hw : w.AllUp) (ht : w.Tracked) {r : Assignment Int Addr} (hr : w.Routes r)
    {env : Env} (key : Int) {a : Addr} (hc : env.dials a w) :
    (ProxyMgr.addSvr env key a w).2.AllUp := by
  obtain ⟨hkey, hsvr, hfds⟩ := hw.ensureKey env key
  have htk : (ProxyMgr.ensureKey env key w).Tracked := by
    unfold ProxyMgr.ensureKey
    split
    · exact ht.withProxy _
    · exact ht
  rcases ProxyMgr.addSvr_cases env key a hr with ⟨-, he⟩ | ⟨w₂, hnone, rfl, he⟩
  · rw [he]
    exact hkey
  · have hnew : SvrMgr.isSvrExist a w = false := by
      rw [hr.exist a, hnone]
      rfl
    have hfree : w.mapSvr a = none := by simpa [SvrMgr.isSvrExist] using hnew
    rw [he]
    exact hkey.register htk (hsvr ▸ hfree) (hfds ▸ hc hnew)

/-- Servers are dropped, and the others stay as they are. -/
theorem dropped (hw : w.AllUp) {w' : World} {R : Addr → Prop} (h : w.Dropped R w') :
    w'.AllUp := by
  intro a ha
  have hR : ¬ R a := fun hR => by simp [SvrMgr.isSvrExist, h.gone a hR] at ha
  have hold : SvrMgr.isSvrExist a w = true := by
    rw [SvrMgr.isSvrExist, ← h.others a hR]
    exact ha
  exact (hw a hold).congr (h.others a hR)

theorem rmSvr (hw : w.AllUp) (ht : w.Tracked) (key : Int) (a : Addr) :
    (ProxyMgr.rmSvr key a w).AllUp := by
  unfold ProxyMgr.rmSvr
  split
  · exact hw
  · split
    · exact hw.dropped ((dropSvr_dropped ht a).withProxy _)
    · exact hw

/-- Servers are added one by one. -/
theorem addPairs (env : Env) (l : List (Int × Addr)) :
    ∀ {w : World} {r : Assignment Int Addr}, w.AllUp → w.Tracked → w.Routes r →
      env.dialsAll l w → (l.foldl (fun w p => (ProxyMgr.addSvr env p.1 p.2 w).2) w).AllUp := by
  induction l with
  | nil => exact fun hw _ _ _ => hw
  | cons p l ih =>
      intro w r hw ht hr hdials
      obtain ⟨key, a⟩ := p
      -- the rest is added to what the first has left
      exact ih (hw.addSvr ht hr key hdials.1) (Tracked.tableInvariant.addSvr env key a ht)
        (hr.addSvr env key a) hdials.2

/-- An update whose new servers can be connected to. -/
theorem updateProxy (hw : w.AllUp) (ht : w.Tracked) {r : Assignment Int Addr} (hr : w.Routes r)
    (hl : w.ListedExcept none) (env : Env) {t : ProxyMgr.Target}
    (hdials : env.dialsAll (ProxyMgr.pairs t) w) : (ProxyMgr.updateProxy env t w).AllUp := by
  -- the first pass adds, the second one drops
  have hadded : (ProxyMgr.addRoutes env t w).AllUp := by
    rw [ProxyMgr.addRoutes_eq]
    exact addPairs env (ProxyMgr.pairs t) hw ht hr hdials
  exact hadded.dropped (hr.updateProxy_spec hl ht env t).2

theorem reBuild (hw : w.AllUp) (hs : w.Sound) (env : Env) : (ProxyMgr.reBuild env w).AllUp := by
  intro a ha
  rw [ProxyMgr.reBuild_eq]
  exact ProxyMgr.has_reBuildSvrs env w.routed hs
    (hw a (((reBuild_sameRoutes env w).exist a).symm.trans ha))

theorem getSvrConn (hw : w.AllUp) (hs : w.Sound) {r : Assignment Int Addr} (hr : w.Routes r)
    (hl : w.ListedExcept none) (key : Int) : (ProxyMgr.getSvrConn key w).2.AllUp := by
  refine hw.same (fun a => ?_) (fun a j => ?_)
  · rw [(hr.getSvrConn hl key).1.exist a, hr.exist a]
  · cases hp : w.mapProxy.find key with
    | none => simp [ProxyMgr.getSvrConn, hp]
    | some p =>
        by_cases hnil : p.serverList = []
        · simp [ProxyMgr.getSvrConn, hp, hnil, ProxyMgr.getSvrConnLoop]
        · obtain ⟨b, w', -, -, hsame, -, he⟩ :=
            ProxyMgr.getSvrConn_last hs hnil ⟨p, hp, rfl, rfl⟩
          rw [he]
          exact (SvrMgr.lists_getConn b a w' j).trans (hsame.lists a j)

/-- **One operation** that keeps the condition. -/
theorem step (hw : w.AllUp) (hs : w.Sound) (hr : w.Routed) {op : Op} (hop : op.keepsUp w)
    {w' : World} (hstep : w.step op = some w') : w'.AllUp := by
  obtain ⟨r, hr, hl⟩ := hr
  cases op with
  | accept env handle peer =>
      simp only [World.step] at hstep
      split at hstep
      next hfree =>
        obtain rfl := Option.some.inj hstep
        exact hw.accept hs.tracked env peer hfree.2
      next => exact absurd hstep (by simp)
  | closed handle =>
      simp only [World.step] at hstep
      cases hc : w.fds handle with
      | none => simp [hc] at hstep
      | some c =>
          simp only [hc, Option.some.injEq] at hstep
          subst hstep
          obtain ⟨rfl, hpos, -⟩ := hs.tracked.own handle c hc
          exact hw.closed hpos hop
  | addSvr env key a =>
      obtain rfl := Option.some.inj hstep
      exact hw.addSvr hs.tracked hr key hop
  | rmSvr key a =>
      obtain rfl := Option.some.inj hstep
      exact hw.rmSvr hs.tracked key a
  | updateProxy env t =>
      obtain rfl := Option.some.inj hstep
      exact hw.updateProxy hs.tracked hr hl env hop
  | reBuild env =>
      obtain rfl := Option.some.inj hstep
      exact hw.reBuild hs env
  | getSvrConn key =>
      obtain rfl := Option.some.inj hstep
      exact hw.getSvrConn hs hr hl key
  | getConn a =>
      obtain rfl := Option.some.inj hstep
      exact hw.same (SvrMgr.getConn_edits a w).sameRoutes.exist (SvrMgr.lists_getConn a · w)

end World.AllUp

/-! ## §4. Dispatch. -/

/-- Every dispatch finds a connection: getSvrConn of a key with servers returns the descriptor
of an open connection to one of them, getConn of a registered server of one to it. -/
structure World.Serving (w : World) : Prop where
  byKey : ∀ key a, w.Serves key a →
    ∃ c, w.fds (ProxyMgr.getSvrConn key w).1 = some c ∧ w.Serves key c.peer
  byAddr : ∀ a, SvrMgr.isSvrExist a w = true →
    ∃ c, w.fds (SvrMgr.getConn a w).1 = some c ∧ c.peer = a

theorem World.AllUp.serving {w : World} (hw : w.AllUp) (hs : w.Sound) (hr : w.Routed) :
    w.Serving where
  byKey := by
    intro key a ⟨p, hp, ha⟩
    have hc := hr.consistent hs.tracked
    have hreg : ∀ b, b ∈ p.serverList → b ∈ p.servers ∧ w.Up b := by
      intro b hb
      have hm := ((hc.serverList key p hp).2 b).mp hb
      refine ⟨hm, (World.has_iff_up hs.tracked.shadow b).mp (hw b ?_)⟩
      exact (hc.registered b).mpr ⟨key, p, hp, hm⟩
    have hne : p.serverList ≠ [] := List.ne_nil_of_mem (((hc.serverList key p hp).2 a).mpr ha)
    obtain ⟨b, w', hb, hs', hsame, -, he⟩ :=
      ProxyMgr.getSvrConn_last hs hne ⟨p, hp, rfl, rfl⟩
    -- the server asked last is up, like all of them
    obtain ⟨hm, hup⟩ := hreg b (List.mem_of_getElem? hb)
    have hok : (SvrMgr.getConn b w').1 ≠ -1 := by
      rw [ne_eq, SvrMgr.getConn_eq_neg_one hs' b, not_not]
      exact (hsame.up b).mpr hup
    obtain ⟨c, hfd, hpeer⟩ := hs.tracked.listed b _
      ((hsame.lists b _).mp (SvrMgr.getConn_handle hs'.tracked.shadow hok))
    rw [he]
    exact ⟨c, hfd, p, hp, hpeer ▸ hm⟩
  byAddr := by
    intro a ha
    have hok : (SvrMgr.getConn a w).1 ≠ -1 := by
      rw [ne_eq, SvrMgr.getConn_eq_neg_one hs a, not_not]
      exact (World.has_iff_up hs.tracked.shadow a).mp (hw a ha)
    exact hs.tracked.listed a _ (SvrMgr.getConn_handle hs.tracked.shadow hok)

/-- **Recovered until a server loses its last connection**: when every connect of a
reconnection pass succeeds, in whatever state a run has left the service, then after the pass
and for as long as the operations keep the condition every dispatch finds an open connection
to a server of its key. -/
theorem recovered_until_lost {ops : List Op} {w : World}
    (h : replay World.step World.start ops = some w) {env : Env}
    (hans : env.answersAll w.routed w) {more : List Op}
    (hmore : Along World.step (fun w op => op.keepsUp w) (ProxyMgr.reBuild env w) more) :
    Always World.step World.Serving (ProxyMgr.reBuild env w) more := by
  have hs := World.Sound.of_run h
  have hr := World.Routed.of_run h
  have hpass : w.step (.reBuild env) = some (ProxyMgr.reBuild env w) := rfl
  have hstep : ∀ (v : World) (op : Op) (v' : World), op.keepsUp v →
      v.AllUp ∧ v.Sound ∧ v.Routed → v.step op = some v' → v'.AllUp ∧ v'.Sound ∧ v'.Routed :=
    fun v op v' hop hv hs =>
      ⟨hv.1.step hv.2.1 hv.2.2 hop hs, hv.2.1.step hs, hv.2.2.step hs⟩
  exact Along.always hstep (fun v hv => hv.1.serving hv.2.1 hv.2.2) more _
    ⟨(hr.allUp_reBuild hs env).mpr hans, hs.step hpass, hr.step hpass⟩ hmore

/-- One of two servers could not be connected to, and the other one has lost its connection.
After a pass that succeeds, passes may fail, and an update brings a third server. -/
theorem recovered_until_lost_two :
    ∃ w, replay World.step World.start
        [.addSvr .refuse 1 (10, 80), .addSvr .dial 1 (11, 80), .closed 3] = some w
      ∧ Always World.step World.Serving (ProxyMgr.reBuild .dial w)
          [.getSvrConn 1, .reBuild .refuse,
            .updateProxy .dial (ProxyMgr.oneKey 1 [(11, 80), (12, 80)]), .rmSvr 1 (11, 80)] :=
  ⟨_, rfl, @recovered_until_lost
    [.addSvr .refuse 1 (10, 80), .addSvr .dial 1 (11, 80), .closed 3] _ rfl .dial
    ⟨fun _ => rfl, fun _ => rfl, trivial⟩ _
    (.cons trivial rfl (.cons trivial rfl
      (.cons ⟨fun _ => rfl, fun _ => rfl, trivial⟩ rfl (.cons trivial rfl trivial))))⟩

end TcpFramework
