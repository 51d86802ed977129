/-
  TcpFramework.UpdateEffects — what updateProxy leaves alone.

  The first pass opens connections to servers that were not registered; the second closes
  what the servers it drops have listed.  A close re-enters rmConn, which edits the SvrMgr
  entry that the connection's peer names: it is the entry of the server being dropped,
  because what a server lists is connected to it (`World.Tracked`).

  Main results:
    * `dropSvr_dropped`, `pruneKeys_dropped` — exactly what the second pass closes.
    * `addRoutes_grown` — all that the first pass does is open connections.
    * `updateProxy_disturbs` — the two together.
-/
import TcpFramework.RoutingTables

namespace TcpFramework

open StepSystem Assignment

/-! ## §1. Servers that are dropped. -/

/-- The servers in `R` are gone, their listed connections are closed, and nothing else
has happened to connections or servers. -/
structure World.Dropped (R : Addr → Prop) (w w' : World) : Prop where
  fds : ∀ h c, w'.fds h = some c ↔ w.fds h = some c ∧ ¬ ∃ a, R a ∧ w.Lists a h
  gone : ∀ a, R a → w'.mapSvr a = none
  others : ∀ a, ¬ R a → w'.mapSvr a = w.mapSvr a
  nextId : w'.nextId = w.nextId

namespace World.Dropped

theorem none_of (w : World) {R : Addr → Prop} (hR : ∀ a, ¬ R a) : w.Dropped R w where
  fds := by
    intro h c
    constructor
    · exact fun hc => ⟨hc, fun ⟨a, ha, _⟩ => hR a ha⟩
    · exact And.left
  gone := fun a ha => absurd ha (hR a)
  others := fun _ _ => rfl
  nextId := rfl

theorem congr {R R' : Addr → Prop} {w w' : World} (h : w.Dropped R w') (hR : ∀ a, R a ↔ R' a) :
    w.Dropped R' w' := by
  obtain rfl : R = R' := funext fun a => propext (hR a)
  exact h

/-- Routing has no part in it. -/
theorem withProxy {R : Addr → Prop} {w w' : World} (h : w.Dropped R w')
    (m : UnorderedMap Int SProxy) : w.Dropped R { w' with mapProxy := m } :=
  ⟨h.fds, h.gone, h.others, h.nextId⟩

/-- What the remaining servers list is what they listed. -/
theorem lists {R : Addr → Prop} {w w' : World} (h : w.Dropped R w') (a : Addr) (j : Int) :
    w'.Lists a j ↔ ¬ R a ∧ w.Lists a j := by
  unfold World.Lists
  by_cases ha : R a
  · simp [h.gone a ha, ha]
  · simp [h.others a ha, ha]

theorem trans {R R' : Addr → Prop} {w w' w'' : World} (h : w.Dropped R w')
    (h' : w'.Dropped R' w'') : w.Dropped (fun a => R a ∨ R' a) w'' where
  fds := by
    intro j c
    rw [h'.fds, h.fds]
    constructor
    · rintro ⟨⟨hc, hR⟩, hR'⟩
      refine ⟨hc, ?_⟩
      rintro ⟨a, ha, hl⟩
      by_cases hRa : R a
      · exact hR ⟨a, hRa, hl⟩
      · exact hR' ⟨a, ha.resolve_left hRa, (h.lists a j).mpr ⟨hRa, hl⟩⟩
    · rintro ⟨hc, hno⟩
      refine ⟨⟨hc, ?_⟩, ?_⟩
      · rintro ⟨a, ha, hl⟩
        exact hno ⟨a, Or.inl ha, hl⟩
      · rintro ⟨a, ha, hl⟩
        exact hno ⟨a, Or.inr ha, ((h.lists a j).mp hl).2⟩
  gone := by
    intro a ha
    by_cases hR' : R' a
    · exact h'.gone a hR'
    · rw [h'.others a hR']
      exact h.gone a (ha.resolve_right hR')
  others := by
    intro a ha
    rw [h'.others a (fun hR' => ha (Or.inr hR')), h.others a (fun hR => ha (Or.inl hR))]
  nextId := h'.nextId.trans h.nextId

end World.Dropped

/-- The fold of closeSvr, over handles of connections to the server. -/
theorem closeAll_spec (a : Addr) (l : List Int) :
    ∀ {w : World}, w.Tracked → (∀ h ∈ l, ∀ c, w.fds h = some c → c.peer = a) →
      (l.foldl (fun w h => (ConnMgr.close h w).2) w).nextId = w.nextId
      ∧ (∀ h c, (l.foldl (fun w h => (ConnMgr.close h w).2) w).fds h = some c
          ↔ w.fds h = some c ∧ h ∉ l)
      ∧ ∀ b, b ≠ a →
          (l.foldl (fun w h => (ConnMgr.close h w).2) w).mapSvr b = w.mapSvr b := by
  induction l with
  | nil => exact fun _ _ => ⟨rfl, by simp, fun _ _ => rfl⟩
  | cons j l ih =>
      intro w hw hpeer
      have hpeer' : ∀ h ∈ l, ∀ c, w.fds h = some c → c.peer = a :=
        fun h hh => hpeer h (List.mem_cons_of_mem j hh)
      rw [List.foldl_cons]
      rcases hw.close_cases j with ⟨hfree, he⟩ | ⟨c, hj, hc, he⟩
      · -- the descriptor is free already
        rw [he]
        obtain ⟨hid, hfds, hother⟩ := ih hw hpeer'
        refine ⟨hid, fun h d => ?_, hother⟩
        rw [hfds h d, List.mem_cons, not_or]
        constructor
        · intro hd
          refine ⟨hd.1, ?_, hd.2⟩
          rintro rfl
          rw [hfree] at hd
          exact absurd hd.1 (by simp)
        · exact fun hd => ⟨hd.1, hd.2.2⟩
      · rw [he]
        have hpos : 0 ≤ c.handle := (hw.own _ c hc).2.1
        have hsame := DASvcHandler.handleClose_onlySvr w hpos
        have hopen := fun h d => DASvcHandler.handleClose_open (w := w) hpos (j := h) (d := d)
        obtain ⟨hid, hfds, hother⟩ := ih (hw.handleClose hc)
          (fun h hh d hd => hpeer' h hh d ((hopen h d).mp hd).2)
        refine ⟨hid.trans hsame.nextId, fun h d => ?_, fun b hb => ?_⟩
        · rw [hfds h d, hopen h d, hj, List.mem_cons, not_or]
          constructor
          · exact fun hd => ⟨hd.1.2, hd.1.1, hd.2⟩
          · exact fun hd => ⟨⟨hd.2.1, hd.1⟩, hd.2.2⟩
        · have hca : c.peer = a := hpeer j List.mem_cons_self c (hj ▸ hc)
          rw [hother b hb]
          exact DASvcHandler.handleClose_mapSvr hpos (hca ▸ hb)

/-- **Dropping one server** closes what it lists. -/
theorem dropSvr_dropped {w : World} (hw : w.Tracked) (a : Addr) :
    w.Dropped (fun b => b = a) (ProxyMgr.dropSvr a w) := by
  cases hs : w.mapSvr a with
  | none =>
      -- nothing to close, and nothing to forget
      have hclose : SvrMgr.closeSvr a w = w := by simp [SvrMgr.closeSvr, hs]
      unfold ProxyMgr.dropSvr
      rw [hclose]
      refine ⟨fun h c => ?_, fun b hb => ?_, fun b hb => ?_, rfl⟩
      · simp [SvrMgr.rmSvr, World.Lists, hs]
      · simp [SvrMgr.rmSvr, hb]
      · simp [SvrMgr.rmSvr, hb]
  | some s =>
      have hclose : SvrMgr.closeSvr a w
          = s.handles.elems.foldl (fun w h => (ConnMgr.close h w).2) w := by
        simp [SvrMgr.closeSvr, hs]
      have hlist : ∀ h, w.Lists a h ↔ h ∈ s.handles.elems := by
        intro h
        unfold World.Lists
        simp only [hs, Option.some.injEq, exists_eq_left']
        rfl
      obtain ⟨hid, hfds, hother⟩ := closeAll_spec a s.handles.elems hw (fun h hh c hc => by
        obtain ⟨d, hd, hp⟩ := hw.listed a h ((hlist h).mpr hh)
        obtain rfl : c = d := Option.some.inj (hc.symm.trans hd)
        exact hp)
      unfold ProxyMgr.dropSvr
      rw [hclose]
      refine ⟨fun h c => ?_, fun b hb => ?_, fun b hb => ?_, hid⟩
      · have hc := hfds h c
        rw [← hlist h] at hc
        simpa [SvrMgr.rmSvr] using hc
      · simp [SvrMgr.rmSvr, hb]
      · simpa [SvrMgr.rmSvr, hb] using hother b hb

/-! ## §2. The second pass. -/

/-- The whole-key deletion, over any list of servers. -/
theorem dropAll_dropped (l : List Addr) :
    ∀ {w : World}, w.Tracked →
      w.Dropped (fun b => b ∈ l) (l.foldl (fun w a => ProxyMgr.dropSvr a w) w) := by
  induction l with
  | nil => exact fun {w} _ => .none_of w (fun _ => List.not_mem_nil)
  | cons a l ih =>
      intro w hw
      refine ((dropSvr_dropped hw a).trans (ih (hw.dropSvr a))).congr (fun b => ?_)
      exact List.mem_cons.symm

/-- The partial deletion, over any list of servers. -/
theorem pruneSvrs_dropped (svrs : UnorderedSet Addr) (key : Int) (l : List Addr) :
    ∀ {w : World}, w.Tracked →
      w.Dropped (fun b => b ∈ l ∧ b ∉ svrs) (l.foldl (ProxyMgr.pruneSvr svrs key) w) := by
  induction l with
  | nil => exact fun {w} _ => .none_of w (fun _ h => List.not_mem_nil h.1)
  | cons a l ih =>
      intro w hw
      rw [List.foldl_cons]
      by_cases ha : a ∈ svrs
      · -- the target has it: nothing happens
        have hstay : ProxyMgr.pruneSvr svrs key w a = w := if_pos ha
        rw [hstay]
        refine (ih hw).congr (fun b => ?_)
        rw [List.mem_cons]
        constructor
        · exact fun hb => ⟨Or.inr hb.1, hb.2⟩
        · exact fun hb => ⟨hb.1.resolve_left (fun he => hb.2 (he ▸ ha)), hb.2⟩
      · have hgo : ProxyMgr.pruneSvr svrs key w a
            = { ProxyMgr.dropSvr a w with
                mapProxy := (ProxyMgr.dropSvr a w).mapProxy.modify key fun p => { p with
                  servers := p.servers.erase a } } := if_neg ha
        rw [hgo]
        have hdrop := (dropSvr_dropped hw a).withProxy
          ((ProxyMgr.dropSvr a w).mapProxy.modify key fun p => { p with
            servers := p.servers.erase a })
        refine (hdrop.trans (ih ((hw.dropSvr a).withProxy _))).congr (fun b => ?_)
        rw [List.mem_cons]
        constructor
        · intro hb
          rcases hb with rfl | hb
          · exact ⟨Or.inl rfl, ha⟩
          · exact ⟨Or.inr hb.1, hb.2⟩
        · intro hb
          rcases hb.1 with hba | hbl
          · exact Or.inl hba
          · exact Or.inr ⟨hbl, hb.2⟩

/-- A turn of the second pass drops the servers of its key that the target does not have
under it. -/
theorem pruneKey_dropped {w : World} (hw : w.Tracked) {r : Assignment Int Addr}
    (h : w.Routes r) (t : ProxyMgr.Target) (key : Int) :
    w.Dropped (fun a => r a = some key ∧ (key, a) ∉ ProxyMgr.pairs t)
      (ProxyMgr.pruneKey t w key) := by
  unfold ProxyMgr.pruneKey
  cases hp : w.mapProxy.find key with
  | none =>
      exact .none_of w (fun a ha => h.ne_of_find_none hp a ha.1)
  | some p =>
      have hmem : ∀ a, a ∈ p.servers.elems ↔ r a = some key := h.mem_servers hp
      cases ht : t.find key with
      | none =>
          have hno : ∀ a, (key, a) ∉ ProxyMgr.pairs t := by
            intro a ha
            obtain ⟨svrs, hs, -⟩ := ProxyMgr.mem_pairs.mp ha
            rw [ht] at hs
            exact absurd hs (by simp)
          refine ((dropAll_dropped p.servers.elems hw).withProxy _).congr (fun a => ?_)
          rw [hmem a]
          exact ⟨fun ha => ⟨ha, hno a⟩, And.left⟩
      | some svrs =>
          refine ((pruneSvrs_dropped svrs key p.servers.elems hw).withProxy _).congr (fun a => ?_)
          rw [hmem a, ProxyMgr.mem_pairs, ht]
          simp

theorem pruneKeys_dropped (t : ProxyMgr.Target) (ks : List Int) :
    ∀ {w : World} {r : Assignment Int Addr}, w.Tracked → w.Routes r → w.ListedExcept none →
      w.Dropped (fun a => ∃ key ∈ ks, r a = some key ∧ (key, a) ∉ ProxyMgr.pairs t)
        (ks.foldl (ProxyMgr.pruneKey t) w) := by
  induction ks with
  | nil =>
      intro w r _ _ _
      exact .none_of w (fun _ ⟨_, hk, _⟩ => List.not_mem_nil hk)
  | cons key ks ih =>
      intro w r hw h hl
      obtain ⟨h', hl'⟩ := h.pruneKey hl t key
      have hw' : (ProxyMgr.pruneKey t w key).Tracked :=
        World.Tracked.tableInvariant.pruneKey t key hw
      refine ((pruneKey_dropped hw h t key).trans (ih hw' h' hl')).congr (fun a => ?_)
      constructor
      · rintro (ha | ⟨k, hk, ha, hno⟩)
        · exact ⟨key, List.mem_cons_self, ha⟩
        · exact ⟨k, List.mem_cons_of_mem key hk, (prune_eq_some.mp ha).1, hno⟩
      · rintro ⟨k, hk, ha, hno⟩
        -- the turn of its own key drops it; the turns before that leave it alone
        by_cases hkey : k = key
        · subst hkey
          exact Or.inl ⟨ha, hno⟩
        · refine Or.inr ⟨k, (List.mem_cons.mp hk).resolve_left hkey, ?_, hno⟩
          exact prune_eq_some.mpr ⟨ha, fun he => absurd he hkey⟩

/-! ## §3. The first pass. -/

/-- Connections to servers that were not registered have been opened, and nothing else has
happened to connections or to the servers that were registered. -/
structure World.Grown (w w' : World) : Prop where
  kept : ∀ h c, w.fds h = some c → w'.fds h = some c
  opened : ∀ h c, w'.fds h = some c →
    w.fds h = some c ∨ (w.nextId ≤ c.id ∧ SvrMgr.isSvrExist c.peer w = false)
  allOpen : ∀ i, w.nextId ≤ i → i < w'.nextId → ∃ h c, w'.fds h = some c ∧ c.id = i
    ∧ SvrMgr.isSvrExist c.peer w = false
  entry : ∀ a s, w.mapSvr a = some s → w'.mapSvr a = some s
  nextId : w.nextId ≤ w'.nextId

namespace World.Grown

theorem refl (w : World) : w.Grown w where
  kept := fun _ _ hc => hc
  opened := fun _ _ hc => Or.inl hc
  allOpen := fun _ hi hlt => by omega
  entry := fun _ _ hs => hs
  nextId := Nat.le_refl _

theorem withProxy {w w' : World} (h : w.Grown w') (m : UnorderedMap Int SProxy) :
    w.Grown { w' with mapProxy := m } :=
  ⟨h.kept, h.opened, h.allOpen, h.entry, h.nextId⟩

theorem exist {w w' : World} (h : w.Grown w') {a : Addr}
    (ha : SvrMgr.isSvrExist a w' = false) : SvrMgr.isSvrExist a w = false := by
  unfold SvrMgr.isSvrExist at *
  cases hs : w.mapSvr a with
  | none => rfl
  | some s =>
      rw [h.entry a s hs] at ha
      exact absurd ha (by simp)

theorem trans {w w' w'' : World} (h : w.Grown w') (h' : w'.Grown w'') : w.Grown w'' where
  kept := fun j c hc => h'.kept j c (h.kept j c hc)
  opened := by
    intro j c hc
    rcases h'.opened j c hc with hold | ⟨hid, hex⟩
    · exact h.opened j c hold
    · exact Or.inr ⟨Nat.le_trans h.nextId hid, h.exist hex⟩
  allOpen := by
    intro i hi hlt
    by_cases hmid : i < w'.nextId
    · obtain ⟨j, c, hc, hid, hex⟩ := h.allOpen i hi hmid
      exact ⟨j, c, h'.kept j c hc, hid, hex⟩
    · obtain ⟨j, c, hc, hid, hex⟩ := h'.allOpen i (by omega) hlt
      exact ⟨j, c, hc, hid, h.exist hex⟩
  entry := fun a s hs => h'.entry a s (h.entry a s hs)
  nextId := Nat.le_trans h.nextId h'.nextId

end World.Grown

/-- Registering a new server and connecting to it. -/
theorem register_grown (env : Env) {a : Addr} {w : World} (hw : w.Tracked)
    (hnone : w.mapSvr a = none) :
    w.Grown (SvrMgr.connSvr env a (SvrMgr.addSvr a w)).2 := by
  have hadd : SvrMgr.addSvr a w = w.setSvr a (some {}) := by
    simp [SvrMgr.addSvr, hnone, World.setSvr]
  have hex : SvrMgr.isSvrExist a w = false := by simp [SvrMgr.isSvrExist, hnone]
  have hother : ∀ b s, w.mapSvr b = some s → b ≠ a := by
    rintro b s hs rfl
    rw [hnone] at hs
    exact absurd hs (by simp)
  have hreg : w.Grown (w.setSvr a (some {})) :=
    ⟨fun _ _ hc => hc, fun _ _ hc => Or.inl hc, fun i hi hlt => by
      have hlt' : i < w.nextId := hlt
      omega, fun b s hs => by
      show Function.update w.mapSvr a _ b = some s
      rw [Function.update_of_ne (hother b s hs)]
      exact hs, Nat.le_refl _⟩
  rw [hadd]
  rcases SvrMgr.connSvr_cases env a (w.setSvr a (some {})) with he | ⟨j, -, hfree, he⟩
  · rw [he]
    exact hreg
  · rw [he]
    have hm : (w.setSvr a (some {})).mConn j = none := by
      show w.mConn j = none
      rw [hw.recorded]
      exact hfree
    have hopen := fun i c => @World.establish_open env j a .connected _ hm i c
    have hid : ((w.setSvr a (some {})).establish env j a .connected).nextId = w.nextId + 1 :=
      (World.establish_onlySvr env j a .connected _ hm).nextId
    refine ⟨fun i c hc => ?_, fun i c hc => ?_, fun i hi hlt => ?_, fun b s hs => ?_, ?_⟩
    · refine (hopen i c).mpr (Or.inr ⟨?_, hc⟩)
      rintro rfl
      rw [show w.fds i = none from hfree] at hc
      exact absurd hc (by simp)
    · rcases (hopen i c).mp hc with ⟨-, rfl⟩ | ⟨-, hold⟩
      · exact Or.inr ⟨Nat.le_refl _, hex⟩
      · exact Or.inl hold
    · -- the only new identity is that of the connection to `a`
      have hlt' : i < w.nextId + 1 := hid ▸ hlt
      obtain rfl : i = w.nextId := by omega
      exact ⟨j, _, (hopen j _).mpr (Or.inl ⟨rfl, rfl⟩), rfl, hex⟩
    · rw [World.establish_mapSvr env j .connected _ (hother b s hs)]
      exact hreg.entry b s hs
    · show w.nextId ≤ _
      rw [hid]
      exact Nat.le_succ _

theorem addSvr_grown (env : Env) (key : Int) (a : Addr) {w : World} (hw : w.Tracked) :
    w.Grown (ProxyMgr.addSvr env key a w).2 := by
  have hkey : w.Grown (ProxyMgr.ensureKey env key w) ∧ (ProxyMgr.ensureKey env key w).Tracked := by
    unfold ProxyMgr.ensureKey
    split
    · exact ⟨(World.Grown.refl w).withProxy _, hw.withProxy _⟩
    · exact ⟨.refl w, hw⟩
  unfold ProxyMgr.addSvr
  dsimp only
  split
  · exact hkey.1
  · split
    · exact hkey.1
    · split
      · exact hkey.1
      next hex =>
        have hnone : (ProxyMgr.ensureKey env key w).mapSvr a = none := by
          simpa [SvrMgr.isSvrExist] using hex
        exact (hkey.1.trans (register_grown env hkey.2 hnone)).withProxy _

/-- **The first pass** opens connections to servers that were not registered. -/
theorem addRoutes_grown (env : Env) (t : ProxyMgr.Target) {w : World} (hw : w.Tracked) :
    w.Grown (ProxyMgr.addRoutes env t w) := by
  have hboth : w.Grown (ProxyMgr.addRoutes env t w) ∧ (ProxyMgr.addRoutes env t w).Tracked := by
    refine List.foldlRecOn (motive := fun w' => w.Grown w' ∧ w'.Tracked) _ _
      ⟨World.Grown.refl w, hw⟩ (fun w' hw' key _ => ?_)
    split
    · exact hw'
    · exact List.foldlRecOn (motive := fun w' => w.Grown w' ∧ w'.Tracked) _ _ hw'
        (fun w'' hw'' a _ => ⟨hw''.1.trans (addSvr_grown env key a hw''.2),
          World.Tracked.tableInvariant.addSvr env key a hw''.2⟩)
  exact hboth.1

/-! ## §4. Connects that are not tried. -/

/-- The two environments differ at most in the outcome of connects to servers in `S`. -/
structure Env.AgreesOff (S : Addr → Prop) (env env' : Env) : Prop where
  connect : ∀ a, ¬ S a → env'.connect a = env.connect a
  keyPlace : env'.keyPlace = env.keyPlace
  svrPlace : env'.svrPlace = env.svrPlace
  handlePlace : env'.handlePlace = env.handlePlace

theorem establish_congr {env env' : Env} (h : env'.handlePlace = env.handlePlace) (j : Int)
    (peer : Addr) (o : Origin) (w : World) :
    w.establish env' j peer o = w.establish env j peer o := by
  simp only [World.establish, ConnMgr.addConn, SvrMgr.addSvrConn, h]

/-- addSvr does not ask for a connection to a server that is registered. -/
theorem addSvr_congr {S : Addr → Prop} {env env' : Env} (he : Env.AgreesOff S env env')
    {w : World} (hw : ∀ a, S a → SvrMgr.isSvrExist a w = true) (key : Int) (a : Addr) :
    ProxyMgr.addSvr env' key a w = ProxyMgr.addSvr env key a w := by
  have hkey : ProxyMgr.ensureKey env' key w = ProxyMgr.ensureKey env key w := by
    simp only [ProxyMgr.ensureKey, he.keyPlace]
  have hexist : SvrMgr.isSvrExist a (ProxyMgr.ensureKey env key w) = SvrMgr.isSvrExist a w := by
    unfold ProxyMgr.ensureKey
    split <;> rfl
  unfold ProxyMgr.addSvr
  simp only [hkey, hexist, he.svrPlace]
  by_cases ha : S a
  · simp only [hw a ha, if_true]
  · have hconn : ∀ w', SvrMgr.connSvr env' a w' = SvrMgr.connSvr env a w' := by
      intro w'
      simp only [SvrMgr.connSvr, ConnMgr.connect, he.connect a ha,
        establish_congr he.handlePlace]
    simp only [hconn]

/-- Two folds agree when their steps do wherever an invariant holds. -/
theorem foldl_congr_of {α β : Type*} {f g : β → α → β} {P : β → Prop} (l : List α)
    (hP : ∀ b a, P b → P (f b a)) (hfg : ∀ b a, P b → g b a = f b a) :
    ∀ {b : β}, P b → l.foldl g b = l.foldl f b := by
  induction l with
  | nil => exact fun _ => rfl
  | cons a l ih =>
      intro b hb
      rw [List.foldl_cons, List.foldl_cons, hfg b a hb]
      exact ih (hP b a hb)

/-- **The update does not try** to connect to servers that are registered. -/
theorem updateProxy_congr {S : Addr → Prop} {env env' : Env} (he : Env.AgreesOff S env env')
    (t : ProxyMgr.Target) {w : World} (ht : w.Tracked)
    (hw : ∀ a, S a → SvrMgr.isSvrExist a w = true) :
    ProxyMgr.updateProxy env' t w = ProxyMgr.updateProxy env t w := by
  have hstep : ∀ (key : Int) (w' : World) (a : Addr),
      w'.Tracked ∧ (∀ a, S a → SvrMgr.isSvrExist a w' = true) →
      (ProxyMgr.addSvr env key a w').2.Tracked
        ∧ ∀ b, S b → SvrMgr.isSvrExist b (ProxyMgr.addSvr env key a w').2 = true := by
    intro key w' a hw'
    refine ⟨World.Tracked.tableInvariant.addSvr env key a hw'.1, fun b hb => ?_⟩
    -- a registered server stays registered
    by_contra hno
    have hold := (addSvr_grown env key a hw'.1).exist (by simpa using hno)
    rw [hw'.2 b hb] at hold
    exact absurd hold (by simp)
  have hroutes : ProxyMgr.addRoutes env' t w = ProxyMgr.addRoutes env t w := by
    refine foldl_congr_of (P := fun w' => w'.Tracked ∧ ∀ a, S a → SvrMgr.isSvrExist a w' = true)
      t.keys.elems (fun w' key hw' => ?_) (fun w' key hw' => ?_) ⟨ht, hw⟩
    · split
      · exact hw'
      · exact List.foldlRecOn
          (motive := fun w' => w'.Tracked ∧ ∀ a, S a → SvrMgr.isSvrExist a w' = true)
          _ _ hw' (fun w'' hw'' a _ => hstep key w'' a hw'')
    · cases t.find key with
      | none => rfl
      | some svrs =>
          exact foldl_congr_of _ (fun w'' a hw'' => hstep key w'' a hw'')
            (fun w'' a hw'' => by rw [addSvr_congr he hw''.2 key a]) hw'
  unfold ProxyMgr.updateProxy
  rw [hroutes]

/-! ## §5. updateProxy. -/

/-- The server is under a key, and the target does not have it under that key. -/
def World.Removed (w : World) (t : ProxyMgr.Target) (a : Addr) : Prop :=
  ∃ key p, w.mapProxy.find key = some p ∧ a ∈ p.servers
    ∧ ∀ svrs, t.find key = some svrs → a ∉ svrs

/-- The server is under a key, and the target has it under the same key. -/
def World.Stays (w : World) (t : ProxyMgr.Target) (a : Addr) : Prop :=
  ∃ key p svrs, w.mapProxy.find key = some p ∧ a ∈ p.servers ∧ t.find key = some svrs ∧ a ∈ svrs

/-- What an update disturbs. -/
structure World.DisturbsOnlyRemoved (w : World) (env : Env) (t : ProxyMgr.Target) : Prop where
  /-- Of the connections that were open, those listed by removed servers are closed. -/
  closed : ∀ h c, w.fds h = some c → ((ProxyMgr.updateProxy env t w).fds h ≠ some c
    ↔ ∃ a s, w.Removed t a ∧ w.mapSvr a = some s ∧ h ∈ s.handles)
  /-- Those that the update opens stay open. -/
  opened : ∀ i, w.nextId ≤ i → i < (ProxyMgr.updateProxy env t w).nextId →
    ∃ h c, (ProxyMgr.updateProxy env t w).fds h = some c ∧ c.id = i
  entry : ∀ a, w.Stays t a → (ProxyMgr.updateProxy env t w).mapSvr a = w.mapSvr a
  /-- No connection to a server that stays is opened, -/
  noneNew : ∀ a h c, w.Stays t a → (ProxyMgr.updateProxy env t w).fds h = some c →
    c.peer = a → w.fds h = some c
  /-- nor asked for: the outcomes of connects to them make no difference. -/
  notTried : ∀ env', Env.AgreesOff (w.Stays t) env env' →
    ProxyMgr.updateProxy env' t w = ProxyMgr.updateProxy env t w
  clients : ∀ h c, w.mConn h = some c → c.origin = .accepted → ¬ w.Removed t c.peer →
    (ProxyMgr.updateProxy env t w).mConn h = some c

namespace World

theorem Routes.removed_iff {w : World} {r : Assignment Int Addr} (h : w.Routes r)
    (t : ProxyMgr.Target) (a : Addr) :
    w.Removed t a ↔ ∃ key, r a = some key ∧ (key, a) ∉ ProxyMgr.pairs t := by
  constructor
  · rintro ⟨key, p, hp, hm, hno⟩
    refine ⟨key, (h.mem_servers hp a).mp hm, fun hin => ?_⟩
    obtain ⟨svrs, hs, ha⟩ := ProxyMgr.mem_pairs.mp hin
    exact hno svrs hs ha
  · rintro ⟨key, hr, hno⟩
    obtain ⟨p, hp, hm⟩ := (h.serves key a).mpr hr
    exact ⟨key, p, hp, hm, fun svrs hs ha => hno (ProxyMgr.mem_pairs.mpr ⟨svrs, hs, ha⟩)⟩

/-- A server that stays is not removed, since no server is under two keys. -/
theorem Routes.not_removed {w : World} {r : Assignment Int Addr} (h : w.Routes r)
    {t : ProxyMgr.Target} {a : Addr} (ha : w.Stays t a) : ¬ w.Removed t a := by
  obtain ⟨key, p, svrs, hp, hm, hs, hin⟩ := ha
  rw [h.removed_iff]
  rintro ⟨key', hr, hno⟩
  obtain rfl : key = key' := Option.some.inj (((h.mem_servers hp a).mp hm).symm.trans hr)
  exact hno (ProxyMgr.mem_pairs.mpr ⟨svrs, hs, hin⟩)

theorem Routes.registered {w : World} {r : Assignment Int Addr} (h : w.Routes r) {a : Addr}
    {key : Int} (ha : r a = some key) : ∃ s, w.mapSvr a = some s := by
  have hex := h.exist a
  rw [ha] at hex
  exact Option.isSome_iff_exists.mp hex

/-- **updateProxy** is the opening of connections to new servers, followed by the dropping
of the removed ones. -/
theorem Routes.updateProxy_spec {w : World} {r : Assignment Int Addr} (h : w.Routes r)
    (hl : w.ListedExcept none) (hw : w.Tracked) (env : Env) (t : ProxyMgr.Target) :
    w.Grown (ProxyMgr.addRoutes env t w)
      ∧ (ProxyMgr.addRoutes env t w).Dropped (w.Removed t) (ProxyMgr.updateProxy env t w) := by
  obtain ⟨h', hl'⟩ := h.addRoutes hl env t
  have hw' := World.Tracked.tableInvariant.addRoutes env t hw
  refine ⟨addRoutes_grown env t hw, ?_⟩
  refine (pruneKeys_dropped t (ProxyMgr.addRoutes env t w).mapProxy.keys.elems hw' h' hl').congr
    (fun a => ?_)
  rw [h.removed_iff]
  constructor
  · rintro ⟨key, -, ha, hno⟩
    refine ⟨key, ?_, hno⟩
    -- what the first pass assigns, the target has
    cases hr : r a with
    | none => exact absurd (mem_of_assignAll _ hr ha) hno
    | some k => exact (assignAll_of_owned _ hr).symm.trans ha
  · rintro ⟨key, hr, hno⟩
    have ha := assignAll_of_owned (ProxyMgr.pairs t) hr
    obtain ⟨p, hp, -⟩ := (h'.serves key a).mpr ha
    exact ⟨key, UnorderedMap.mem_keys_of_find hp, ha, hno⟩

theorem Routes.removed_exist {w : World} {r : Assignment Int Addr} (h : w.Routes r)
    {t : ProxyMgr.Target} {a : Addr} (ha : w.Removed t a) : SvrMgr.isSvrExist a w = true := by
  obtain ⟨key, hr, -⟩ := (h.removed_iff t a).mp ha
  rw [h.exist a, hr]
  rfl

theorem Routes.stays_exist {w : World} {r : Assignment Int Addr} (h : w.Routes r)
    {t : ProxyMgr.Target} {a : Addr} (ha : w.Stays t a) : SvrMgr.isSvrExist a w = true := by
  obtain ⟨key, p, svrs, hp, hm, -⟩ := ha
  rw [h.exist a, (h.mem_servers hp a).mp hm]
  rfl

/-- A server that was registered lists the same handles after the first pass. -/
theorem Grown.lists {w w' : World} (hg : w.Grown w') {a : Addr}
    (hex : SvrMgr.isSvrExist a w = true) (j : Int) : w'.Lists a j ↔ w.Lists a j := by
  obtain ⟨s, hs⟩ := Option.isSome_iff_exists.mp hex
  unfold World.Lists
  rw [hg.entry a s hs, hs]

/-- The connections closed are those that the dropped servers listed. -/
theorem Grown.closed_iff {w w₁ w₂ : World} {S : Addr → Prop} (hg : w.Grown w₁)
    (hd : w₁.Dropped S w₂) (hS : ∀ a, S a → SvrMgr.isSvrExist a w = true) {j : Int}
    {c : DASvcHandler} (hc : w.fds j = some c) :
    w₂.fds j ≠ some c ↔ ∃ a s, S a ∧ w.mapSvr a = some s ∧ j ∈ s.handles := by
  rw [ne_eq, hd.fds j c]
  constructor
  · intro hno
    by_contra hnone
    refine hno ⟨hg.kept j c hc, ?_⟩
    intro hdropped
    obtain ⟨a, ha, hlist⟩ := hdropped
    obtain ⟨s, hs, hj⟩ := (hg.lists (hS a ha) j).mp hlist
    exact hnone ⟨a, s, ha, hs, hj⟩
  · intro hlisted hopen
    obtain ⟨a, s, ha, hs, hj⟩ := hlisted
    exact hopen.2 ⟨a, ha, (hg.lists (hS a ha) j).mpr ⟨s, hs, hj⟩⟩

/-- What the first pass opens stays open: it is connected to servers that were not
registered, and the dropped ones were. -/
theorem Grown.opened_stays {w w₁ w₂ : World} {S : Addr → Prop} (hg : w.Grown w₁)
    (hd : w₁.Dropped S w₂) (hw₁ : w₁.Tracked)
    (hS : ∀ a, S a → SvrMgr.isSvrExist a w = true) {i : Nat} (hi : w.nextId ≤ i)
    (hlt : i < w₂.nextId) : ∃ j c, w₂.fds j = some c ∧ c.id = i := by
  rw [hd.nextId] at hlt
  obtain ⟨j, c, hc, hid, hex⟩ := hg.allOpen i hi hlt
  refine ⟨j, c, (hd.fds j c).mpr ⟨hc, ?_⟩, hid⟩
  intro hdropped
  obtain ⟨a, ha, hlist⟩ := hdropped
  obtain ⟨d, hd', hp⟩ := hw₁.listed a j hlist
  obtain rfl : c = d := Option.some.inj (hc.symm.trans hd')
  rw [hp, hS a ha] at hex
  exact absurd hex (by simp)

/-- A server lists connections to itself only, so a connection to a server that is not
dropped stays. -/
theorem Grown.peer_stays {w w₁ w₂ : World} {S : Addr → Prop} (hg : w.Grown w₁)
    (hd : w₁.Dropped S w₂) (hw : w.Tracked) (hS : ∀ a, S a → SvrMgr.isSvrExist a w = true)
    {j : Int} {c : DASvcHandler} (hc : w.fds j = some c) (hpeer : ¬ S c.peer) :
    w₂.fds j = some c := by
  by_contra hno
  obtain ⟨a, s, ha, hs, hj⟩ := (hg.closed_iff hd hS hc).mp hno
  obtain ⟨d, hd', hp⟩ := hw.listed a j ⟨s, hs, hj⟩
  obtain rfl : c = d := Option.some.inj (hc.symm.trans hd')
  exact hpeer (hp ▸ ha)

end World

/-- **An update disturbs only the servers that it removes**, in every reachable state, for
every target and whatever the connects do. -/
theorem updateProxy_disturbs {ops : List Op} {w : World}
    (hrun : replay World.step World.start ops = some w) (env : Env) (t : ProxyMgr.Target) :
    w.DisturbsOnlyRemoved env t := by
  obtain ⟨r, h, hl⟩ := World.Routed.of_run hrun
  have hw := World.Tracked.of_run hrun
  obtain ⟨hgrown, hdrop⟩ := h.updateProxy_spec hl hw env t
  have hmid : (ProxyMgr.addRoutes env t w).Tracked :=
    World.Tracked.tableInvariant.addRoutes env t hw
  have hend : (ProxyMgr.updateProxy env t w).Tracked :=
    World.Tracked.tableInvariant.updateProxy env t hw
  have hremoved : ∀ a, w.Removed t a → SvrMgr.isSvrExist a w = true := fun a => h.removed_exist
  have hstays : ∀ a, w.Stays t a → SvrMgr.isSvrExist a w = true := fun a => h.stays_exist
  constructor
  case closed => exact fun j c hc => hgrown.closed_iff hdrop hremoved hc
  case opened => exact fun i hi hlt => hgrown.opened_stays hdrop hmid hremoved hi hlt
  case entry =>
    intro a ha
    obtain ⟨s, hs⟩ := Option.isSome_iff_exists.mp (hstays a ha)
    rw [hdrop.others a (h.not_removed ha), hgrown.entry a s hs, hs]
  case noneNew =>
    intro a j c ha hc hp
    rcases hgrown.opened j c ((hdrop.fds j c).mp hc).1 with hold | ⟨-, hex⟩
    · exact hold
    · rw [hp, hstays a ha] at hex
      exact absurd hex (by simp)
  case notTried => exact fun env' he => updateProxy_congr he t hw hstays
  case clients =>
    intro j c hc _ hpeer
    rw [hw.recorded] at hc
    rw [hend.recorded]
    exact hgrown.peer_stays hdrop hw hremoved hc hpeer

/-- An update that removes one server, keeps another and brings a third. -/
theorem updateProxy_disturbs_one :
    ∃ w, replay World.step World.start
        [.addSvr .dial 1 (10, 80), .addSvr .dial 1 (11, 80), .accept .dial 7 (12, 5000)] = some w
      ∧ w.DisturbsOnlyRemoved .dial
          (UnorderedMap.empty.insert .front 1
            ((UnorderedSet.empty.insert .front (11, 80)).insert .front (13, 80))) :=
  ⟨_, rfl, @updateProxy_disturbs
    [.addSvr .dial 1 (10, 80), .addSvr .dial 1 (11, 80), .accept .dial 7 (12, 5000)] _ rfl .dial _⟩

end TcpFramework
