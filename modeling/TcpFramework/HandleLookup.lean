/-
  TcpFramework.HandleLookup — handles that are looked up and then used.

  onDispatch looks a handle up, asks isExist, and writes; closeSvr copies the handles of a
  server and closes them one by one.  No lock is held from the lookup to the use, and only
  the number of the descriptor is carried across: a connection that closes on the way and
  an accept that gets its descriptor turn the use on somebody else.

  `looked_up_handles_iff` says that such a takeover is the only way to go wrong, and that
  every takeover goes wrong under some continuation of the threads.
-/
import TcpFramework.RoutingTables

namespace TcpFramework

open StepSystem

/-! ## §1. What getSvrConn and getConn return. -/

namespace ProxyMgr

open World

/-- The loop of getSvrConn touches no connection, and what it has in hand is -1 or a handle
of a server of the key. -/
theorem getSvrConnLoop_handle {r : Assignment Int Addr} (key : Int) (n : Nat) :
    ∀ (handle : Int) {w : World}, w.Tracked → w.Routes r → w.ListedExcept none →
      (handle ≠ -1 → ∃ a, r a = some key ∧ w.Lists a handle) →
      (getSvrConnLoop key n handle w).2.fds = w.fds
      ∧ ((getSvrConnLoop key n handle w).1 ≠ -1 →
          ∃ a, r a = some key ∧ w.Lists a (getSvrConnLoop key n handle w).1) := by
  induction n with
  | zero => exact fun _ _ _ _ _ hh => ⟨rfl, hh⟩
  | succ n ih =>
      intro handle w ht h hl hh
      unfold getSvrConnLoop
      cases hp : w.mapProxy.find key with
      | none => exact ⟨rfl, hh⟩
      | some p =>
          dsimp only
          cases ha : p.serverList[(p.dwPos + 1).toNat % p.serverList.length]? with
          | none => exact ⟨rfl, hh⟩
          | some a =>
              have hget := SvrMgr.getConn_edits a (nextPos key w)
              have ht' : (nextPos key w).Tracked := ht.withProxy _
              -- the vector has servers of the key only
              have hserver : r a = some key :=
                (h.mem_servers hp a).mp (((hl key p (by simp) hp).2 a).mp (List.mem_of_getElem? ha))
              have hlists : ∀ b j, (SvrMgr.getConn a (nextPos key w)).2.Lists b j ↔ w.Lists b j :=
                fun b j => SvrMgr.lists_getConn a b (nextPos key w) j
              obtain ⟨hfds, hret⟩ := ih (SvrMgr.getConn a (nextPos key w)).1 (ht'.getConn a)
                ((h.nextPos key).same hget.sameRoutes) ((hl.nextPos key).same hget.sameRoutes)
                (fun hne => ⟨a, hserver,
                  (hlists a _).mpr (SvrMgr.getConn_handle ht'.shadow hne)⟩)
              refine ⟨hfds.trans hget.onlySvr.fds, fun hne => ?_⟩
              obtain ⟨b, hb, hlist⟩ := hret hne
              exact ⟨b, hb, (hlists b _).mp hlist⟩

/-- `getSvrConn` returns -1 or a handle of a server of the key. -/
theorem getSvrConn_handle {r : Assignment Int Addr} {w : World} (ht : w.Tracked)
    (h : w.Routes r) (hl : w.ListedExcept none) (key : Int) :
    (getSvrConn key w).2.fds = w.fds
      ∧ ((getSvrConn key w).1 ≠ -1 →
          ∃ a, r a = some key ∧ w.Lists a (getSvrConn key w).1) := by
  unfold getSvrConn
  cases w.mapProxy.find key with
  | none => exact ⟨rfl, fun hne => absurd rfl hne⟩
  | some p => exact getSvrConnLoop_handle key _ (-1) ht h hl (fun hne => absurd rfl hne)

end ProxyMgr

/-! ## §2. The threads. -/

/-- What onDispatch was called with. -/
inductive Request where
  | route (key : Int)
  | server (a : Addr)

/-- The peers that the request may be sent to. -/
def Request.Peer (w : World) : Request → Addr → Prop
  | .route key, a => w.Serves key a
  | .server b, a => a = b

/-- Where a thread stands. -/
inductive LookupPc where
  | idle
  /-- onDispatch has a handle and calls isExist next. -/
  | looked (req : Request) (handle : Int)
  /-- onDispatch calls ConnMgr::write next. -/
  | writing (req : Request) (handle : Int)
  /-- closeSvr has these handles of the server left to close. -/
  | closing (a : Addr) (handles : List Int)

/-- The managers and the threads that call them. -/
structure Lookup where
  world : World
  thread : Nat → LookupPc

/-- The atomic steps. -/
inductive LookupStep where
  | accept (env : Env) (handle : Int) (peer : Addr)
  | closed (handle : Int)
  | lookup (t : Nat) (req : Request)
  | isExist (t : Nat)
  | write (t : Nat)
  | copy (t : Nat) (a : Addr)
  | close (t : Nat)

/-- The lookup that onDispatch starts with. -/
def Request.find (w : World) : Request → Int × World
  | .route key => ProxyMgr.getSvrConn key w
  | .server a => SvrMgr.getConn a w

/-- Thread `t` moves on, with the managers in `w`. -/
def Lookup.moved (s : Lookup) (w : World) (t : Nat) (pc : LookupPc) : Lookup :=
  ⟨w, Function.update s.thread t pc⟩

theorem Lookup.moved_self (s : Lookup) (w : World) (t : Nat) (pc : LookupPc) :
    (s.moved w t pc).thread t = pc := by
  simp [moved]

theorem Lookup.moved_other (s : Lookup) (w : World) {t u : Nat} (pc : LookupPc) (hu : u ≠ t) :
    (s.moved w t pc).thread u = s.thread u := by
  simp [moved, hu]

/-- One atomic step; `none` when the thread is not there. -/
def Lookup.step (s : Lookup) : LookupStep → Option Lookup
  | .accept env handle peer =>
      if 0 ≤ handle ∧ s.world.fds handle = none then
        some { s with world := s.world.establish env handle peer .accepted }
      else none
  | .closed handle =>
      match s.world.fds handle with
      | none => none
      | some svc => some { s with world := svc.handleClose s.world }
  | .lookup t req =>
      match s.thread t with
      | .idle =>
          if (req.find s.world).1 = -1 then some (s.moved (req.find s.world).2 t .idle)
          else some (s.moved (req.find s.world).2 t (.looked req (req.find s.world).1))
      | _ => none
  | .isExist t =>
      match s.thread t with
      | .looked req handle =>
          some (s.moved s.world t
            (if ConnMgr.isExist handle s.world then .writing req handle else .idle))
      | _ => none
  | .write t =>
      match s.thread t with
      | .writing _ _ => some (s.moved s.world t .idle)
      | _ => none
  | .copy t a =>
      match s.thread t with
      | .idle =>
          match s.world.mapSvr a with
          | none => some (s.moved s.world t (.closing a []))
          | some svr => some (s.moved s.world t (.closing a svr.handles.elems))
      | _ => none
  | .close t =>
      match s.thread t with
      | .closing _ [] => some (s.moved s.world t .idle)
      | .closing a (handle :: rest) =>
          some (s.moved (ConnMgr.close handle s.world).2 t (.closing a rest))
      | _ => none

/-! ## §3. The property. -/

/-- A message that onDispatch is about to queue goes to a peer of the request, and the
connection that closeSvr is about to close has the given server as its peer. -/
structure Lookup.Right (s : Lookup) : Prop where
  write : ∀ t req handle c, s.thread t = .writing req handle →
    ConnMgr.write handle s.world = some c → req.Peer s.world c.peer
  close : ∀ t a handle rest c, s.thread t = .closing a (handle :: rest) →
    s.world.mConn handle = some c → c.peer = a

/-- The step is no accept. -/
def LookupStep.noAccept : LookupStep → Prop
  | .accept _ _ _ => False
  | _ => True

/-- However the threads go on from here, without another accept, all is right. -/
def Lookup.Safe (s : Lookup) : Prop :=
  Henceforth Lookup.step LookupStep.noAccept Lookup.Right s

/-- The handles that a thread carries, and the peers it carries them for. -/
def LookupPc.Carries : LookupPc → Int → Prop
  | .idle, _ => False
  | .looked _ handle, h => h = handle
  | .writing _ handle, h => h = handle
  | .closing _ handles, h => h ∈ handles

def LookupPc.Wants (w : World) : LookupPc → Addr → Prop
  | .idle, _ => False
  | .looked req _, a => req.Peer w a
  | .writing req _, a => req.Peer w a
  | .closing b _, a => a = b

/-- The condition on a step: an accept does not give a free descriptor that a thread
carries to a connection with a peer that the thread does not want. -/
def LookupStep.noTakeover (s : Lookup) : LookupStep → Prop
  | .accept _ handle peer => 0 ≤ handle → s.world.fds handle = none →
      ∀ t, (s.thread t).Carries handle → (s.thread t).Wants s.world peer
  | _ => True

/-- The invariant: the tables are consistent with the routing `r`, and what a thread
carries is free or connected to a peer that it wants. -/
structure Lookup.Inv (r : Assignment Int Addr) (s : Lookup) : Prop where
  tracked : s.world.Tracked
  routes : s.world.Routes r
  listed : s.world.ListedExcept none
  carried : ∀ t h c, (s.thread t).Carries h → s.world.fds h = some c →
    (s.thread t).Wants s.world c.peer

/-- Two worlds with the same routing give a thread the same peers. -/
theorem LookupPc.wants_congr {w w' : World} {r : Assignment Int Addr} (h : w.Routes r)
    (h' : w'.Routes r) (pc : LookupPc) (a : Addr) : pc.Wants w' a ↔ pc.Wants w a := by
  have hserves : ∀ key b, w'.Serves key b ↔ w.Serves key b :=
    fun key b => (h'.serves key b).trans (h.serves key b).symm
  cases pc with
  | idle => exact Iff.rfl
  | closing b handles => exact Iff.rfl
  | looked req handle =>
      cases req with
      | route key => exact hserves key a
      | server b => exact Iff.rfl
  | writing req handle =>
      cases req with
      | route key => exact hserves key a
      | server b => exact Iff.rfl

theorem Lookup.Inv.right {r : Assignment Int Addr} {s : Lookup} (hs : s.Inv r) : s.Right where
  write := by
    intro t req handle c ht hc
    have hw := hs.carried t handle c (by rw [ht]; exact rfl)
      (by rw [← hs.tracked.recorded]; exact hc)
    rwa [ht] at hw
  close := by
    intro t a handle rest c ht hc
    have hw := hs.carried t handle c (by rw [ht]; exact List.mem_cons_self)
      (by rw [← hs.tracked.recorded]; exact hc)
    rwa [ht] at hw

/-! ## §4. One step. -/

/-- A change of the managers that opens nothing. -/
theorem Lookup.Inv.inWorld {r : Assignment Int Addr} {s : Lookup} (hs : s.Inv r) {w : World}
    (ht : w.Tracked) (hr : w.Routes r) (hl : w.ListedExcept none)
    (hf : ∀ h c, w.fds h = some c → s.world.fds h = some c) :
    Lookup.Inv r { s with world := w } where
  tracked := ht
  routes := hr
  listed := hl
  carried := fun t h c hcar hc =>
    (LookupPc.wants_congr hs.routes hr _ _).mpr (hs.carried t h c hcar (hf h c hc))

/-- A thread that moves to a point where it carries what it wants. -/
theorem Lookup.Inv.moved {r : Assignment Int Addr} {s : Lookup} (hs : s.Inv r) (t : Nat)
    {pc : LookupPc}
    (hpc : ∀ h c, pc.Carries h → s.world.fds h = some c → pc.Wants s.world c.peer) :
    (s.moved s.world t pc).Inv r where
  tracked := hs.tracked
  routes := hs.routes
  listed := hs.listed
  carried := by
    intro u h c hcar hc
    by_cases hu : u = t
    · subst hu
      rw [Lookup.moved_self] at hcar ⊢
      exact hpc h c hcar hc
    · rw [Lookup.moved_other s s.world pc hu] at hcar ⊢
      exact hs.carried u h c hcar hc

/-- `close` leaves the other descriptors alone, and opens nothing. -/
theorem World.Tracked.close_fds {w : World} (hw : w.Tracked) (g : Int) :
    (∀ h, h ≠ g → (ConnMgr.close g w).2.fds h = w.fds h)
      ∧ ∀ h c, (ConnMgr.close g w).2.fds h = some c → w.fds h = some c := by
  rcases hw.close_cases g with ⟨-, he⟩ | ⟨d, hd, hopen, he⟩
  · rw [he]
    exact ⟨fun _ _ => rfl, fun _ _ hc => hc⟩
  · have hpos := (hw.own _ d hopen).2.1
    rw [he]
    refine ⟨fun h hne => ?_, fun h c hc => ((DASvcHandler.handleClose_open hpos).mp hc).2⟩
    rw [(DASvcHandler.handleClose_onlySvr w hpos).fds, hd]
    exact Function.update_of_ne hne _ w.fds

/-- A lookup leaves the connections alone, and returns -1 or a handle of a wanted peer. -/
theorem Request.find_spec {r : Assignment Int Addr} {w : World} (ht : w.Tracked)
    (hr : w.Routes r) (hl : w.ListedExcept none) (req : Request) :
    (req.find w).2.Tracked ∧ (req.find w).2.Routes r ∧ (req.find w).2.ListedExcept none
      ∧ (req.find w).2.fds = w.fds
      ∧ ((req.find w).1 ≠ -1 → ∃ a, req.Peer w a ∧ w.Lists a (req.find w).1) := by
  cases req with
  | route key =>
      obtain ⟨hr', hl'⟩ := hr.getSvrConn hl key
      obtain ⟨hfds, hret⟩ := ProxyMgr.getSvrConn_handle ht hr hl key
      refine ⟨World.Tracked.tableInvariant.getSvrConn key ht, hr', hl', hfds, ?_⟩
      intro hne
      obtain ⟨a, ha, hlist⟩ := hret hne
      exact ⟨a, (hr.serves key a).mpr ha, hlist⟩
  | server a =>
      have hget := SvrMgr.getConn_edits a w
      refine ⟨ht.getConn a, hr.same hget.sameRoutes, hl.same hget.sameRoutes, hget.onlySvr.fds, ?_⟩
      intro hne
      exact ⟨a, rfl, SvrMgr.getConn_handle ht.shadow hne⟩

namespace Lookup.Inv

variable {r : Assignment Int Addr} {s : Lookup}

/-- An accept on a free descriptor, to a peer that whoever carries the descriptor wants. -/
theorem accept (hs : s.Inv r) (env : Env) {handle : Int} {peer : Addr} (hpos : 0 ≤ handle)
    (hfree : s.world.fds handle = none)
    (hok : ∀ t, (s.thread t).Carries handle → (s.thread t).Wants s.world peer) :
    Lookup.Inv r { s with world := s.world.establish env handle peer .accepted } := by
  have hm : s.world.mConn handle = none := by rw [hs.tracked.recorded, hfree]
  have hsame := World.establish_sameRoutes env handle peer .accepted s.world
  refine ⟨hs.tracked.establish env peer .accepted hpos hfree, hs.routes.same hsame,
    hs.listed.same hsame, ?_⟩
  intro t h c hcar hc
  rw [LookupPc.wants_congr hs.routes (hs.routes.same hsame)]
  rcases (World.establish_open hm).mp hc with ⟨rfl, rfl⟩ | ⟨-, hold⟩
  · -- the new connection
    show (s.thread t).Wants s.world peer
    exact hok t hcar
  · exact hs.carried t h c hcar hold

/-- A connection closes. -/
theorem closed (hs : s.Inv r) {svc : DASvcHandler} (hc : s.world.fds svc.handle = some svc) :
    Lookup.Inv r { s with world := svc.handleClose s.world } := by
  have hpos : 0 ≤ svc.handle := (hs.tracked.own svc.handle svc hc).2.1
  have hsame := DASvcHandler.handleClose_sameRoutes svc s.world
  apply hs.inWorld (hs.tracked.handleClose hc) (hs.routes.same hsame) (hs.listed.same hsame)
  exact fun h c hopen => ((DASvcHandler.handleClose_open hpos).mp hopen).2

/-- onDispatch looks a handle up. -/
theorem lookup (hs : s.Inv r) (t : Nat) (req : Request) :
    Lookup.Inv r (if (req.find s.world).1 = -1 then s.moved (req.find s.world).2 t .idle
      else s.moved (req.find s.world).2 t (.looked req (req.find s.world).1)) := by
  obtain ⟨ht, hr, hl, hfds, hret⟩ := req.find_spec hs.tracked hs.routes hs.listed
  have hworld := hs.inWorld ht hr hl (fun h c hc => by rwa [hfds] at hc)
  split
  · exact hworld.moved t (fun _ _ hcar => absurd hcar (fun h => h))
  next hne =>
    apply hworld.moved t
    intro h c hcar hc
    obtain ⟨a, ha, hlist⟩ := hret hne
    obtain ⟨d, hd, hp⟩ := hs.tracked.listed a _ hlist
    have hcar' : h = (req.find s.world).1 := hcar
    have hcd : c = d := by
      have hc' : s.world.fds h = some c := by rwa [← hfds]
      rw [hcar', hd] at hc'
      exact (Option.some.inj hc').symm
    show (LookupPc.looked req (req.find s.world).1).Wants (req.find s.world).2 c.peer
    rw [LookupPc.wants_congr hs.routes hr, hcd, hp]
    exact ha

/-- closeSvr copies the handles of a server: what it lists is connected to it. -/
theorem copy (hs : s.Inv r) (t : Nat) {a : Addr} {svr : SServer}
    (hsvr : s.world.mapSvr a = some svr) :
    (s.moved s.world t (.closing a svr.handles.elems)).Inv r := by
  apply hs.moved t
  intro h c hcar hc
  obtain ⟨d, hd, hp⟩ := hs.tracked.listed a h ⟨svr, hsvr, hcar⟩
  obtain rfl : c = d := Option.some.inj (hc.symm.trans hd)
  show c.peer = a
  exact hp

/-- closeSvr closes the next of its handles. -/
theorem close (hs : s.Inv r) {t : Nat} {a : Addr} {handle : Int} {rest : List Int}
    (ht : s.thread t = .closing a (handle :: rest)) :
    (s.moved (ConnMgr.close handle s.world).2 t (.closing a rest)).Inv r := by
  have hsame := ConnMgr.close_sameRoutes handle s.world
  have hworld := hs.inWorld (hs.tracked.close handle) (hs.routes.same hsame)
    (hs.listed.same hsame) (hs.tracked.close_fds handle).2
  apply hworld.moved t
  intro h c hcar hc
  have hw := hs.carried t h c (by rw [ht]; exact List.mem_cons_of_mem handle hcar)
    ((hs.tracked.close_fds handle).2 h c hc)
  rwa [ht] at hw

end Lookup.Inv

/-- **One step** keeps the invariant under the condition. -/
theorem Lookup.step_inv {r : Assignment Int Addr} (s : Lookup) (a : LookupStep) (s' : Lookup)
    (hok : a.noTakeover s) (hs : s.Inv r) (hstep : s.step a = some s') : s'.Inv r := by
  cases a with
  | accept env handle peer =>
      simp only [Lookup.step] at hstep
      split at hstep
      next hfree =>
        obtain rfl := Option.some.inj hstep
        exact hs.accept env hfree.1 hfree.2 (hok hfree.1 hfree.2)
      next => exact absurd hstep (by simp)
  | closed handle =>
      simp only [Lookup.step] at hstep
      cases hc : s.world.fds handle with
      | none => simp [hc] at hstep
      | some svc =>
          simp only [hc, Option.some.injEq] at hstep
          subst hstep
          obtain ⟨rfl, -, -⟩ := hs.tracked.own handle svc hc
          exact hs.closed hc
  | lookup t req =>
      simp only [Lookup.step] at hstep
      split at hstep
      next =>
        have hlook := hs.lookup t req
        split at hstep
        next hno =>
          obtain rfl := Option.some.inj hstep
          rwa [if_pos hno] at hlook
        next hno =>
          obtain rfl := Option.some.inj hstep
          rwa [if_neg hno] at hlook
      next => exact absurd hstep (by simp)
  | isExist t =>
      simp only [Lookup.step] at hstep
      split at hstep
      next req handle ht =>
        obtain rfl := Option.some.inj hstep
        apply hs.moved t
        intro h c hcar hc
        split at hcar
        next hex =>
          rw [if_pos hex]
          have hw := hs.carried t h c (by rw [ht]; exact hcar) hc
          rwa [ht] at hw
        next => exact absurd hcar (fun h => h)
      next => exact absurd hstep (by simp)
  | write t =>
      simp only [Lookup.step] at hstep
      split at hstep
      next =>
        obtain rfl := Option.some.inj hstep
        exact hs.moved t (fun _ _ hcar => absurd hcar (fun h => h))
      next => exact absurd hstep (by simp)
  | copy t a =>
      simp only [Lookup.step] at hstep
      split at hstep
      next =>
        split at hstep
        · obtain rfl := Option.some.inj hstep
          exact hs.moved t (fun _ _ hcar => absurd hcar List.not_mem_nil)
        next svr hsvr =>
          obtain rfl := Option.some.inj hstep
          exact hs.copy t hsvr
      next => exact absurd hstep (by simp)
  | close t =>
      simp only [Lookup.step] at hstep
      split at hstep
      next =>
        obtain rfl := Option.some.inj hstep
        exact hs.moved t (fun _ _ hcar => absurd hcar (fun h => h))
      next a handle rest ht =>
        obtain rfl := Option.some.inj hstep
        exact hs.close ht
      next => exact absurd hstep (by simp)

/-! ## §5. Runs. -/

/-- Without an accept nothing can go wrong from a state that meets the invariant. -/
theorem Lookup.Inv.safe {r : Assignment Int Addr} {s : Lookup} (hs : s.Inv r) : s.Safe := by
  apply Henceforth.of_inv Lookup.step_inv (fun _ h => h.right) _ hs
  intro s a ha
  cases a with
  | accept env handle peer => exact absurd ha (fun h => h)
  | _ => trivial

/-- A closeSvr that has a handle of somebody else among those left to close will close it. -/
theorem closing_goes_wrong {a : Addr} {h : Int} {c : DASvcHandler} {t : Nat} (hne : c.peer ≠ a)
    (hs : List Int) :
    ∀ s : Lookup, s.world.Tracked → s.thread t = .closing a hs → h ∈ hs →
      s.world.fds h = some c → ¬ s.Safe := by
  induction hs with
  | nil => exact fun _ _ _ hm => absurd hm List.not_mem_nil
  | cons g rest ih =>
      intro s htr ht hm hc hsafe
      by_cases hg : h = g
      · -- it is the next one
        subst hg
        exact hne (hsafe.now.close t a h rest c ht (by rw [htr.recorded, hc]))
      · -- the handles before it are closed first
        have hrest : h ∈ rest := (List.mem_cons.mp hm).resolve_left hg
        have hstep : s.step (.close t)
            = some (s.moved (ConnMgr.close g s.world).2 t (.closing a rest)) := by
          simp [Lookup.step, ht]
        have hopen : (ConnMgr.close g s.world).2.fds h = some c := by
          rw [(htr.close_fds g).1 h hg, hc]
        exact ih _ (htr.close g) (Lookup.moved_self s _ t _) hrest hopen
          (hsafe.next (show LookupStep.noAccept (.close t) from trivial) hstep)

/-- **Every takeover goes wrong** under some continuation. -/
theorem takeover_unsafe {r : Assignment Int Addr} (s : Lookup) (a : LookupStep) (hs : s.Inv r)
    (hbad : ¬ a.noTakeover s) : ∃ s', s.step a = some s' ∧ ¬ s'.Safe := by
  cases a with
  | accept env handle peer =>
      simp only [LookupStep.noTakeover, not_forall] at hbad
      obtain ⟨hpos, hfree, t, hcar, hwant⟩ := hbad
      have hm : s.world.mConn handle = none := by rw [hs.tracked.recorded, hfree]
      have htr := hs.tracked.establish env peer .accepted hpos hfree
      have hsame := World.establish_sameRoutes env handle peer .accepted s.world
      -- the new connection has the descriptor, and the thread does not want its peer
      have hnew : (s.world.establish env handle peer .accepted).fds handle
          = some ⟨s.world.nextId, handle, peer, .accepted⟩ :=
        (World.establish_open hm).mpr (Or.inl ⟨rfl, rfl⟩)
      have hwant' : ¬ (s.thread t).Wants (s.world.establish env handle peer .accepted) peer := by
        rw [LookupPc.wants_congr hs.routes (hs.routes.same hsame)]
        exact hwant
      refine ⟨{ s with world := s.world.establish env handle peer .accepted },
        by simp [Lookup.step, hpos, hfree], ?_⟩
      cases ht : s.thread t with
      | idle =>
          rw [ht] at hcar
          exact absurd hcar (fun h => h)
      | looked req g =>
          rw [ht] at hcar hwant'
          obtain rfl : handle = g := hcar
          intro hsafe
          -- isExist is satisfied, and the message goes to the new connection
          have hexist : ConnMgr.isExist handle (s.world.establish env handle peer .accepted)
              = true := by
            simp [ConnMgr.isExist, htr.recorded, hnew]
          have hnext := hsafe.next (show LookupStep.noAccept (.isExist t) from trivial)
            (by simp only [Lookup.step, ht, hexist]; rfl)
          exact hwant' (hnext.now.write t req handle _ (Lookup.moved_self _ _ t _)
            ((congrFun htr.recorded handle).trans hnew))
      | writing req g =>
          rw [ht] at hcar hwant'
          obtain rfl : handle = g := hcar
          intro hsafe
          exact hwant' (hsafe.now.write t req handle _ ht
            ((congrFun htr.recorded handle).trans hnew))
      | closing b hsvr =>
          rw [ht] at hcar hwant'
          have hne : (⟨s.world.nextId, handle, peer, .accepted⟩ : DASvcHandler).peer ≠ b :=
            hwant'
          exact closing_goes_wrong hne hsvr _ htr ht hcar hnew
  | closed handle => exact absurd trivial hbad
  | lookup t req => exact absurd trivial hbad
  | isExist t => exact absurd trivial hbad
  | write t => exact absurd trivial hbad
  | copy t b => exact absurd trivial hbad
  | close t => exact absurd trivial hbad

/-- No thread is in a call. -/
def Lookup.start (w : World) : Lookup := ⟨w, fun _ => .idle⟩

/-- **Looked-up handles are used on their servers, exactly**: from any reachable state of
the managers, at every point of a run all uses are right however the threads go on, if and
only if no accept of the run gives a descriptor that a thread carries to a connection with
a peer that the thread does not want. -/
theorem looked_up_handles_iff {ops : List Op} {w : World}
    (hw : replay World.step World.start ops = some w) (acts : List LookupStep) :
    Always Lookup.step (fun s => s.Safe ∧ s.Right) (Lookup.start w) acts
      ↔ Along Lookup.step (fun s a => a.noTakeover s) (Lookup.start w) acts := by
  obtain ⟨r, hr, hl⟩ := World.Routed.of_run hw
  have hstart : (Lookup.start w).Inv r :=
    ⟨World.Tracked.of_run hw, hr, hl, fun t h c hcar => absurd hcar (fun h => h)⟩
  apply always_iff_along Lookup.step_inv (fun s hs => ⟨hs.safe, hs.right⟩) _ acts hstart
  intro s a hs hbad
  obtain ⟨s', hstep, hunsafe⟩ := takeover_unsafe s a hs hbad
  exact ⟨s', hstep, fun h => hunsafe h.1⟩

/-- The looked-up connection closes, and an accept gets another descriptor. -/
theorem looked_up_handles_iff_other_descriptor :
    ∃ w, replay World.step World.start [.addSvr .dial 1 (10, 80)] = some w
      ∧ Always Lookup.step (fun s => s.Safe ∧ s.Right) (Lookup.start w)
          [.lookup 0 (.route 1), .closed 3, .accept .dial 4 (11, 5000), .isExist 0] := by
  refine ⟨_, rfl, (@looked_up_handles_iff [.addSvr .dial 1 (10, 80)] _ rfl _).mpr ?_⟩
  refine .cons trivial rfl (.cons trivial rfl (.cons ?_ rfl (.cons trivial rfl trivial)))
  intro _ _ t hcar
  by_cases ht : t = 0
  · subst ht
    exact absurd hcar (by decide : ¬ (4 : Int) = 3)
  · rw [Lookup.moved_other _ _ _ ht] at hcar
    exact absurd hcar (fun h => h)

/-- The looked-up connection closes, and a client gets its descriptor: isExist is satisfied
and onDispatch is about to write the message for a server of key 1 to that client. -/
theorem dispatch_to_client :
    ∃ w s, replay World.step World.start [.addSvr .dial 1 (10, 80)] = some w
      ∧ replay Lookup.step (Lookup.start w)
          [.lookup 0 (.route 1), .closed 3, .accept .dial 3 (11, 5000), .isExist 0] = some s
      ∧ ¬ s.Right
      ∧ ConnMgr.write 3 s.world = some ⟨1, 3, (11, 5000), .accepted⟩ := by
  refine ⟨_, _, rfl, rfl, ?_, rfl⟩
  intro h
  obtain ⟨p, hp, hm⟩ := h.write 0 (.route 1) 3 ⟨1, 3, (11, 5000), .accepted⟩ rfl rfl
  obtain rfl := Option.some.inj hp
  exact absurd hm (by decide)

end TcpFramework
