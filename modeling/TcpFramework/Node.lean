/-
  TcpFramework.Node — all connections of the service, and what is written to each.

  Every handler has a message queue of its own.  A message gets into one through
  ConnMgr::write, which is given a descriptor; handle_output of the handler sends from it.
  A descriptor changes hands when its connection closes, the handler and its queue do not.

  A write with a descriptor and an activation are atomic steps, and so is an operation of the
  managers.  onResponse and onDispatch are calls that nothing comes between here; Traffic
  takes them apart.

  Main results:
    * `streams_isolated` — the outgoing stream of a connection depends on the messages
      written to that connection and on its own sends, and on nothing else.
    * `closed_is_silent` — nothing is ever written to or sent from a connection that has
      closed, whoever has its descriptor now.
-/
import TcpFramework.HandleLookup
import TcpFramework.OutStream
import TcpFramework.UpdateRouter

namespace TcpFramework

open StepSystem

/-! ## §1. The node. -/

/-- The managers, and the output side of every connection, by identity. -/
structure Node where
  world : World
  outs : Nat → OutRun

/-- No connection has been opened. -/
def Node.start : Node := ⟨World.start, fun _ => OutRun.start⟩

/-- The output side of a connection after an event. -/
def OutRun.after (run : OutRun) : OutEvent → OutRun
  | .write strMsg =>
      let r := run.out.write strMsg
      { run with
        out := r.2
        written := if r.1 = 0 then run.written ++ frameOf strMsg else run.written }
  | .activate sends =>
      let r := run.out.handleOutput sends
      { run with out := r.2, failed := r.1 = -1 }

/-- An event happens to an output side that has not failed. -/
theorem outStep_after {run : OutRun} (h : run.failed = false) (ev : OutEvent) :
    outStep run ev = some (run.after ev) := by
  cases ev <;> simp [outStep, OutRun.after, h]

namespace Node

/-- The output side of one connection is replaced. -/
def record (n : Node) (i : Nat) (run : OutRun) : Node :=
  { n with outs := Function.update n.outs i run }

/-- `ConnMgr::write`: the handler's write, or -2 when the descriptor is unknown. -/
def write (handle : Int) (strMsg : List UInt8) (n : Node) : Int × Node :=
  match ConnMgr.write handle n.world with
  | none => (-2, n)
  | some svc =>
      (((n.outs svc.id).out.write strMsg).1,
        n.record svc.id ((n.outs svc.id).after (.write strMsg)))

/-- `SVCMgr::onResponse`. -/
def onResponse (handle : Int) (strMsg : List UInt8) (n : Node) : Int × Node :=
  if handle ≠ -1 ∧ ConnMgr.isExist handle n.world = true then n.write handle strMsg else (-1, n)

/-- `SVCMgr::onDispatch`, with a route key or with the address of a server: the lookup, and
what onResponse does. -/
def onDispatch (req : Request) (strMsg : List UInt8) (n : Node) : Int × Node :=
  onResponse (req.find n.world).1 strMsg { n with world := (req.find n.world).2 }

/-- handle_output of the connection, and handle_close when it returns -1. -/
def handleOutput (svc : DASvcHandler) (sends : Sends) (n : Node) : Node :=
  let run := (n.outs svc.id).after (.activate sends)
  { n with world := if run.failed then svc.handleClose n.world else n.world }.record svc.id run

end Node

/-- The atomic steps. -/
inductive NodeStep where
  /-- An operation of the managers: opening, closing, and every lookup. -/
  | managers (op : Op)
  /-- A thread calls ConnMgr::write with a descriptor it has from anywhere. -/
  | write (handle : Int) (strMsg : List UInt8)
  /-- The reactor calls handle_output of the connection with this descriptor, for which
  WRITE_MASK is registered. -/
  | handleOutput (handle : Int) (sends : Sends)

/-- One step. -/
def Node.step (n : Node) : NodeStep → Option Node
  | .managers op => (n.world.step op).map fun w => { n with world := w }
  | .write handle strMsg => some (n.write handle strMsg).2
  | .handleOutput handle sends =>
      match n.world.fds handle with
      | none => none
      | some svc =>
          if (n.outs svc.id).out.writeMask then some (n.handleOutput svc sends) else none

/-- The connection whose output side a step is about, and what happens to that. -/
def Node.target (n : Node) : NodeStep → Option (DASvcHandler × OutEvent)
  | .managers _ => none
  | .write handle strMsg => (n.world.fds handle).map fun svc => (svc, .write strMsg)
  | .handleOutput handle sends => (n.world.fds handle).map fun svc => (svc, .activate sends)

/-- What a step does to the output side of the connection with this identity. -/
def Node.concerns (i : Nat) (n : Node) (st : NodeStep) : List OutEvent :=
  match n.target st with
  | none => []
  | some (svc, ev) => if svc.id = i then [ev] else []

/-! ## §2. Identities. -/

/-- An identity is one connection's; what is open was open in the state `w₀` too, under the
same descriptor, or has been opened since; and a server that lists a connection of `w₀` has
listed it then. -/
structure World.Descends (w₀ w : World) : Prop where
  tracked : w.Tracked
  ids : ∀ h h' c c', w.fds h = some c → w.fds h' = some c' → c.id = c'.id → h = h'
  grown : w₀.nextId ≤ w.nextId
  old : ∀ h c, w.fds h = some c → w₀.fds h = some c ∨ w₀.nextId ≤ c.id
  listed : ∀ a h c, w.fds h = some c → c.id < w₀.nextId → w.Lists a h → w₀.Lists a h

namespace World.Descends

open World

variable {w₀ w : World}

/-- A change of SvrMgr alone, which lists nothing more. -/
theorem onlySvr (hw : w₀.Descends w) {w' : World} (ht : w'.Tracked) (hs : w.OnlySvr w')
    (hl : ∀ a j, w'.Lists a j → w.Lists a j) : w₀.Descends w' := by
  refine ⟨ht, ?_, ?_, ?_, ?_⟩
  · rw [hs.fds]
    exact hw.ids
  · rw [hs.nextId]
    exact hw.grown
  · rw [hs.fds]
    exact hw.old
  · rw [hs.fds]
    exact fun a h c hc hid hlist => hw.listed a h c hc hid (hl a h hlist)

theorem establish (hw : w₀.Descends w) (env : Env) {h : Int} (peer : Addr) (o : Origin)
    (hpos : 0 ≤ h) (hfree : w.fds h = none) : w₀.Descends (w.establish env h peer o) := by
  have hm : w.mConn h = none := by rw [hw.tracked.recorded, hfree]
  have hnext : (w.establish env h peer o).nextId = w.nextId + 1 :=
    (establish_onlySvr env h peer o w hm).nextId
  have hgrown := hw.grown
  -- the new connection has an identity that no open one has
  have hnew : ∀ {j c}, w.fds j = some c → c.id ≠ w.nextId := fun hc =>
    Nat.ne_of_lt (hw.tracked.own _ _ hc).2.2
  refine ⟨hw.tracked.establish env peer o hpos hfree, ?_, ?_, ?_, ?_⟩
  · intro j j' c c' hc hc' hid
    rcases (establish_open hm).mp hc with ⟨rfl, rfl⟩ | ⟨-, hold⟩
    · rcases (establish_open hm).mp hc' with ⟨rfl, -⟩ | ⟨-, hold'⟩
      · rfl
      · exact absurd hid.symm (hnew hold')
    · rcases (establish_open hm).mp hc' with ⟨-, rfl⟩ | ⟨-, hold'⟩
      · exact absurd hid (hnew hold)
      · exact hw.ids j j' c c' hold hold' hid
  · omega
  · intro j c hc
    rcases (establish_open hm).mp hc with ⟨-, rfl⟩ | ⟨-, hold⟩
    · exact Or.inr hgrown
    · exact hw.old j c hold
  · intro a j c hc hid hlist
    rcases (establish_open hm).mp hc with ⟨-, rfl⟩ | ⟨hj, hold⟩
    · exact absurd hid (Nat.not_lt.mpr hgrown)
    · rcases (establish_lists hm a j).mp hlist with hlist | ⟨-, he, -⟩
      · exact hw.listed a j c hold hid hlist
      · exact absurd he hj

theorem handleClose (hw : w₀.Descends w) {c : DASvcHandler} (hc : w.fds c.handle = some c) :
    w₀.Descends (c.handleClose w) := by
  have hpos : 0 ≤ c.handle := (hw.tracked.own _ c hc).2.1
  have hopen := fun {j d} (hd : (c.handleClose w).fds j = some d) =>
    ((DASvcHandler.handleClose_open hpos).mp hd).2
  have hnext : (c.handleClose w).nextId = w.nextId :=
    (DASvcHandler.handleClose_onlySvr w hpos).nextId
  refine ⟨hw.tracked.handleClose hc, ?_, hnext ▸ hw.grown, fun j d hd => hw.old j d (hopen hd), ?_⟩
  · exact fun j j' d d' hd hd' => hw.ids j j' d d' (hopen hd) (hopen hd')
  · exact fun a j d hd hid hlist => hw.listed a j d (hopen hd) hid
      ((DASvcHandler.handleClose_lists hpos a j).mp hlist).1

theorem close (hw : w₀.Descends w) (h : Int) : w₀.Descends (ConnMgr.close h w).2 := by
  rcases hw.tracked.close_cases h with ⟨-, he⟩ | ⟨c, -, hc, he⟩
  · rw [he]
    exact hw
  · rw [he]
    exact hw.handleClose hc

theorem dropSvr (hw : w₀.Descends w) (a : Addr) : w₀.Descends (ProxyMgr.dropSvr a w) := by
  have hclosed : w₀.Descends (SvrMgr.closeSvr a w) := by
    unfold SvrMgr.closeSvr
    split
    · exact hw
    · exact List.foldlRecOn _ _ hw (fun _ hw h _ => hw.close h)
  exact hclosed.onlySvr (hw.tracked.dropSvr a) (setSvr_onlySvr _ a none)
    fun b j hlist => ((SvrMgr.lists_rmSvr a b _ j).mp hlist).2

theorem connSvr (hw : w₀.Descends w) (env : Env) (a : Addr) :
    w₀.Descends (SvrMgr.connSvr env a w).2 := by
  rcases SvrMgr.connSvr_cases env a w with he | ⟨h, hpos, hfree, he⟩
  · rw [he]
    exact hw
  · rw [he]
    exact hw.establish env a .connected hpos hfree

theorem getConn (hw : w₀.Descends w) (a : Addr) : w₀.Descends (SvrMgr.getConn a w).2 :=
  hw.onlySvr (hw.tracked.getConn a) (SvrMgr.getConn_edits a w).onlySvr
    fun b j => (SvrMgr.lists_getConn a b w j).mp

theorem trims (a : Addr) (k : Nat) :
    ∀ {w : World}, w₀.Descends w → w₀.Descends ((ProxyMgr.trimSvr a)^[k] w) := by
  induction k with
  | zero => exact fun hw => hw
  | succ k ih =>
      intro w hw
      refine ih ?_
      unfold ProxyMgr.trimSvr
      split
      · exact (hw.getConn a).onlySvr ((hw.getConn a).tracked.rmSvrConn a _)
          (SvrMgr.rmSvrConn_edits a _ _).onlySvr
          fun b j hlist => ((SvrMgr.lists_rmSvrConn a b _ j _).mp hlist).1
      · exact hw.getConn a

/-- The building blocks of ProxyMgr's operations keep it. -/
theorem tableInvariant (w₀ : World) : TableInvariant (World.Descends w₀) where
  proxy := fun _ m hw => ⟨hw.tracked.withProxy m, hw.ids, hw.grown, hw.old, hw.listed⟩
  register := fun env a w hw _ => by
    refine (hw.onlySvr (hw.tracked.addSvr a) ?_
      fun b j => (SvrMgr.lists_addSvr a b w j).mp).connSvr env a
    rcases SvrMgr.addSvr_cases a w with ⟨-, he⟩ | ⟨-, he⟩
    · rw [he]
      rfl
    · rw [he]
      exact setSvr_onlySvr w a _
  drop := fun a _ hw => hw.dropSvr a
  reBuildSvr := fun env a w hw => by
    unfold ProxyMgr.reBuildSvr
    split
    · exact hw.connSvr env a
    · split
      · exact trims a _ hw
      · exact hw
  getConn := fun a _ hw => hw.getConn a

/-- **Every operation** keeps it. -/
theorem step {w' : World} (hw : w₀.Descends w) {op : Op} (hstep : w.step op = some w') :
    w₀.Descends w' :=
  (tableInvariant w₀).step
    (fun env _ peer _ hpos hfree => hw.establish env peer .accepted hpos hfree)
    (fun h c _ hc => hw.handleClose (by rw [(hw.tracked.own h c hc).1, hc])) hw hstep

/-- A state descends from itself. -/
theorem self (hw : w₀.Descends w) : w.Descends w :=
  ⟨hw.tracked, hw.ids, Nat.le_refl _, fun _ _ hc => Or.inl hc, fun _ _ _ _ _ hlist => hlist⟩

theorem start : World.start.Descends World.start where
  tracked := World.Tracked.start
  ids := fun h _ c _ hc => by simp [World.start] at hc
  grown := Nat.le_refl _
  old := fun _ _ hc => Or.inl hc
  listed := fun _ _ _ _ _ hlist => hlist

end World.Descends

/-! ## §3. The invariant. -/

/-- The connection can be written to and can send. -/
structure OutRun.Ready (run : OutRun) : Prop where
  alive : run.failed = false
  pending : run.out.Pending

theorem OutRun.Ready.start : OutRun.start.Ready := ⟨rfl, start_pending⟩

theorem OutRun.Ready.step {run run' : OutRun} {ev : OutEvent} (h : run.Ready)
    (hstep : outStep run ev = some run') (hopen : run'.failed = false) : run'.Ready :=
  ⟨hopen, (outStep_spec h.pending hstep hopen).1⟩

/-- Of a state that descends from `w₀`: what is open is ready, and what has not been opened
has not been written to. -/
structure Node.Inv (w₀ : World) (n : Node) : Prop where
  descends : w₀.Descends n.world
  routed : n.world.Routed
  ready : ∀ h c, n.world.fds h = some c → (n.outs c.id).Ready
  fresh : ∀ i, n.world.nextId ≤ i → n.outs i = OutRun.start

namespace Node

variable {w₀ : World} {n n' : Node}

theorem Inv.start : Node.start.Inv World.start where
  descends := World.Descends.start
  routed := World.Routed.start
  ready := fun _ _ _ => OutRun.Ready.start
  fresh := fun _ _ => rfl

/-- An operation of the managers. -/
theorem Inv.managers (hn : n.Inv w₀) {op : Op} {w : World} (hw : n.world.step op = some w) :
    ({ n with world := w } : Node).Inv w₀ := by
  have hstep : n.world.Descends w := hn.descends.self.step hw
  refine ⟨hn.descends.step hw, hn.routed.step hw, ?_,
    fun i hi => hn.fresh i (Nat.le_trans hstep.grown hi)⟩
  intro h c hc
  rcases hstep.old h c hc with hold | hnew
  · exact hn.ready h c hold
  · show (n.outs c.id).Ready
    rw [hn.fresh c.id hnew]
    exact OutRun.Ready.start

/-- The output side of one connection is replaced. -/
theorem Inv.record (hn : n.Inv w₀) {i : Nat} {run : OutRun} (hi : i < n.world.nextId)
    (hrun : (∃ h c, n.world.fds h = some c ∧ c.id = i) → run.Ready) :
    (n.record i run).Inv w₀ := by
  refine ⟨hn.descends, hn.routed, ?_, ?_⟩
  · intro h c hc
    by_cases hci : c.id = i
    · simpa [Node.record, hci] using hrun ⟨h, c, hc, hci⟩
    · simpa [Node.record, hci] using hn.ready h c hc
  · intro j hj
    have hne : j ≠ i := by
      rintro rfl
      exact absurd hi (Nat.not_lt.mpr hj)
    simpa [Node.record, hne] using hn.fresh j hj

/-- A write goes to the connection that has the descriptor, if there is one. -/
theorem write_cases (ht : n.world.Tracked) (handle : Int) (strMsg : List UInt8) :
    (n.world.fds handle = none ∧ n.write handle strMsg = (-2, n)) ∨
    ∃ c, n.world.fds handle = some c
      ∧ n.write handle strMsg = (((n.outs c.id).out.write strMsg).1,
          n.record c.id ((n.outs c.id).after (.write strMsg))) := by
  cases hc : n.world.fds handle with
  | none => exact Or.inl ⟨rfl, by simp [write, ConnMgr.write, ht.recorded, hc]⟩
  | some c => exact Or.inr ⟨c, rfl, by simp [write, ConnMgr.write, ht.recorded, hc]⟩

/-- An activation of a connection for which WRITE_MASK is registered. -/
theorem step_handleOutput {handle : Int} {c : DASvcHandler} {sends : Sends}
    (hc : n.world.fds handle = some c) :
    n.step (.handleOutput handle sends) = some n'
      ↔ (n.outs c.id).out.writeMask = true ∧ n.handleOutput c sends = n' := by
  simp [step, hc]

/-- **What a step does**: the managers move and no output side changes; or one event happens
to the output side of one open connection, which closes if it fails. -/
theorem step_cases (hn : n.Inv w₀) {st : NodeStep} (h : n.step st = some n') :
    (n.target st = none ∧ n'.outs = n.outs
      ∧ (n'.world = n.world ∨ ∃ op, n.world.step op = some n'.world)) ∨
    ∃ c ev, n.target st = some (c, ev) ∧ n.world.fds c.handle = some c
      ∧ n'.outs = Function.update n.outs c.id ((n.outs c.id).after ev)
      ∧ n'.world = if ((n.outs c.id).after ev).failed then c.handleClose n.world else n.world
      := by
  have htracked := hn.descends.tracked
  cases st with
  | managers op =>
      obtain ⟨w, hw, rfl⟩ := Option.map_eq_some_iff.mp h
      exact Or.inl ⟨rfl, rfl, Or.inr ⟨op, hw⟩⟩
  | write handle strMsg =>
      obtain rfl := Option.some.inj h
      rcases write_cases htracked handle strMsg with ⟨hc, hnone⟩ | ⟨c, hc, hsome⟩
      · exact Or.inl ⟨by simp [target, hc], by rw [hnone], Or.inl (by rw [hnone])⟩
      · have hown := (htracked.own handle c hc).1
        have halive := (hn.ready handle c hc).alive
        refine Or.inr ⟨c, .write strMsg, by simp [target, hc], by rw [hown, hc], ?_, ?_⟩
        · rw [hsome]
          rfl
        · rw [hsome]
          simp [OutRun.after, halive, record]
  | handleOutput handle sends =>
      cases hc : n.world.fds handle with
      | none => simp [step, hc] at h
      | some c =>
          obtain ⟨-, rfl⟩ := (step_handleOutput hc).mp h
          have hown := (htracked.own handle c hc).1
          exact Or.inr ⟨c, .activate sends, by simp [target, hc], by rw [hown, hc], rfl, rfl⟩

/-- What it does to the managers. -/
theorem step_world (hn : n.Inv w₀) {st : NodeStep} (h : n.step st = some n') :
    n'.world = n.world ∨ ∃ op, n.world.step op = some n'.world := by
  rcases step_cases hn h with ⟨-, -, hw⟩ | ⟨c, ev, -, hc, -, hw⟩
  · exact hw
  · split at hw
    · exact Or.inr ⟨.closed c.handle, by simp [World.step, hc, hw]⟩
    · exact Or.inl hw

/-- **One step** keeps the invariant. -/
theorem Inv.step (hn : n.Inv w₀) {st : NodeStep} (h : n.step st = some n') : n'.Inv w₀ := by
  obtain ⟨w', outs'⟩ := n'
  rcases step_cases hn h with ⟨-, houts, hw | ⟨op, hop⟩⟩ | ⟨c, ev, -, hc, houts, hw⟩
  · obtain rfl : outs' = n.outs := houts
    obtain rfl : w' = n.world := hw
    exact hn
  · obtain rfl : outs' = n.outs := houts
    exact hn.managers hop
  · dsimp only at houts hw
    have hready := hn.ready c.handle c hc
    have hid : c.id < n.world.nextId := (hn.descends.tracked.own c.handle c hc).2.2
    have hafter := outStep_after hready.alive ev
    rw [houts]
    cases hfailed : ((n.outs c.id).after ev).failed with
    | false =>
        rw [hfailed, if_neg Bool.false_ne_true] at hw
        rw [hw]
        exact hn.record hid fun _ => hready.step hafter hfailed
    | true =>
        -- the connection closes, and its identity is no open one's any more
        rw [hfailed, if_pos rfl] at hw
        have hclosed : n.world.step (.closed c.handle) = some w' := by
          simp [World.step, hc, hw]
        refine (hn.managers hclosed).record ?_ ?_
        · exact Nat.lt_of_lt_of_le hid (hn.descends.self.step hclosed).grown
        · rintro ⟨h, d, hd, hdc⟩
          have hpos := (hn.descends.tracked.own c.handle c hc).2.1
          have hold : h ≠ c.handle ∧ n.world.fds h = some d := by
            rw [← DASvcHandler.handleClose_open hpos, ← hw]
            exact hd
          exact absurd (hn.descends.ids h c.handle d c hold.2 hc hdc) hold.1

/-- A step does to every output side what it says. -/
theorem step_concerns (hn : n.Inv w₀) {st : NodeStep} (h : n.step st = some n') (i : Nat) :
    replay outStep (n.outs i) (n.concerns i st) = some (n'.outs i) := by
  rcases step_cases hn h with ⟨htarget, houts, -⟩ | ⟨c, ev, htarget, hc, houts, -⟩
  · have hnone : n.concerns i st = [] := by simp [concerns, htarget]
    rw [hnone, houts]
    rfl
  · by_cases hi : c.id = i
    · have hsome : n.concerns i st = [ev] := by simp [concerns, htarget, hi]
      have hrun : n'.outs i = (n.outs i).after ev := by simp [houts, hi]
      rw [hsome, hrun]
      exact replay_one (outStep_after (hi ▸ (hn.ready _ c hc).alive) ev)
    · have hnone : n.concerns i st = [] := by simp [concerns, htarget, hi]
      have hsame : n'.outs i = n.outs i := by simp [houts, Ne.symm hi]
      rw [hnone, hsame]
      rfl

theorem Inv.run (hn : n.Inv w₀) {steps : List NodeStep} (h : replay Node.step n steps = some n') :
    n'.Inv w₀ :=
  replay_invariant' (fun _ _ _ hi hstep => hi.step hstep) steps n n' hn h

theorem Inv.of_run {steps : List NodeStep} (h : replay Node.step Node.start steps = some n) :
    n.Inv World.start := Inv.start.run h

end Node

/-! ## §4. Streams. -/

/-- **The streams are isolated**: in every run, the output side of a connection is what the
messages written to that connection and its own activations make of it, and its stream is
intact exactly if its own put-backs fit. -/
theorem streams_isolated {steps : List NodeStep} {n : Node}
    (h : replay Node.step Node.start steps = some n) (i : Nat) :
    replay outStep OutRun.start (StepSystem.trace Node.step (Node.concerns i) Node.start steps)
        = some (n.outs i)
      ∧ ((n.outs i).failed = false →
          ((n.outs i).Intact ↔ Along outStep (fun r ev => OutEvent.fits r ev) OutRun.start
            (StepSystem.trace Node.step (Node.concerns i) Node.start steps))) := by
  have hproj : replay outStep OutRun.start
      (StepSystem.trace Node.step (Node.concerns i) Node.start steps) = some (n.outs i) := by
    have hstep : ∀ (s : Node) (st : NodeStep) (s' : Node), s.Inv World.start →
        s.step st = some s' → s'.Inv World.start
          ∧ replay outStep (s.outs i) (s.concerns i st) = some (s'.outs i) :=
      fun _ _ _ hs hst => ⟨hs.step hst, Node.step_concerns hs hst i⟩
    exact replay_trace hstep steps Node.start n Node.Inv.start h
  exact ⟨hproj, fun hopen => (replay_intact _ _ _ start_pending hproj hopen).1 rfl⟩

/-- Two connections to servers of a key; a message is written to the first one and sent. -/
theorem streams_isolated_two :
    ∃ n, replay Node.step Node.start [.managers (.addSvr .dial 1 (10, 80)),
        .managers (.addSvr .dial 1 (11, 80)), .write 3 [0x41], .handleOutput 3 sendAll] = some n
      ∧ replay outStep OutRun.start [.write [0x41], .activate sendAll] = some (n.outs 0)
      ∧ replay outStep OutRun.start [] = some (n.outs 1) := by
  refine ⟨_, rfl, ?_, ?_⟩
  · exact (@streams_isolated [.managers (.addSvr .dial 1 (10, 80)),
      .managers (.addSvr .dial 1 (11, 80)), .write 3 [0x41], .handleOutput 3 sendAll] _ rfl 0).1
  · exact (@streams_isolated [.managers (.addSvr .dial 1 (10, 80)),
      .managers (.addSvr .dial 1 (11, 80)), .write 3 [0x41], .handleOutput 3 sendAll] _ rfl 1).1

/-- **A closed connection is silent**: from a reachable state in which no open connection has
an identity that has been given out, none ever has it again, and its output side stays as it
is. -/
theorem closed_is_silent {before after : List NodeStep} {n n' : Node}
    (h : replay Node.step Node.start before = some n)
    (h' : replay Node.step n after = some n') {i : Nat} (hi : i < n.world.nextId)
    (hclosed : ∀ j c, n.world.fds j = some c → c.id ≠ i) :
    n'.outs i = n.outs i ∧ ∀ j c, n'.world.fds j = some c → c.id ≠ i := by
  have hself : n.Inv n.world :=
    let hn := Node.Inv.of_run h
    ⟨hn.descends.self, hn.routed, hn.ready, hn.fresh⟩
  -- what is open later was open before, or has a new identity
  have hstill : ∀ {m : Node}, m.Inv n.world → ∀ j c, m.world.fds j = some c → c.id ≠ i := by
    intro m hm j c hc hci
    rcases hm.descends.old j c hc with hold | hnew
    · exact hclosed j c hold hci
    · omega
  have hstep : ∀ (m : Node) (st : NodeStep) (m' : Node), (m.Inv n.world ∧ m.outs i = n.outs i) →
      m.step st = some m' → m'.Inv n.world ∧ m'.outs i = n.outs i := by
    rintro m st m' ⟨hm, hsame⟩ hst
    refine ⟨hm.step hst, ?_⟩
    rcases Node.step_cases hm hst with ⟨-, houts, -⟩ | ⟨c, ev, -, hc, houts, -⟩
    · rw [houts, hsame]
    · rw [houts, Function.update_of_ne (Ne.symm (hstill hm _ c hc)), hsame]
  obtain ⟨hinv, hsame⟩ := replay_invariant' hstep after n n' ⟨hself, rfl⟩ h'
  exact ⟨hsame, hstill hinv⟩

/-- The connection of a server closes, another peer gets its descriptor, and a message is
written to that descriptor. -/
theorem closed_is_silent_reused :
    ∃ n n', replay Node.step Node.start
        [.managers (.addSvr .dial 1 (10, 80)), .managers (.closed 3)] = some n
      ∧ replay Node.step n
        [.managers (.accept .refuse 3 (12, 5000)), .write 3 [0x41]] = some n'
      ∧ n'.outs 0 = n.outs 0 ∧ n'.outs 1 ≠ n.outs 1 := by
  refine ⟨_, _, rfl, rfl, ?_, by decide⟩
  refine (@closed_is_silent [.managers (.addSvr .dial 1 (10, 80)), .managers (.closed 3)]
    [.managers (.accept .refuse 3 (12, 5000)), .write 3 [0x41]] _ _ rfl rfl 0 (by decide) ?_).1
  intro j c hc
  -- descriptor 3 was the only open one
  have hnone : Function.update (Function.update (fun _ : Int => none) 3
      (some ⟨0, 3, (10, 80), .connected⟩)) 3 none j = some c := hc
  simp only [Function.update_idem, Function.update_eq_self, reduceCtorEq] at hnone

/-! ## §5. Messages. -/

/-- A call that writes a message to a connection of some kind: if it returns 0, the frame is
behind the stream of one open connection of that kind, and no other output side has changed;
otherwise none has. -/
structure Node.Reaches (n : Node) (kind : DASvcHandler → Prop) (strMsg : List UInt8)
    (r : Int × Node) : Prop where
  accepted : r.1 = 0 → ∃ c, n.world.fds c.handle = some c ∧ kind c
    ∧ (r.2.outs c.id).out.stream = (n.outs c.id).out.stream ++ frameOf strMsg
    ∧ ∀ i, i ≠ c.id → r.2.outs i = n.outs i
  refused : r.1 ≠ 0 → r.2.outs = n.outs
  kept : r.2.world.fds = n.world.fds

namespace Node

variable {n : Node}

/-- A write with any descriptor. -/
theorem write_reaches {w₀ : World} (hn : n.Inv w₀) (handle : Int) (strMsg : List UInt8) :
    n.Reaches (fun c => c.handle = handle) strMsg (n.write handle strMsg) := by
  rcases write_cases hn.descends.tracked handle strMsg with ⟨-, hnone⟩ | ⟨c, hc, hsome⟩
  · rw [hnone]
    exact ⟨fun h => absurd h (show (-2 : Int) ≠ 0 by decide), fun _ => rfl, rfl⟩
  · have hown := (hn.descends.tracked.own handle c hc).1
    rw [hsome]
    obtain ⟨-, hstream⟩ := OutSide.write_spec (hn.ready handle c hc).pending strMsg
    refine ⟨fun hzero => ⟨c, by rw [hown, hc], hown, ?_, ?_⟩, fun hrefused => ?_, rfl⟩
    · rw [if_pos hzero] at hstream
      simpa [record, OutRun.after] using hstream
    · intro i hi
      simp [record, hi]
    · -- a refused write leaves the output side alone
      rcases (n.outs c.id).out.write_cases strMsg with ⟨-, he⟩ | ⟨-, he⟩
      · simp [record, OutRun.after, he]
      · exact absurd (by rw [he]) hrefused

/-- onResponse writes to the connection that has the descriptor, if there is one. -/
theorem onResponse_cases {w₀ : World} (hn : n.Inv w₀) (handle : Int) (strMsg : List UInt8) :
    (n.world.fds handle = none ∧ SVCMgr.onResponse handle n.world = none
      ∧ n.onResponse handle strMsg = (-1, n)) ∨
    ∃ c, n.world.fds handle = some c ∧ SVCMgr.onResponse handle n.world = some c
      ∧ n.onResponse handle strMsg = (((n.outs c.id).out.write strMsg).1,
          n.record c.id ((n.outs c.id).after (.write strMsg))) := by
  have htracked := hn.descends.tracked
  have hrecorded := congrFun htracked.recorded handle
  rcases write_cases htracked handle strMsg with ⟨hc, -⟩ | ⟨c, hc, hsome⟩
  · have hunknown : ConnMgr.isExist handle n.world = false := by
      simp [ConnMgr.isExist, hrecorded, hc]
    exact Or.inl ⟨hc, by simp [SVCMgr.onResponse, hunknown], by simp [onResponse, hunknown]⟩
  · have hpos := (htracked.own handle c hc).2.1
    have hne : handle ≠ -1 := by omega
    have hfound : ConnMgr.write handle n.world = some c := hrecorded.trans hc
    have hknown : ConnMgr.isExist handle n.world = true := by
      simp [ConnMgr.isExist, hrecorded, hc]
    refine Or.inr ⟨c, hc, ?_, ?_⟩
    · rw [SVCMgr.onResponse, if_pos ⟨hne, hknown⟩, hfound]
    · rw [onResponse, if_pos ⟨hne, hknown⟩, hsome]

end Node

end TcpFramework
