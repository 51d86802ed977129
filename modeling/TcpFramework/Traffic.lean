/-
  TcpFramework.Traffic — onDispatch and onResponse, step by step.

  onDispatch looks a descriptor up, asks isExist about it, and gives it to ConnMgr::write;
  onResponse is called with a descriptor and does the rest.  Each of the three takes its locks
  and releases them.  Here any number of threads are in such calls, and operations of the
  managers, writes and activations come between their steps.  The lookup is one step, also
  when getSvrConn asks several servers.

  A call carries a number only.  When its connection closes and another one gets the number
  before the write, the message goes there.  The record of a call says which connection the
  lookup found, so that the two can be told apart.

  Main results:
    * `dispatch_reaches` — a message that is accepted is behind the stream of one open
      connection, the one looked up or, when that has closed, one opened since.
    * `keys_kept_apart` — messages for different route keys that go to the connections looked
      up for them never share a connection.
    * `Traffic.undisturbed` — with nothing between its steps, a call is that of Node.
-/
import TcpFramework.Node

namespace TcpFramework

open StepSystem

/-! ## §1. The calls. -/

/-- How a message is sent: the function of SVCMgr that is called with it. -/
inductive Sender where
  | dispatch (req : Request)
  | response (handle : Int)

namespace Sender

/-- The descriptor that is written to, and the managers after it has been looked up. -/
def find (w : World) : Sender → Int × World
  | .dispatch req => req.find w
  | .response handle => (handle, w)

/-- The connection that is written to, when nothing comes between. -/
def conn (w : World) (s : Sender) : Option DASvcHandler :=
  SVCMgr.onResponse (s.find w).1 (s.find w).2

/-- The call. -/
def send (strMsg : List UInt8) (n : Node) : Sender → Int × Node
  | .dispatch req => n.onDispatch req strMsg
  | .response handle => n.onResponse handle strMsg

/-- The lookup, and what onResponse does. -/
theorem send_eq (s : Sender) (strMsg : List UInt8) (n : Node) :
    s.send strMsg n
      = Node.onResponse (s.find n.world).1 strMsg { n with world := (s.find n.world).2 } := by
  cases s <;> rfl

/-- The connection is one that the function is called for: a server of the key or of the
address lists it, or it has the descriptor. -/
def For (w : World) (c : DASvcHandler) : Sender → Prop
  | .dispatch req => req.Peer w c.peer ∧ w.Lists c.peer c.handle
  | .response handle => c.handle = handle

end Sender

namespace Node

variable {n : Node}

/-- The node after the lookup. -/
def looked (n : Node) (s : Sender) : Node := { n with world := (s.find n.world).2 }

/-- The lookup is an operation of the managers, or none, and opens and closes nothing. -/
theorem looked_spec (hn : n.Inv World.start) (s : Sender) :
    (n.world = (n.looked s).world ∨ ∃ op, n.world.step op = some (n.looked s).world)
      ∧ (n.looked s).Inv World.start ∧ (n.looked s).world.fds = n.world.fds := by
  cases s with
  | dispatch req =>
      have hop : ∃ op, n.world.step op = some (req.find n.world).2 := by
        cases req with
        | route key => exact ⟨.getSvrConn key, rfl⟩
        | server a => exact ⟨.getConn a, rfl⟩
      obtain ⟨r, hr, hl⟩ := hn.routed
      obtain ⟨-, -, -, hfds, -⟩ := req.find_spec hn.descends.tracked hr hl
      obtain ⟨op, hop⟩ := hop
      exact ⟨Or.inr ⟨op, hop⟩, hn.managers hop, hfds⟩
  | response handle => exact ⟨Or.inl rfl, hn, rfl⟩

/-- A lookup by onDispatch that does not give -1 has found an open connection. -/
theorem find_open (hn : n.Inv World.start) (req : Request) (hne : (req.find n.world).1 ≠ -1) :
    ∃ c, n.world.fds (req.find n.world).1 = some c := by
  obtain ⟨r, hr, hl⟩ := hn.routed
  obtain ⟨-, -, -, -, hret⟩ := req.find_spec hn.descends.tracked hr hl
  obtain ⟨a, -, hlist⟩ := hret hne
  obtain ⟨c, hc, -⟩ := hn.descends.tracked.listed a _ hlist
  exact ⟨c, hc⟩

/-- A connection that has the descriptor that is looked up is one of those asked for. -/
theorem find_for (hn : n.Inv World.start) (s : Sender) {c : DASvcHandler}
    (hc : n.world.fds (s.find n.world).1 = some c) :
    c.handle = (s.find n.world).1 ∧ s.For n.world c := by
  have htracked := hn.descends.tracked
  obtain ⟨hown, hpos, -⟩ := htracked.own _ c hc
  refine ⟨hown, ?_⟩
  cases s with
  | dispatch req =>
      obtain ⟨r, hr, hl⟩ := hn.routed
      obtain ⟨-, -, -, -, hret⟩ := req.find_spec htracked hr hl
      have hne : (req.find n.world).1 ≠ -1 := by
        intro he
        have hpos' : (0 : Int) ≤ (req.find n.world).1 := hown ▸ hpos
        omega
      obtain ⟨a, ha, hlist⟩ := hret hne
      -- what lists the descriptor is the peer of the connection
      obtain ⟨d, hd, rfl⟩ := htracked.listed a _ hlist
      obtain rfl := Option.some.inj (hc.symm.trans hd)
      exact ⟨ha, hown ▸ hlist⟩
  | response handle => exact hown

end Node

/-! ## §2. Keys. -/

/-- A message, how it was sent, and a connection for it. -/
structure Posting where
  conn : DASvcHandler
  sender : Sender
  strMsg : List UInt8

/-- The connection is the one that the function was called for. -/
def Posting.Asked (p : Posting) : Prop :=
  match p.sender with
  | .dispatch (.route _) => True
  | .dispatch (.server a) => p.conn.peer = a
  | .response handle => p.conn.handle = handle

theorem Posting.asked {p : Posting} {w : World} (h : p.sender.For w p.conn) : p.Asked := by
  obtain ⟨conn, sender, strMsg⟩ := p
  cases sender with
  | dispatch req =>
      cases req with
      | route key => trivial
      | server a => exact h.1
  | response handle => exact h

/-- **No operation moves a server** from one key to another. -/
theorem World.Routed.step_unmoved {w w' : World} (hw : w.Routed) {op : Op}
    (hstep : w.step op = some w') :
    ∃ r r', w.Routes r ∧ w'.Routes r' ∧ Assignment.Unmoved r r' := by
  obtain ⟨r, h, hl⟩ := hw
  have hkeeps : op.keepsRoutes → ∃ r r', w.Routes r ∧ w'.Routes r' ∧ Assignment.Unmoved r r' :=
    fun hop => ⟨r, r, h, ((step_keepsRoutes hop hstep).routes r h hl).1, .refl r⟩
  cases op with
  | addSvr env key a =>
      obtain rfl := Option.some.inj hstep
      exact ⟨r, _, h, h.addSvr env key a, Assignment.unmoved_assignAll [(key, a)] r⟩
  | rmSvr key a =>
      obtain rfl := Option.some.inj hstep
      exact ⟨r, _, h, h.rmSvr key a, Assignment.unmoved_releaseFrom key a r⟩
  | updateProxy env t =>
      obtain rfl := Option.some.inj hstep
      exact ⟨r, _, h, (h.updateProxy hl env t).1, Assignment.unmoved_replace _ _ r⟩
  | accept | closed | reBuild | getSvrConn | getConn => exact hkeeps trivial

/-- All servers that list the connection with this identity are under the key. -/
def World.OnlyUnder (w : World) (i : Nat) (key : Int) : Prop :=
  ∀ a h c, w.fds h = some c → c.id = i → w.Lists a h → w.Serves key a

/-- It stays so: what has the identity later has it now, and a server that moves is dropped
on the way, and its connections are closed. -/
theorem World.OnlyUnder.step {w₀ w w' : World} {i : Nat} {key : Int} (hk : w.OnlyUnder i key)
    (hd : w₀.Descends w) (hr : w.Routed) (hi : i < w.nextId) {op : Op}
    (hstep : w.step op = some w') : w'.OnlyUnder i key := by
  intro a h c hc hid hlist
  have hd' : w.Descends w' := hd.self.step hstep
  have hlt : c.id < w.nextId := hid ▸ hi
  have hold : w.fds h = some c := (hd'.old h c hc).resolve_right (Nat.not_le.mpr hlt)
  have hserves : w.Serves key a := hk a h c hold hid (hd'.listed a h c hc hlt hlist)
  obtain ⟨r, r', h, h', hunmoved⟩ := hr.step_unmoved hstep
  -- it is still registered, so it is under some key
  obtain ⟨s, hs, -⟩ := hlist
  have hexist : (r' a).isSome = true := by
    rw [← h'.exist a]
    simp [SvrMgr.isSvrExist, hs]
  obtain ⟨key', hkey'⟩ := Option.isSome_iff_exists.mp hexist
  obtain rfl := hunmoved a key key' ((h.serves key a).mp hserves) hkey'
  exact (h'.serves key a).mpr hkey'

/-- The messages and their connections, and the managers: a connection for a message that is
dispatched by key has servers under that key only, and so have all others for it the key. -/
structure World.Keyed (w : World) (log : List Posting) : Prop where
  handed : ∀ p ∈ log, p.conn.id < w.nextId
  asked : ∀ p ∈ log, p.Asked
  under : ∀ p ∈ log, ∀ key, p.sender = .dispatch (.route key) → w.OnlyUnder p.conn.id key
  oneKey : ∀ p ∈ log, ∀ p' ∈ log, ∀ key key', p.conn.id = p'.conn.id →
    p.sender = .dispatch (.route key) → p'.sender = .dispatch (.route key') → key = key'

namespace World.Keyed

variable {w : World} {log : List Posting}

/-- The managers move. -/
theorem move (h : w.Keyed log) (hd : World.start.Descends w) (hr : w.Routed) {w' : World}
    (hw : w = w' ∨ ∃ op, w.step op = some w') : w'.Keyed log := by
  rcases hw with rfl | ⟨op, hop⟩
  · exact h
  · refine ⟨fun p hp => ?_, h.asked, fun p hp key hkey => ?_, h.oneKey⟩
    · exact Nat.lt_of_lt_of_le (h.handed p hp) (hd.self.step hop).grown
    · exact (h.under p hp key hkey).step hd hr (h.handed p hp) hop

/-- A message comes with an open connection that is one of those asked for. -/
theorem add (h : w.Keyed log) (hd : World.start.Descends w) (hr : w.Routed) {p : Posting}
    (hopen : w.fds p.conn.handle = some p.conn) (hfor : p.sender.For w p.conn) :
    w.Keyed (log ++ [p]) := by
  obtain ⟨r, hroutes, -⟩ := hr
  have hroute : ∀ key, p.sender = .dispatch (.route key) →
      w.Serves key p.conn.peer ∧ w.Lists p.conn.peer p.conn.handle := by
    intro key hkey
    rw [hkey] at hfor
    exact hfor
  -- a server has one key
  have honly : ∀ {key key' : Int} {a : Addr}, w.Serves key a → w.Serves key' a → key = key' := by
    intro key key' a hserves hserves'
    have hkey := (hroutes.serves key a).mp hserves
    exact Option.some.inj (hkey.symm.trans ((hroutes.serves key' a).mp hserves'))
  have hfresh : ∀ q ∈ log, ∀ key key', q.conn.id = p.conn.id →
      q.sender = .dispatch (.route key) → p.sender = .dispatch (.route key') → key = key' := by
    intro q hq key key' hid hkey hkey'
    obtain ⟨hserves, hlist⟩ := hroute key' hkey'
    exact honly (h.under q hq key hkey _ _ _ hopen hid.symm hlist) hserves
  have hcases : ∀ {q : Posting}, q ∈ log ++ [p] → q ∈ log ∨ q = p := by
    intro q hq
    rcases List.mem_append.mp hq with hq | hq
    · exact Or.inl hq
    · exact Or.inr (List.mem_singleton.mp hq)
  refine ⟨fun q hq => ?_, fun q hq => ?_, fun q hq key hkey => ?_, ?_⟩
  · rcases hcases hq with hq | rfl
    · exact h.handed q hq
    · exact (hd.tracked.own _ _ hopen).2.2
  · rcases hcases hq with hq | rfl
    · exact h.asked q hq
    · exact Posting.asked hfor
  · rcases hcases hq with hq | rfl
    · exact h.under q hq key hkey
    · intro a j c hc hid hlist
      have hj := hd.ids _ _ c q.conn hc hopen hid
      obtain ⟨d, hd', rfl⟩ := hd.tracked.listed a j hlist
      rw [hj, hopen] at hd'
      obtain rfl := Option.some.inj hd'
      exact (hroute key hkey).1
  · intro q hq q' hq' key key' hid hkey hkey'
    rcases hcases hq with hold | rfl
    · rcases hcases hq' with hold' | rfl
      · exact h.oneKey q hold q' hold' key key' hid hkey hkey'
      · exact hfresh q hold key key' hid hkey hkey'
    · rcases hcases hq' with hold' | rfl
      · exact (hfresh q' hold' key' key hid.symm hkey' hkey).symm
      · rw [hkey, Sender.dispatch.injEq, Request.route.injEq] at hkey'
        exact hkey'

theorem start : World.start.Keyed [] where
  handed := fun _ hp => absurd hp List.not_mem_nil
  asked := fun _ hp => absurd hp List.not_mem_nil
  under := fun _ hp => absurd hp List.not_mem_nil
  oneKey := fun _ hp => absurd hp List.not_mem_nil

end World.Keyed

/-! ## §3. The steps of a call. -/

/-- A call on its way: what it was called with, the descriptor that the lookup has given, and,
as a record, the managers when it was looked up. -/
structure Errand where
  sender : Sender
  strMsg : List UInt8
  handle : Int
  looked : World

/-- The connection that had the descriptor when it was looked up. -/
def Errand.found (e : Errand) : Option DASvcHandler := e.looked.fds e.handle

/-- How a connection stands to a call whose descriptor it has: it had it when this was looked
up, and is one of those asked for; or it has been opened since, and the one found has closed. -/
inductive Errand.Meets (w : World) (e : Errand) (c : DASvcHandler) : Prop where
  | direct (found : e.found = some c) (asked : e.sender.For e.looked c)
  | takeover (opened : e.looked.nextId ≤ c.id)
      (closed : ∀ d, e.found = some d → w.fds d.handle ≠ some d)

/-- Where a thread stands. -/
inductive CallPc where
  | idle
  /-- It has a descriptor and calls isExist next. -/
  | looked (e : Errand)
  /-- It calls ConnMgr::write next. -/
  | writing (e : Errand)

/-- A message for which the write has returned 0, and the connection it was written to. -/
structure Written where
  errand : Errand
  conn : DASvcHandler

/-- It is the connection that the lookup found. -/
def Written.Direct (p : Written) : Prop := p.errand.found = some p.conn

/-- The node and the threads that call onDispatch and onResponse; what the lookups have found,
and the messages accepted. -/
structure Traffic where
  node : Node
  thread : Nat → CallPc
  finds : List Posting
  log : List Written

/-- No connection has been opened, and nobody calls. -/
def Traffic.start : Traffic := ⟨Node.start, fun _ => .idle, [], []⟩

/-- The atomic steps. -/
inductive TrafficStep where
  /-- An operation of the managers, a write from elsewhere, or an activation. -/
  | node (st : NodeStep)
  /-- Thread `t` calls onDispatch or onResponse; onDispatch looks the descriptor up. -/
  | lookup (t : Nat) (s : Sender) (strMsg : List UInt8)
  | isExist (t : Nat)
  | write (t : Nat)

namespace Traffic

/-- Thread `t` moves on. -/
def moved (s : Traffic) (t : Nat) (pc : CallPc) : Traffic :=
  { s with thread := Function.update s.thread t pc }

/-- The call that starts with this lookup. -/
def errand (s : Traffic) (sender : Sender) (strMsg : List UInt8) : Errand :=
  ⟨sender, strMsg, (sender.find s.node.world).1, s.node.world⟩

/-- What the lookup of a call has found, on record. -/
def record (s : Traffic) (e : Errand) : Traffic :=
  { s with finds := s.finds ++ (e.found.map fun c => ⟨c, e.sender, e.strMsg⟩).toList }

/-- ConnMgr::write, with the message on record when it is accepted. -/
def write (s : Traffic) (e : Errand) : Traffic :=
  { s with
    node := (s.node.write e.handle e.strMsg).2
    log :=
      if (s.node.write e.handle e.strMsg).1 = 0 then
        s.log ++ ((ConnMgr.write e.handle s.node.world).map fun c => ⟨e, c⟩).toList
      else s.log }

/-- One atomic step; `none` when the thread is not there.  A lookup that gives -1 ends the
call, and so does a descriptor that isExist does not know. -/
def step (s : Traffic) : TrafficStep → Option Traffic
  | .node st => (s.node.step st).map fun node => { s with node := node }
  | .lookup t sender strMsg =>
      match s.thread t with
      | .idle =>
          -- getSvrConn has moved its position, also when it finds nobody
          if (sender.find s.node.world).1 = -1 then
            some { s with node := s.node.looked sender }
          else
            some (({ s with node := s.node.looked sender }.record
              (s.errand sender strMsg)).moved t (.looked (s.errand sender strMsg)))
      | _ => none
  | .isExist t =>
      match s.thread t with
      | .looked e =>
          some (s.moved t (if ConnMgr.isExist e.handle s.node.world then .writing e else .idle))
      | _ => none
  | .write t =>
      match s.thread t with
      -- whoever has the descriptor now gets the message
      | .writing e => some ((s.write e).moved t .idle)
      | _ => none

end Traffic

/-! ## §4. The invariant. -/

/-- A call whose lookup has found `finds` among others, with the managers in `w` now. -/
structure Errand.Sound (finds : List Posting) (w : World) (e : Errand) : Prop where
  before : World.start.Descends e.looked
  descends : e.looked.Descends w
  opens : ∀ req, e.sender = .dispatch req → ∃ c, e.found = some c
  found : ∀ c, e.found = some c → ⟨c, e.sender, e.strMsg⟩ ∈ finds
  asked : ∀ c, e.found = some c → e.sender.For e.looked c

/-- A message that was accepted went to the connection found, or to one opened since. -/
structure Written.Sound (finds : List Posting) (w : World) (p : Written) : Prop where
  errand : p.errand.Sound finds w
  direct : p.Direct ∨ p.errand.looked.nextId ≤ p.conn.id

/-- The call that a thread is in. -/
def CallPc.Carries : CallPc → Errand → Prop
  | .idle, _ => False
  | .looked e, e' => e' = e
  | .writing e, e' => e' = e

/-- The invariant. -/
structure Traffic.Inv (s : Traffic) : Prop where
  node : s.node.Inv World.start
  keyed : s.node.world.Keyed s.finds
  carried : ∀ t e, (s.thread t).Carries e → e.Sound s.finds s.node.world
  logged : ∀ p ∈ s.log, p.Sound s.finds s.node.world

/-- The managers move. -/
theorem Errand.Sound.move {finds : List Posting} {w w' : World} {e : Errand}
    (h : e.Sound finds w) (hw : w = w' ∨ ∃ op, w.step op = some w') : e.Sound finds w' := by
  refine ⟨h.before, ?_, h.opens, h.found, h.asked⟩
  rcases hw with rfl | ⟨op, hop⟩
  · exact h.descends
  · exact h.descends.step hop

/-- Something else is found. -/
theorem Errand.Sound.behind {finds more : List Posting} {w : World} {e : Errand}
    (h : e.Sound finds w) : e.Sound (finds ++ more) w :=
  ⟨h.before, h.descends, h.opens, fun c hc => List.mem_append_left _ (h.found c hc), h.asked⟩

/-- The connection that has the descriptor of a call now meets it. -/
theorem Errand.Sound.meets {finds : List Posting} {w : World} {e : Errand} (he : e.Sound finds w)
    {c : DASvcHandler} (hc : w.fds e.handle = some c) : e.Meets w c := by
  rcases he.descends.old _ c hc with hold | hnew
  · exact .direct hold (he.asked c hold)
  · refine .takeover hnew fun d hd hopen => ?_
    -- the one found would have the descriptor still
    obtain ⟨hhandle, -, hid⟩ := he.before.tracked.own _ d hd
    rw [hhandle, hc] at hopen
    obtain rfl := Option.some.inj hopen
    omega

namespace Traffic

variable {s s' : Traffic}

theorem Inv.start : Traffic.start.Inv where
  node := Node.Inv.start
  keyed := World.Keyed.start
  carried := fun _ _ h => absurd h (fun h => h)
  logged := fun _ h => absurd h List.not_mem_nil

/-- The node moves on. -/
theorem Inv.move (h : s.Inv) {node : Node} (hn : node.Inv World.start)
    (hw : s.node.world = node.world ∨ ∃ op, s.node.world.step op = some node.world) :
    ({ s with node := node } : Traffic).Inv := by
  refine ⟨hn, h.keyed.move h.node.descends h.node.routed hw, fun t e he => ?_, fun p hp => ?_⟩
  · exact (h.carried t e he).move hw
  · exact ⟨(h.logged p hp).errand.move hw, (h.logged p hp).direct⟩

/-- A thread moves on, with a call that is sound. -/
theorem Inv.moved (h : s.Inv) (t : Nat) {pc : CallPc}
    (hpc : ∀ e, pc.Carries e → e.Sound s.finds s.node.world) : (s.moved t pc).Inv := by
  refine ⟨h.node, h.keyed, fun u e he => ?_, h.logged⟩
  by_cases hu : u = t
  · exact hpc e (by simpa [Traffic.moved, hu] using he)
  · exact h.carried u e (by simpa [Traffic.moved, hu] using he)

/-- What a lookup finds is put on record. -/
theorem Inv.record (h : s.Inv) (sender : Sender) (strMsg : List UInt8)
    (hne : (sender.find s.node.world).1 ≠ -1) :
    (s.record (s.errand sender strMsg)).Inv
      ∧ (s.errand sender strMsg).Sound (s.record (s.errand sender strMsg)).finds
        s.node.world := by
  have hself := h.node.descends.self
  have hopen : ∀ req, sender = .dispatch req → ∃ c, (s.errand sender strMsg).found = some c := by
    rintro req rfl
    exact Node.find_open h.node req hne
  unfold Traffic.record
  -- onDispatch finds a connection; onResponse may have been called with any number
  cases hfound : (s.errand sender strMsg).found with
  | none =>
      rw [Option.map_none, Option.toList_none, List.append_nil]
      refine ⟨h, h.node.descends, hself, hopen, fun c hc => ?_, fun c hc => ?_⟩
      · exact absurd (hfound.symm.trans hc) (by simp)
      · exact absurd (hfound.symm.trans hc) (by simp)
  | some d =>
      have hd : s.node.world.fds (sender.find s.node.world).1 = some d := hfound
      obtain ⟨hhandle, hfor⟩ := Node.find_for h.node sender hd
      have hkeyed : s.node.world.Keyed (s.finds ++ [⟨d, sender, strMsg⟩]) :=
        h.keyed.add h.node.descends h.node.routed (by rw [hhandle, hd]) hfor
      refine ⟨⟨h.node, hkeyed, fun t e he => (h.carried t e he).behind,
        fun p hp => ⟨(h.logged p hp).errand.behind, (h.logged p hp).direct⟩⟩,
        h.node.descends, hself, hopen, fun c hc => ?_, fun c hc => ?_⟩
      · obtain rfl := Option.some.inj (hfound.symm.trans hc)
        exact List.mem_append_right _ (List.mem_singleton_self _)
      · obtain rfl := Option.some.inj (hfound.symm.trans hc)
        exact hfor

/-- ConnMgr::write is called. -/
theorem Inv.write (h : s.Inv) {e : Errand} (he : e.Sound s.finds s.node.world) :
    (s.write e).Inv := by
  have hstep : s.node.step (.write e.handle e.strMsg)
      = some (s.node.write e.handle e.strMsg).2 := rfl
  have hworld := (Node.step_world h.node hstep).imp Eq.symm id
  have hnode := h.move (h.node.step hstep) hworld
  refine ⟨hnode.node, hnode.keyed, hnode.carried, fun p hp => ?_⟩
  have hcase : p ∈ s.log ∨ ∃ c, s.node.world.fds e.handle = some c ∧ p = ⟨e, c⟩ := by
    simp only [Traffic.write] at hp
    split at hp
    · rcases List.mem_append.mp hp with hp | hp
      · exact Or.inl hp
      · obtain ⟨c, hc, rfl⟩ := Option.map_eq_some_iff.mp (Option.mem_toList.mp hp)
        have hopen : s.node.world.mConn e.handle = some c := hc
        exact Or.inr ⟨c, by rw [← h.node.descends.tracked.recorded, hopen], rfl⟩
    · exact Or.inl hp
  rcases hcase with hold | ⟨c, hc, rfl⟩
  · exact hnode.logged p hold
  · exact ⟨he.move hworld, he.descends.old _ c hc⟩

/-- **Every step** keeps the invariant. -/
theorem Inv.step (h : s.Inv) {st : TrafficStep} (hstep : s.step st = some s') : s'.Inv := by
  cases st with
  | node st =>
      obtain ⟨node, hnode, rfl⟩ := Option.map_eq_some_iff.mp hstep
      exact h.move (h.node.step hnode) ((Node.step_world h.node hnode).imp Eq.symm id)
  | lookup t sender strMsg =>
      obtain ⟨hworld, hlooked, -⟩ := Node.looked_spec h.node sender
      simp only [Traffic.step] at hstep
      split at hstep
      next =>
        split at hstep
        next =>
          obtain rfl := Option.some.inj hstep
          exact h.move hlooked hworld
        next hne =>
          obtain rfl := Option.some.inj hstep
          obtain ⟨hrecord, hsound⟩ := h.record sender strMsg hne
          refine (hrecord.move hlooked hworld).moved t ?_
          rintro e rfl
          exact hsound.move hworld
      next => exact absurd hstep (by simp)
  | isExist t =>
      simp only [Traffic.step] at hstep
      split at hstep
      next e ht =>
        obtain rfl := Option.some.inj hstep
        refine h.moved t fun e' he' => h.carried t e' ?_
        rw [ht]
        -- it goes on with the same call, or with none
        split at he'
        · exact he'
        · exact absurd he' (fun no => no)
      next => exact absurd hstep (by simp)
  | write t =>
      simp only [Traffic.step] at hstep
      split at hstep
      next e ht =>
        obtain rfl := Option.some.inj hstep
        have hwrite := h.write (h.carried t e (by rw [ht]; exact rfl))
        exact hwrite.moved t fun _ he' => absurd he' (fun no => no)
      next => exact absurd hstep (by simp)

/-! ## §5. What the invariant says. -/

/-- **A message reaches one connection, or nobody**: a lookup and a question of isExist touch
no output side; and if the write of a call returns 0, the frame is behind the stream of one
open connection, the one found by the lookup or, when that has closed, one opened since.  What
onDispatch has looked up was an open connection. -/
structure Reaching (s : Traffic) : Prop where
  lookup : ∀ t sender strMsg s', s.step (.lookup t sender strMsg) = some s' →
    s'.node.outs = s.node.outs ∧ s'.node.world.fds = s.node.world.fds
  isExist : ∀ t s', s.step (.isExist t) = some s' → s'.node = s.node
  found : ∀ t e req, s.thread t = .writing e → e.sender = .dispatch req →
    ∃ c, e.found = some c ∧ e.sender.For e.looked c
  write : ∀ t e, s.thread t = .writing e →
    s.node.Reaches (fun c => c.handle = e.handle ∧ e.Meets s.node.world c) e.strMsg
      (s.node.write e.handle e.strMsg)

theorem Inv.reaching (h : s.Inv) : s.Reaching := by
  have hcarried : ∀ t e, s.thread t = .writing e → e.Sound s.finds s.node.world :=
    fun t e ht => h.carried t e (by rw [ht]; exact rfl)
  refine ⟨fun t sender strMsg s' hstep => ?_, fun t s' hstep => ?_, fun t e req ht hreq => ?_,
    fun t e ht => ?_⟩
  · have hfds := (Node.looked_spec h.node sender).2.2
    simp only [Traffic.step] at hstep
    split at hstep
    next =>
      split at hstep
      · obtain rfl := Option.some.inj hstep
        exact ⟨rfl, hfds⟩
      · obtain rfl := Option.some.inj hstep
        exact ⟨rfl, hfds⟩
    next => exact absurd hstep (by simp)
  · simp only [Traffic.step] at hstep
    split at hstep
    next =>
      obtain rfl := Option.some.inj hstep
      rfl
    next => exact absurd hstep (by simp)
  · obtain ⟨c, hc⟩ := (hcarried t e ht).opens req hreq
    exact ⟨c, hc, (hcarried t e ht).asked c hc⟩
  · obtain ⟨haccepted, hrefused, hkept⟩ := Node.write_reaches h.node e.handle e.strMsg
    refine ⟨fun hzero => ?_, hrefused, hkept⟩
    obtain ⟨c, hc, hhandle, hstream⟩ := haccepted hzero
    exact ⟨c, hc, ⟨hhandle, (hcarried t e ht).meets (hhandle ▸ hc)⟩, hstream⟩

/-- **Keys are kept apart**: every message that was accepted went to the connection that its
lookup found, or to one opened since; of those that went to the connection found, no two for
different route keys went to the same one, and the servers that list it are under the key. -/
structure KeysApart (s : Traffic) : Prop where
  direct : ∀ p ∈ s.log, p.Direct ∨ p.errand.looked.nextId ≤ p.conn.id
  oneKey : ∀ p ∈ s.log, ∀ p' ∈ s.log, p.Direct → p'.Direct → ∀ key key',
    p.conn.id = p'.conn.id → p.errand.sender = .dispatch (.route key) →
    p'.errand.sender = .dispatch (.route key') → key = key'
  under : ∀ p ∈ s.log, p.Direct → ∀ key, p.errand.sender = .dispatch (.route key) →
    s.node.world.OnlyUnder p.conn.id key

theorem Inv.keysApart (h : s.Inv) : s.KeysApart := by
  have hfound : ∀ p ∈ s.log, p.Direct →
      (⟨p.conn, p.errand.sender, p.errand.strMsg⟩ : Posting) ∈ s.finds :=
    fun p hp hdirect => (h.logged p hp).errand.found p.conn hdirect
  refine ⟨fun p hp => (h.logged p hp).direct, ?_, ?_⟩
  · intro p hp p' hp' hdirect hdirect' key key' hid hkey hkey'
    exact h.keyed.oneKey _ (hfound p hp hdirect) _ (hfound p' hp' hdirect') key key' hid hkey hkey'
  · intro p hp hdirect key hkey
    exact h.keyed.under _ (hfound p hp hdirect) key hkey

/-- **Nothing in between**: the steps of a call, one after the other, do what the call of Node
does.  It ends early when the lookup gives -1 or isExist does not know the descriptor. -/
theorem undisturbed (s : Traffic) {t : Nat} (ht : s.thread t = .idle) (sender : Sender)
    (strMsg : List UInt8) :
    ∃ call s', call <+: [.lookup t sender strMsg, .isExist t, .write t]
      ∧ replay Traffic.step s call = some s'
      ∧ s'.node = (sender.send strMsg s.node).2 ∧ s'.thread = s.thread := by
  have hback : ∀ pc, Function.update (Function.update s.thread t pc) t .idle = s.thread := by
    intro pc
    rw [Function.update_idem, ← ht, Function.update_eq_self]
  rw [Sender.send_eq]
  by_cases hne : (sender.find s.node.world).1 = -1
  · refine ⟨[.lookup t sender strMsg], { s with node := s.node.looked sender }, ⟨_, rfl⟩,
      replay_one (by simp [step, ht, hne]), ?_, rfl⟩
    simp [Node.onResponse, Node.looked, hne]
  · -- the call has a descriptor, and asks isExist about it
    let e := s.errand sender strMsg
    let s₁ := ({ s with node := s.node.looked sender }.record e).moved t (.looked e)
    have hlook : s.step (.lookup t sender strMsg) = some s₁ := by
      simp [step, ht, hne, s₁, e]
    have hlooked : s₁.thread t = .looked e := Function.update_self ..
    by_cases hex : ConnMgr.isExist e.handle s₁.node.world = true
    · let s₂ := s₁.moved t (.writing e)
      have hasked : s₁.step (.isExist t) = some s₂ := by
        simp only [step, hlooked, hex, if_true, s₂]
      have hwriting : s₂.thread t = .writing e := Function.update_self ..
      have hwrite : s₂.step (.write t) = some ((s₂.write e).moved t .idle) := by
        simp only [step, hwriting]
      refine ⟨_, _, List.prefix_refl _, replay_cons.mpr ⟨s₁, hlook, replay_cons.mpr ⟨s₂, hasked,
        replay_one hwrite⟩⟩, ?_, ?_⟩
      · have hfound : Node.onResponse e.handle strMsg (s.node.looked sender)
            = (s.node.looked sender).write e.handle strMsg := if_pos ⟨hne, hex⟩
        exact (congrArg Prod.snd hfound).symm
      · show Function.update (Function.update (Function.update s.thread t _) t _) t .idle = _
        rw [Function.update_idem, hback]
    · have hasked : s₁.step (.isExist t) = some (s₁.moved t .idle) := by
        simp only [step, hlooked, hex]
        rfl
      refine ⟨[.lookup t sender strMsg, .isExist t], _, ⟨[.write t], rfl⟩,
        replay_cons.mpr ⟨s₁, hlook, replay_one hasked⟩, ?_, hback _⟩
      have hlost : Node.onResponse e.handle strMsg (s.node.looked sender)
          = (-1, s.node.looked sender) := if_neg fun h => hex h.2
      exact (congrArg Prod.snd hlost).symm

end Traffic

/-- **A message reaches one connection, or nobody**, in every state of every run, whatever
comes between the steps of its call. -/
theorem dispatch_reaches (steps : List TrafficStep) :
    Always Traffic.step Traffic.Reaching Traffic.start steps :=
  Along.always (fun _ _ _ _ h hstep => Traffic.Inv.step h hstep) (fun _ h => h.reaching) steps
    Traffic.start Traffic.Inv.start (along_true steps Traffic.start)

/-- **Messages for different route keys are kept apart**, in every state of every run: unless
a connection has closed between the lookup of a message and its write. -/
theorem keys_kept_apart (steps : List TrafficStep) :
    Always Traffic.step Traffic.KeysApart Traffic.start steps :=
  Along.always (fun _ _ _ _ h hstep => Traffic.Inv.step h hstep) (fun _ h => h.keysApart) steps
    Traffic.start Traffic.Inv.start (along_true steps Traffic.start)

/-- A connection of key 1 closes before the write, and a server of key 2 gets its descriptor:
the message goes there. -/
example :
    (replay Traffic.step Traffic.start
      [.node (.managers (.addSvr .dial 1 (10, 80))),
        .lookup 0 (.dispatch (.route 1)) [0x41], .isExist 0, .node (.managers (.closed 3)),
        .node (.managers (.addSvr .dial 2 (11, 80))), .write 0]).map
      (fun s => s.log.map fun p => (p.conn.id, p.conn.peer)) = some [(1, (11, 80))] := rfl

end TcpFramework
