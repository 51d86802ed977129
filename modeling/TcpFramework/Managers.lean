/-
  TcpFramework.Managers — ConnMgr, SvrMgr and ProxyMgr.

  ConnMgr maps the descriptor of every connection to its handler, SvrMgr maps a backend
  server to the descriptors connected to it, and ProxyMgr maps a route key to its
  servers.  The three call one another: an addSvr connects, a connection that opens
  enters ConnMgr and the SvrMgr entry of its peer, and a closeSvr runs handle_close,
  which leaves both.

  Each set of the source is shadowed by a vector that getConn, getSvrConn and reBuild
  index.  tVisitTime, the log lines and the mutexes are left out: an operation here is
  one atomic step.
-/
import Mathlib.Logic.Function.Basic
import Mathlib.Logic.Function.Iterate
import TcpFramework.Lib.StepSystem
import TcpFramework.Lib.Unordered

namespace TcpFramework

/-! ## §1. The tables. -/

/-- PAIR_SVR_INFO: ip and port. -/
abbrev Addr := UInt32 × UInt16

/-- Who opened a connection: the acceptor, or ConnMgr's connector. -/
inductive Origin where
  | accepted
  | connected
  deriving DecidableEq

/-- A connection's handler: its identity, its descriptor and its peer. -/
structure DASvcHandler where
  id : Nat
  handle : Int
  peer : Addr
  origin : Origin
  deriving DecidableEq

/-- SvrMgr::STATUS. -/
inductive STATUS where
  | normal
  | unnormal
  | unknown
  deriving DecidableEq

/-- SvrMgr::SServer. -/
structure SServer where
  nPos : UInt64 := 0
  eStat : STATUS := .normal
  handles : UnorderedSet Int := .empty
  handleList : List Int := []

/-- ProxyMgr::SProxy. -/
structure SProxy where
  dwPos : UInt64 := 0
  servers : UnorderedSet Addr := .empty
  serverList : List Addr := []

/-- The three managers, over the connections that are open.  `mConn` and `mapSvr` are
never iterated, so finite maps without an order do for them. -/
structure World where
  /-- The operating system's view: the open connection that has a descriptor. -/
  fds : Int → Option DASvcHandler
  /-- The next identity. -/
  nextId : Nat
  mConn : Int → Option DASvcHandler
  mapSvr : Addr → Option SServer
  mapProxy : UnorderedMap Int SProxy

/-- Nothing is open, nothing is registered. -/
def World.start : World := ⟨fun _ => none, 0, fun _ => none, fun _ => none, .empty⟩

/-- What the environment decides during an operation: the outcome of a connect, with the
descriptor it gets, and where insertions land in the unordered containers. -/
structure Env where
  connect : Addr → (Int → Option DASvcHandler) → Option Int
  fresh : ∀ a fds h, connect a fds = some h → 0 ≤ h ∧ fds h = none
  keyPlace : Placement Int
  svrPlace : Placement Addr
  handlePlace : Placement Int

/-- Every connect succeeds, on the lowest free descriptor from 3 to 9. -/
def Env.dial : Env where
  connect := fun _ fds => [3, 4, 5, 6, 7, 8, 9].find? fun h => (fds h).isNone
  fresh := by
    intro a fds h hfind
    have hm := List.mem_of_find?_eq_some hfind
    have hnone := List.find?_some hfind
    refine ⟨?_, by simpa using hnone⟩
    simp only [List.mem_cons, List.not_mem_nil, or_false] at hm
    omega
  keyPlace := .front
  svrPlace := .front
  handlePlace := .front

/-- No connect succeeds. -/
def Env.refuse : Env where
  connect := fun _ _ => none
  fresh := by simp
  keyPlace := .front
  svrPlace := .front
  handlePlace := .front

/-! ## §2. SvrMgr. -/

namespace SvrMgr

/-- `addSvr`. -/
def addSvr (a : Addr) (w : World) : World :=
  match w.mapSvr a with
  | none => { w with mapSvr := Function.update w.mapSvr a (some {}) }
  | some _ => w

/-- `rmSvr`. -/
def rmSvr (a : Addr) (w : World) : World :=
  { w with mapSvr := Function.update w.mapSvr a none }

/-- `addSvrConn`. -/
def addSvrConn (env : Env) (a : Addr) (handle : Int) (w : World) : World :=
  match w.mapSvr a with
  | none => w
  | some s =>
      if handle ∈ s.handles then w
      else
        { w with mapSvr := Function.update w.mapSvr a (some { s with
            handles := s.handles.insert env.handlePlace handle
            handleList := s.handleList ++ [handle] }) }

/-- `rmSvrConn`. -/
def rmSvrConn (a : Addr) (handle : Int) (w : World) : World :=
  match w.mapSvr a with
  | none => w
  | some s =>
      if handle ∈ s.handles then
        { w with mapSvr := Function.update w.mapSvr a (some { s with
            handles := s.handles.erase handle
            handleList := (s.handles.erase handle).elems }) }
      else w

/-- `getConn`: the next handle of the server in turn, or -1. -/
def getConn (a : Addr) (w : World) : Int × World :=
  match w.mapSvr a with
  | none => (-1, w)
  | some s =>
      if s.eStat = .unnormal then (-1, w)
      else
        match s.handleList[s.nPos.toNat % s.handleList.length]? with
        | none => (-1, w)
        | some handle =>
            (handle, { w with mapSvr := Function.update w.mapSvr a (some { s with
              nPos := s.nPos + 1 }) })

/-- `isSvrExist`. -/
def isSvrExist (a : Addr) (w : World) : Bool := (w.mapSvr a).isSome

/-- `getHandleNum`. -/
def getHandleNum (a : Addr) (w : World) : Int :=
  match w.mapSvr a with
  | none => -1
  | some s => s.handleList.length

end SvrMgr

/-! ## §3. ConnMgr. -/

namespace ConnMgr

/-- `addConn`. -/
def addConn (env : Env) (svc : DASvcHandler) (w : World) : World :=
  SvrMgr.addSvrConn env svc.peer svc.handle
    (match w.mConn svc.handle with
      | none => { w with mConn := Function.update w.mConn svc.handle (some svc) }
      | some _ => w)

/-- `rmConn`. -/
def rmConn (peerAddr : Addr) (svc : DASvcHandler) (w : World) : World :=
  if svc.handle = -1 then w
  else
    SvrMgr.rmSvrConn peerAddr svc.handle
      { w with mConn := Function.update w.mConn svc.handle none }

/-- `isExist`. -/
def isExist (handle : Int) (w : World) : Bool := (w.mConn handle).isSome

/-- `write`: the handler whose `write(strMsg)` is called, or `none` for -2. -/
def write (handle : Int) (w : World) : Option DASvcHandler := w.mConn handle

end ConnMgr

/-- `SVCMgr::onResponse`: the handler that the reply is written to. -/
def SVCMgr.onResponse (handle : Int) (w : World) : Option DASvcHandler :=
  if handle ≠ -1 ∧ ConnMgr.isExist handle w = true then ConnMgr.write handle w else none

/-- `handle_close`: rmConn, then the handler is destroyed and its descriptor closed. -/
def DASvcHandler.handleClose (svc : DASvcHandler) (w : World) : World :=
  { ConnMgr.rmConn svc.peer svc w with fds := Function.update w.fds svc.handle none }

/-- A connection is established on a free descriptor and `open` records it. -/
def World.establish (env : Env) (handle : Int) (peer : Addr) (origin : Origin) (w : World) :
    World :=
  ConnMgr.addConn env ⟨w.nextId, handle, peer, origin⟩
    { w with
      fds := Function.update w.fds handle (some ⟨w.nextId, handle, peer, origin⟩)
      nextId := w.nextId + 1 }

namespace ConnMgr

/-- `close`: the handler's `close`, or -2 when the descriptor is unknown. -/
def close (handle : Int) (w : World) : Int × World :=
  match w.mConn handle with
  | some svc => (0, svc.handleClose w)
  | none => (-2, w)

/-- `connect`. -/
def connect (env : Env) (a : Addr) (w : World) : Int × World :=
  match env.connect a w.fds with
  | none => (-1, w)
  | some handle => (0, w.establish env handle a .connected)

end ConnMgr

namespace SvrMgr

/-- `connSvr`. -/
def connSvr (env : Env) (a : Addr) (w : World) : Int × World := ConnMgr.connect env a w

/-- `closeSvr`: the handles are copied first, then closed one by one. -/
def closeSvr (a : Addr) (w : World) : World :=
  match w.mapSvr a with
  | none => w
  | some s => s.handles.elems.foldl (fun w handle => (ConnMgr.close handle w).2) w

end SvrMgr

/-! ## §4. ProxyMgr. -/

namespace ProxyMgr

/-- The first lines of `addSvr`: the key is created when it is not there. -/
def ensureKey (env : Env) (key : Int) (w : World) : World :=
  match w.mapProxy.find key with
  | none => { w with mapProxy := w.mapProxy.insert env.keyPlace key {} }
  | some _ => w

/-- `addSvr`.  The key is created even when the server is then refused. -/
def addSvr (env : Env) (key : Int) (a : Addr) (w : World) : Bool × World :=
  let w₁ := ensureKey env key w
  match w₁.mapProxy.find key with
  | none => (false, w₁)
  | some p =>
      if a ∈ p.servers then (false, w₁)
      else if SvrMgr.isSvrExist a w₁ then (false, w₁)
      else
        let w₂ := (SvrMgr.connSvr env a (SvrMgr.addSvr a w₁)).2
        (true, { w₂ with mapProxy := w₂.mapProxy.modify key fun p => { p with
          servers := p.servers.insert env.svrPlace a
          serverList := p.serverList ++ [a] } })

/-- closeSvr and rmSvr of one server, as rmSvr and updateProxy call them. -/
def dropSvr (a : Addr) (w : World) : World := SvrMgr.rmSvr a (SvrMgr.closeSvr a w)

/-- `rmSvr`; it returns true in every case. -/
def rmSvr (key : Int) (a : Addr) (w : World) : World :=
  match w.mapProxy.find key with
  | none => w
  | some p =>
      if a ∈ p.servers then
        let w₁ := dropSvr a w
        { w₁ with mapProxy := w₁.mapProxy.modify key fun p => { p with
          servers := p.servers.erase a
          serverList := (p.servers.erase a).elems } }
      else w

/-- `++dwPos`. -/
def nextPos (key : Int) (w : World) : World :=
  { w with mapProxy := w.mapProxy.modify key fun p => { p with dwPos := p.dwPos + 1 } }

/-- The loop of `getSvrConn`, with `n` servers to ask.  It does not stop at a handle that
it finds: the last answer counts. -/
def getSvrConnLoop (key : Int) : Nat → Int → World → Int × World
  | 0, handle, w => (handle, w)
  | n + 1, handle, w =>
      match w.mapProxy.find key with
      | none => (handle, w)
      | some p =>
          let w₁ := nextPos key w
          match p.serverList[(p.dwPos + 1).toNat % p.serverList.length]? with
          | none => (handle, w₁)
          | some a => getSvrConnLoop key n (SvrMgr.getConn a w₁).1 (SvrMgr.getConn a w₁).2

/-- `getSvrConn`. -/
def getSvrConn (routeKey : Int) (w : World) : Int × World :=
  match w.mapProxy.find routeKey with
  | none => (-1, w)
  | some p => getSvrConnLoop routeKey p.serverList.length (-1) w

/-- One turn of the trimming loop of `reBuild`. -/
def trimSvr (a : Addr) (w : World) : World :=
  if (SvrMgr.getConn a w).1 ≠ -1 then
    SvrMgr.rmSvrConn a (SvrMgr.getConn a w).1 (SvrMgr.getConn a w).2
  else (SvrMgr.getConn a w).2

/-- What `reBuild` does for one server: reconnect at no handle, trim at more than three. -/
def reBuildSvr (env : Env) (a : Addr) (w : World) : World :=
  if SvrMgr.getHandleNum a w = 0 then (SvrMgr.connSvr env a w).2
  else if SvrMgr.getHandleNum a w > 3 then
    (trimSvr a)^[(SvrMgr.getHandleNum a w - 3).toNat] w
  else w

/-- `reBuild`. -/
def reBuild (env : Env) (w : World) : World :=
  w.mapProxy.keys.elems.foldl
    (fun w key =>
      match w.mapProxy.find key with
      | none => w
      | some p => p.serverList.foldl (fun w a => reBuildSvr env a w) w)
    w

/-- A routing as `updateProxy` takes it. -/
abbrev Target := UnorderedMap Int (UnorderedSet Addr)

/-- The first loop of `updateProxy`: addSvr of everything in the target. -/
def addRoutes (env : Env) (mapSvrs : Target) (w : World) : World :=
  mapSvrs.keys.elems.foldl
    (fun w key =>
      match mapSvrs.find key with
      | none => w
      | some svrs => svrs.elems.foldl (fun w a => (addSvr env key a w).2) w)
    w

/-- A turn of the partial deletion: a server that the target does not have goes. -/
def pruneSvr (svrs : UnorderedSet Addr) (key : Int) (w : World) (a : Addr) : World :=
  if a ∈ svrs then w
  else
    let w₁ := dropSvr a w
    { w₁ with mapProxy := w₁.mapProxy.modify key fun p => { p with
      servers := p.servers.erase a } }

/-- The second loop of `updateProxy` at one key: all of it, or a part of it, is deleted. -/
def pruneKey (mapSvrs : Target) (w : World) (key : Int) : World :=
  match w.mapProxy.find key with
  | none => w
  | some p =>
      match mapSvrs.find key with
      | none =>
          let w₁ := p.servers.elems.foldl (fun w a => dropSvr a w) w
          { w₁ with mapProxy := w₁.mapProxy.erase key }
      | some svrs =>
          let w₁ := p.servers.elems.foldl (pruneSvr svrs key) w
          { w₁ with mapProxy := w₁.mapProxy.modify key fun p => { p with
            serverList := p.servers.elems } }

/-- `updateProxy`. -/
def updateProxy (env : Env) (mapSvrs : Target) (w : World) : World :=
  (addRoutes env mapSvrs w).mapProxy.keys.elems.foldl (pruneKey mapSvrs)
    (addRoutes env mapSvrs w)

end ProxyMgr

/-! ## §5. Runs. -/

/-- The atomic operations before finalize. -/
inductive Op where
  /-- The acceptor opens a connection on a free descriptor. -/
  | accept (env : Env) (handle : Int) (peer : Addr)
  /-- The open connection with this descriptor closes. -/
  | closed (handle : Int)
  | addSvr (env : Env) (key : Int) (a : Addr)
  | rmSvr (key : Int) (a : Addr)
  | updateProxy (env : Env) (mapSvrs : ProxyMgr.Target)
  | reBuild (env : Env)
  | getSvrConn (routeKey : Int)
  | getConn (a : Addr)

/-- One atomic operation; `none` when there is no such descriptor to open or to close. -/
def World.step (w : World) : Op → Option World
  | .accept env handle peer =>
      if 0 ≤ handle ∧ w.fds handle = none then some (w.establish env handle peer .accepted)
      else none
  | .closed handle =>
      match w.fds handle with
      | none => none
      | some svc => some (svc.handleClose w)
  | .addSvr env key a => some (ProxyMgr.addSvr env key a w).2
  | .rmSvr key a => some (ProxyMgr.rmSvr key a w)
  | .updateProxy env mapSvrs => some (ProxyMgr.updateProxy env mapSvrs w)
  | .reBuild env => some (ProxyMgr.reBuild env w)
  | .getSvrConn routeKey => some (ProxyMgr.getSvrConn routeKey w).2
  | .getConn a => some (SvrMgr.getConn a w).2

end TcpFramework
