/-
  TcpFramework.Locks — the locks of ProxyMgr, SvrMgr and ConnMgr.

  Each function is what it does with the four locks: a guard is a scope, and the conditions
  of branches and loops are dropped, so that every way through the source, and maybe more,
  is a path here.  A constructor or an early return inside a guard ends its scope.

  Main results:
    * `some_thread_goes_on` — whatever the threads have done, one of them can go on.
    * `locks_never_deadlock` — any threads that run any operations, in any interleaving.
      The order is ProxyMgr::m_mutex, ConnMgr::m_rmutex, and last the read/write locks of
      ConnMgr and SvrMgr, which no thread holds together.
-/
import TcpFramework.Lib.LockOrder

namespace TcpFramework

open StepSystem LockOrder

namespace Locks

/-! ## §1. The locks, and the functions that take them. -/

/-- The three m_mutex, read/write locks, and ConnMgr's recursive m_rmutex. -/
inductive Mutex where
  | proxyMutex
  | svrMutex
  | connMutex
  | connRmutex
  deriving DecidableEq

/-- ACE_Recursive_Thread_Mutex. -/
def Mutex.recursive : Mutex → Bool
  | .connRmutex => true
  | _ => false

/-- ACE_Read_Guard, ACE_Write_Guard, and ACE_Guard of a recursive lock. -/
def readGuard (l : Mutex) (body : Code Mutex) : Code Mutex := .scope l .read body

def writeGuard (l : Mutex) (body : Code Mutex) : Code Mutex := .scope l .write body

def rGuard (l : Mutex) (body : Code Mutex) : Code Mutex := .scope l .write body

/-- A branch with nothing to do on the other side. -/
def may (c : Code Mutex) : Code Mutex := .choice .skip c

namespace SvrMgr

def addSvr : Code Mutex := writeGuard .svrMutex .skip

def rmSvr : Code Mutex := writeGuard .svrMutex .skip

def addSvrConn : Code Mutex := writeGuard .svrMutex .skip

def rmSvrConn : Code Mutex := writeGuard .svrMutex .skip

def getConn : Code Mutex := readGuard .svrMutex .skip

def isSvrExist : Code Mutex := readGuard .svrMutex .skip

def getHandleNum : Code Mutex := readGuard .svrMutex .skip

end SvrMgr

namespace ConnMgr

def addConn : Code Mutex := .seq (writeGuard .connMutex .skip) SvrMgr.addSvrConn

/-- It returns at once for the handle -1. -/
def rmConn : Code Mutex :=
  may (.seq (rGuard .connRmutex (writeGuard .connMutex .skip)) SvrMgr.rmSvrConn)

def isExist : Code Mutex := writeGuard .connMutex .skip

def write : Code Mutex := readGuard .connMutex .skip

end ConnMgr

namespace DASvcHandler

/-- It records the connection, unless the open of the class above fails. -/
def «open» : Code Mutex := may ConnMgr.addConn

def handle_close : Code Mutex := ConnMgr.rmConn

/-- ACE_Svc_Handler::close runs handle_close. -/
def close : Code Mutex := handle_close

end DASvcHandler

namespace ConnMgr

/-- The handler is closed while the recursive lock is held. -/
def close : Code Mutex := rGuard .connRmutex (may DASvcHandler.close)

/-- The connector opens the handler, or closes it where the connect or the open fails. -/
def connect : Code Mutex :=
  .choice DASvcHandler.close (.seq DASvcHandler.open (may DASvcHandler.close))

end ConnMgr

namespace SvrMgr

/-- The handles are copied under the lock, and closed without it. -/
def closeSvr : Code Mutex := .seq (readGuard .svrMutex .skip) (.loop ConnMgr.close)

def connSvr : Code Mutex := ConnMgr.connect

end SvrMgr

namespace ProxyMgr

def addSvr : Code Mutex :=
  writeGuard .proxyMutex
    -- the key has the server already, or some key has it, or it is connected
    (may (.seq SvrMgr.isSvrExist (may (.seq SvrMgr.addSvr SvrMgr.connSvr))))

def rmSvr : Code Mutex :=
  writeGuard .proxyMutex (may (.seq SvrMgr.closeSvr SvrMgr.rmSvr))

def finalize : Code Mutex :=
  writeGuard .proxyMutex (.loop (.loop (.seq SvrMgr.closeSvr SvrMgr.rmSvr)))

/-- It takes no lock of its own. -/
def getSvrConn : Code Mutex := may (.loop SvrMgr.getConn)

def reBuild : Code Mutex :=
  writeGuard .proxyMutex (.loop (.loop (.seq SvrMgr.getHandleNum
    -- no handle, one to three, or more
    (may (.choice SvrMgr.connSvr (.loop (.seq SvrMgr.getConn (may SvrMgr.rmSvrConn))))))))

/-- Each addSvr has the lock for itself; the second half holds it throughout. -/
def updateProxy : Code Mutex :=
  .seq (.loop (.loop addSvr))
    (writeGuard .proxyMutex (.loop (.choice
      -- a key that the target does not have, and one that it has
      (.loop (.seq SvrMgr.closeSvr SvrMgr.rmSvr))
      (.loop (may (.seq SvrMgr.closeSvr SvrMgr.rmSvr))))))

end ProxyMgr

namespace SVCMgr

/-- What onDispatch and onResponse do with a handle. -/
def send : Code Mutex := may (.seq ConnMgr.isExist (may ConnMgr.write))

/-- By route key. -/
def onDispatch : Code Mutex := .seq ProxyMgr.getSvrConn send

/-- By address. -/
def onDispatchAddr : Code Mutex := .seq SvrMgr.getConn send

def onResponse : Code Mutex := send

end SVCMgr

/-! ## §2. What the threads run. -/

inductive Operation where
  | onDispatch
  | onDispatchAddr
  | onResponse
  | addSvr
  | rmSvr
  | updateProxy
  | reBuild
  | finalize
  | «open»
  | handle_close
  deriving DecidableEq

def Operation.code : Operation → Code Mutex
  | .onDispatch => SVCMgr.onDispatch
  | .onDispatchAddr => SVCMgr.onDispatchAddr
  | .onResponse => SVCMgr.onResponse
  | .addSvr => ProxyMgr.addSvr
  | .rmSvr => ProxyMgr.rmSvr
  | .updateProxy => ProxyMgr.updateProxy
  | .reBuild => ProxyMgr.reBuild
  | .finalize => ProxyMgr.finalize
  | .open => DASvcHandler.open
  | .handle_close => DASvcHandler.handle_close

/-- One operation after the other. -/
def program : List Operation → Code Mutex
  | [] => .skip
  | op :: ops => .seq op.code (program ops)

/-! ## §3. The order of the locks. -/

/-- Outermost first. -/
def Mutex.rank : Mutex → Nat
  | .proxyMutex => 0
  | .connRmutex => 1
  | .connMutex => 2
  | .svrMutex => 2

theorem Operation.ordered (op : Operation) :
    op.code.ordered Mutex.recursive Mutex.rank [] = true := by
  cases op <;> decide

theorem program_ordered (ops : List Operation) :
    (program ops).ordered Mutex.recursive Mutex.rank [] = true := by
  induction ops with
  | nil => rfl
  | cons op ops ih =>
      unfold program Code.ordered
      rw [op.ordered, ih]
      rfl

/-- Any threads, in any state that they reach. -/
theorem Operation.disciplined {programs : List (List Operation)} {s₀ s : List (Thread Mutex)}
    (hstart : Started (programs.map program) s₀) {schedule : List Nat}
    (h : replay (step Mutex.recursive) s₀ schedule = some s) :
    Disciplined Mutex.recursive Mutex.rank s := by
  have hcodes : ∀ c ∈ programs.map program,
      c.ordered Mutex.recursive Mutex.rank [] = true := by
    intro c hc
    obtain ⟨ops, -, rfl⟩ := List.mem_map.mp hc
    exact program_ordered ops
  exact hstart.reached hcodes h

/-- **Some thread can go on**, until all have done their operations. -/
theorem some_thread_goes_on {programs : List (List Operation)} {s₀ s : List (Thread Mutex)}
    (hstart : Started (programs.map program) s₀) {schedule : List Nat}
    (h : replay (step Mutex.recursive) s₀ schedule = some s) (hleft : ∃ t ∈ s, t.todo ≠ []) :
    ∃ i s', step Mutex.recursive s i = some s' :=
  (Operation.disciplined hstart h).progress hleft

/-- **The managers' locks never deadlock.**  In every state that any threads reach, none of
which held a lock at first, no set of threads wait for one another, and none waits for a
read/write lock of its own. -/
theorem locks_never_deadlock {programs : List (List Operation)} {s₀ s : List (Thread Mutex)}
    (hstart : Started (programs.map program) s₀) {schedule : List Nat}
    (h : replay (step Mutex.recursive) s₀ schedule = some s) :
    (∀ D, ¬ Deadlock s D)
      ∧ ∀ i l, l.recursive = false → Waits s i l → ¬ Holds s i l := by
  have hs := Operation.disciplined hstart h
  exact ⟨hs.no_deadlock, fun i l hl hwait => hs.not_own hl hwait⟩

/-- An rmSvr closes a connection of its server, and a handle_close on the reactor's thread
waits for the recursive lock meanwhile. -/
theorem locks_never_deadlock_closing :
    ∃ s₀ s, Started ([[Operation.rmSvr], [Operation.handle_close]].map program) s₀
      ∧ replay (step Mutex.recursive) s₀ [0, 0, 0, 0] = some s
      ∧ Holds s 0 .connRmutex ∧ Waits s 1 .connRmutex ∧ ∀ D, ¬ Deadlock s D := by
  have hrmConn : ConnMgr.rmConn.Path _ :=
    .right (.seq (.scope (.scope .skip)) (.scope .skip))
  have hclose : ConnMgr.close.Path _ := .scope (.right hrmConn)
  have hcloseSvr : SvrMgr.closeSvr.Path _ := .seq (.scope .skip) (.again hclose .done)
  have hrmSvr : ProxyMgr.rmSvr.Path _ := .scope (.right (.seq hcloseSvr (.scope .skip)))
  have hstart : Started ([[Operation.rmSvr], [Operation.handle_close]].map program)
      [⟨[], _⟩, ⟨[], _⟩] :=
    .cons ⟨rfl, .seq hrmSvr .skip⟩ (.cons ⟨rfl, .seq hrmConn .skip⟩ .nil)
  exact ⟨_, _, hstart, rfl, ⟨_, rfl, by decide⟩, rfl,
    (@locks_never_deadlock [[.rmSvr], [.handle_close]] _ _ hstart [0, 0, 0, 0] rfl).1⟩

end Locks

end TcpFramework
