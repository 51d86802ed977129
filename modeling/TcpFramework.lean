import TcpFramework.Lib.Assignment
import TcpFramework.Lib.Handout
import TcpFramework.Lib.Lines
import TcpFramework.Lib.LockOrder
import TcpFramework.Lib.RoundRobin
import TcpFramework.Lib.StepSystem
import TcpFramework.Lib.StreamSplit
import TcpFramework.Lib.Unordered
import TcpFramework.MessageBlock
import TcpFramework.ParsePkg
import TcpFramework.HandleInput
import TcpFramework.Reassembly
import TcpFramework.ReceiveLoop
import TcpFramework.HandleOutput
import TcpFramework.OutStream
import TcpFramework.FlowControl
import TcpFramework.DATask
import TcpFramework.PayloadAccessors
import TcpFramework.RoundTrip
import TcpFramework.PayloadLimit
import TcpFramework.WriteMask
import TcpFramework.Timers
import TcpFramework.TimerDelivery
import TcpFramework.Managers
import TcpFramework.ConnTables
import TcpFramework.RoutingTables
import TcpFramework.RouteUpdate
import TcpFramework.Stream
import TcpFramework.RemoteService
import TcpFramework.MalformedItems
import TcpFramework.EndOfStream
import TcpFramework.Dispatch
import TcpFramework.ServerRotation
import TcpFramework.UpdateEffects
import TcpFramework.UpdateRouter
import TcpFramework.Reconnection
import TcpFramework.Recovery
import TcpFramework.ServerConns
import TcpFramework.Finalize
import TcpFramework.Requests
import TcpFramework.WorkQueue
import TcpFramework.HandleLookup
import TcpFramework.Node
import TcpFramework.Opening
import TcpFramework.Shutdown
import TcpFramework.Link
import TcpFramework.Exchange
import TcpFramework.Traffic
import TcpFramework.Network
import TcpFramework.NetworkDelivery
import TcpFramework.Locks
import TcpFramework.IdMgr
import TcpFramework.MysqlResult
