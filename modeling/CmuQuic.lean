import CmuQuic.Machine
import CmuQuic.IntrusiveList
import CmuQuic.Multimap
import CmuQuic.LinkedHashMap
import CmuQuic.ServiceQueue
import CmuQuic.EpollServer
import CmuQuic.Registry
import CmuQuic.ReadyList
import CmuQuic.EpollSet
import CmuQuic.EventPhase
import CmuQuic.StaleBits
import CmuQuic.Unregistration
import CmuQuic.Teardown
import CmuQuic.Alarms
import CmuQuic.AlarmTokens
import CmuQuic.AlarmRound
import CmuQuic.AlarmService
import CmuQuic.AlarmTeardown
import CmuQuic.PollTimeout
import CmuQuic.RegisteredCount
import CmuQuic.TimeWaitList
import CmuQuic.TimeWaitPeriod
import CmuQuic.Dispatcher
import CmuQuic.DispatcherSteps
import CmuQuic.Routing
import CmuQuic.ResponseQueue
import CmuQuic.SessionOwnership
import CmuQuic.TimeWaitManager
import CmuQuic.TimeWaitNotes
import CmuQuic.ResponseBackoff
import CmuQuic.PacketPath
import CmuQuic.Shutdown
import CmuQuic.BlockedWriters
import CmuQuic.Sockets
import CmuQuic.SocketAccounting
import CmuQuic.PerfServer
import CmuQuic.DatagramSocket
import CmuQuic.OneDescriptor
import CmuQuic.ServerLoop
import CmuQuic.ClientLoop
import CmuQuic.EventLoop
import CmuQuic.Punctuality
import CmuQuic.PerfReports
import CmuQuic.SessionLifetime
import CmuQuic.TcpPerf
