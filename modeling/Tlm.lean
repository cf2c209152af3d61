import Tlm.Run
import Tlm.Store
import Tlm.Matching
import Tlm.Restart
import Tlm.Limiter
import Tlm.Table
import Tlm.Blanks
import Tlm.Shell
import Tlm.Block
import Tlm.Regex
import Tlm.Config
import Tlm.ConfigConversions
import Tlm.ConfigStore
import Tlm.Log
import Tlm.Escalation
import Tlm.SessionRemote
import Tlm.AuthSession
import Tlm.PamConversation
import Tlm.Session
import Tlm.SessionSpec
import Tlm.SessionTimers
import Tlm.SessionWatch
import Tlm.SessionPam
import Tlm.SessionExec
import Tlm.SessionAnnounce
import Tlm.Seat
import Tlm.SeatSpec
import Tlm.SeatRun
import Tlm.SeatInvariant
import Tlm.SeatHistory
import Tlm.SeatLogin
import Tlm.SeatSwitch
import Tlm.SeatAnswer
import Tlm.SeatCredentials
import Tlm.SeatPrecheck
import Tlm.SeatStop
import Tlm.SeatFailure
import Tlm.SeatThrottle
import Tlm.SeatUserName
import Tlm.SeatSocket
import Tlm.ConfigPrecedence
import Tlm.LinkedQueue
import Tlm.Observer
import Tlm.ObserverSpec
import Tlm.ObserverDispose
import Tlm.Environment
import Tlm.Watch
import Tlm.WatcherClimb
import Tlm.Paths
import Tlm.Watcher
import Tlm.WatcherTable
import Tlm.WatcherScan
import Tlm.WatcherEvent
import Tlm.WatcherRun
import Tlm.WatcherBatch
import Tlm.WatcherFinal
import Tlm.WatcherGuard
import Tlm.WatcherMoves
import Tlm.WatcherInvariant
import Tlm.Daemon
import Tlm.DaemonSpec
import Tlm.DaemonInvariant
import Tlm.DaemonRequest
import Tlm.DaemonReplies
import Tlm.DaemonSeats
import Tlm.DaemonLogins
import Tlm.DaemonTable
import Tlm.DaemonStop
import Tlm.DaemonShutdown
import Tlm.DaemonQuiet
import Tlm.DaemonLogind
import Tlm.DaemonRefs
import Tlm.ObserverNested
import Tlm.DaemonEnvironment
import Tlm.SeatWatchList
import Tlm.Reload
import Tlm.Script
import Tlm.ScriptBuffer
import Tlm.ScriptLines
import Tlm.LauncherTree
import Tlm.Launcher
import Tlm.CommandLine
import Tlm.Utmp
import Tlm.UserLookup
import Tlm.GuestAccount
import Tlm.DeleteDir
import Tlm.Channel
import Tlm.Sessiond
import Tlm.SessiondSpec
import Tlm.SessionLink
import Tlm.SessionLinkSpec
import Tlm.SessionLinkTalk
import Tlm.SessionLinkEnd
import Tlm.SessionLinkWait
import Tlm.SessionLinkRuns
import Tlm.References
import Tlm.DbusServer
import Tlm.DbusServerSpec
import Tlm.DbusServerClients
import Tlm.DbusServerRuns
import Tlm.SeatMoves
import Tlm.Replay
import Tlm.SeatActs
import Tlm.SeatPrepare
import Tlm.SeatOccupancy
import Tlm.SeatObservers
import Tlm.GuestRuns
import Tlm.Binding
import Tlm.SocketFiles
import Tlm.SeatHandles
