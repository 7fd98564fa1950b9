import Call45Aggr.MergeConservation
import Call45Aggr.PauseProtocol
import Call45Aggr.MergePurge
import Call45Aggr.MergeCutoff
import Call45Aggr.MergeArithmetic
import Call45Aggr.MergeBatching
import Call45Aggr.ExactlyOnce
import Call45Aggr.LinkCompleteness
import Call45Aggr.LegCompleteness
import Call45Aggr.OnlineWatcher
import Call45Aggr.OnlineGate
import Call45Aggr.ExecOnce
import Call45Aggr.Puller
import Call45Aggr.DbPool
import Call45Aggr.LogInstance
import Call45Aggr.HealthRegister
import Call45Aggr.CallDuration
import Call45Aggr.ReportRow
import Call45Aggr.CyclicTask
import Call45Aggr.PullWorker
import Call45Aggr.Thread
import Call45Aggr.PullQueries
import Call45Aggr.SettingsRoundTrip
import Call45Aggr.SettingsParse
import Call45Aggr.ConfigPage
import Call45Aggr.UrlQuery
import Call45Aggr.BaseData
import Call45Aggr.ObjLists
import Call45Aggr.Trace
import Call45Aggr.OnlineNotification
import Call45Aggr.WatcherSocket
import Call45Aggr.RowMemory
import Call45Aggr.CallDirection
import Call45Aggr.EmittedRows
import Call45Aggr.TimestampOrder
import Call45Aggr.DelayAccounting
import Call45Aggr.ErrorHistory
import Call45Aggr.PoolLoans
import Call45Aggr.PoolExpiry
import Call45Aggr.ReduceSelect
import Call45Aggr.CountersLoader
import Call45Aggr.TimedVector
import Call45Aggr.TimePeriods
import Call45Aggr.Base64
import Call45Aggr.NumberParsing
import Call45Aggr.Timer
import Call45Aggr.SpeedLimiter
import Call45Aggr.Library.Multimap
import Call45Aggr.LifeSpan
import Call45Aggr.ReplaceAllSubs
import Call45Aggr.Splitting
import Call45Aggr.SplitTo
import Call45Aggr.IntegralValues
import Call45Aggr.UrlDecode
import Call45Aggr.JsonExport
import Call45Aggr.ExtractRange
import Call45Aggr.ResultCursor
import Call45Aggr.StringStreambuf
import Call45Aggr.ParamQuery
import Call45Aggr.Allocator
import Call45Aggr.Pipeline
import Call45Aggr.Backpressure
import Call45Aggr.Eviction
import Call45Aggr.Sessions
import Call45Aggr.TableCopy
import Call45Aggr.LogFiles
import Call45Aggr.MergeJoin
import Call45Aggr.WebPages
import Call45Aggr.Library.Delimited
import Call45Aggr.WebServer
import Call45Aggr.OutputOrder
import Call45Aggr.TraceTree
import Call45Aggr.LogPage
import Call45Aggr.HealthPage
import Call45Aggr.Library.Pacing
import Call45Aggr.Bandwidth
import Call45Aggr.GateProgress
import Call45Aggr.Shutdown
import Call45Aggr.Library.Ledger
import Call45Aggr.ResultOwnership
import Call45Aggr.Library.LockedObject
import Call45Aggr.WatcherLock
