import RustyWorkers.Lib.Machine
import RustyWorkers.Lib.KeyedTable
import RustyWorkers.Lib.Lex
import RustyWorkers.Lib.Utf8
import RustyWorkers.Lib.Like
import RustyWorkers.Lib.Multimap
import RustyWorkers.Lib.ExpiringMap
import RustyWorkers.Lib.LruCache
import RustyWorkers.Lib.LiveReads
import RustyWorkers.Lib.TypedArray
import RustyWorkers.Types
import RustyWorkers.AppKv
import RustyWorkers.Db
import RustyWorkers.DbRefine
import RustyWorkers.CmpUpdate
import RustyWorkers.HandleTask
import RustyWorkers.KvIsolation
import RustyWorkers.KvScan
import RustyWorkers.Io
import RustyWorkers.IoDeadlock
import RustyWorkers.IoCancel
import RustyWorkers.ProtectedCall
import RustyWorkers.FetchEvent
import RustyWorkers.Monitor
import RustyWorkers.Sched
import RustyWorkers.SchedSteps
import RustyWorkers.SchedHandles
import RustyWorkers.IsolateWorker
import RustyWorkers.MemoryPool
import RustyWorkers.IoCallbacks
import RustyWorkers.Executor
import RustyWorkers.ExecutionTokens
import RustyWorkers.FetchReplies
import RustyWorkers.Cluster
import RustyWorkers.Dispatch
import RustyWorkers.RuntimePool
import RustyWorkers.Retries
import RustyWorkers.Routes
import RustyWorkers.SchedCaches
import RustyWorkers.RouteCache
import RustyWorkers.CacheGc
import RustyWorkers.RouteLookup
import RustyWorkers.RouteSelection
import RustyWorkers.ResponseHeaders
import RustyWorkers.ReadyQueue
import RustyWorkers.CpuBudget
import RustyWorkers.CmpUpdateCall
import RustyWorkers.LiveBuffers
import RustyWorkers.PutGet
import RustyWorkers.ScanCursor
import RustyWorkers.IoBudget
import RustyWorkers.BodyLimits
import RustyWorkers.ThreadPool
import RustyWorkers.CacheRecency
import RustyWorkers.Lib.Arc
import RustyWorkers.NameTables
import RustyWorkers.Precheck
import RustyWorkers.RemoteBuffers
import RustyWorkers.RequestUrl
import RustyWorkers.RespondWith
import RustyWorkers.Timers
import RustyWorkers.Unpacking
import RustyWorkers.Lib.NumberText
import RustyWorkers.Url
import RustyWorkers.UrlParse
import RustyWorkers.UrlResolve
import RustyWorkers.UrlRoundTrip
import RustyWorkers.UrlSetters
import RustyWorkers.AppLog
import RustyWorkers.Deployments
import RustyWorkers.ForwardedRequest
import RustyWorkers.KvText
