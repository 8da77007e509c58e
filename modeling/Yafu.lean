import Yafu.Lib.Transition
import Yafu.Lib.EventSource
import Yafu.Cluster.Registry
import Yafu.Controllers.Reconcile
import Yafu.Controllers.Freshness
import Yafu.Controllers.Availability
import Yafu.Controllers.Cadence
import Yafu.Lib.Glob
import Yafu.Auth.Policy
import Yafu.Auth.FailClosed
import Yafu.Auth.ReturnTo
import Yafu.Render.Coverage
import Yafu.Api.KustomizeDiff
import Yafu.Api.HelmDiff
import Yafu.Api.NonInterference
import Yafu.Lib.MergePatch
import Yafu.Lib.Linearize
import Yafu.Api.AuditTrail
import Yafu.Api.ConcurrentMutations
import Yafu.Watch.Delivery
import Yafu.Server.Chain
import Yafu.Api.LogDelivery
import Yafu.Api.EventFraming
import Yafu.Watch.Manager
import Yafu.Web.Rollback
import Yafu.Api.PartialSuccess
import Yafu.Api.OrderIndependence
import Yafu.Lib.ClockOrder
import Yafu.Api.EventFeed
import Yafu.Api.RollbackEffect
import Yafu.Web.LogView
import Yafu.Cluster.Ordered
import Yafu.Cluster.FileRegistry
import Yafu.Controllers.Coherence
import Yafu.Server.Observability
import Yafu.Server.Cardinality
import Yafu.Web.DepGraph
import Yafu.Web.Invalidation
import Yafu.Web.Queries
import Yafu.Watch.Reconnect
import Yafu.Watch.Backoff
import Yafu.Render.Artifact
import Yafu.Render.Hunks
import Yafu.Render.PathChecks
import Yafu.Render.DeepCopy
import Yafu.Render.Classification
import Yafu.Api.Revisions
import Yafu.Api.PodAttribution
import Yafu.Render.OwnerLabels
import Yafu.Api.LogTail
import Yafu.Api.LogAccess
import Yafu.Api.ProbeSummary
import Yafu.Api.ManifestWalk
import Yafu.Lib.Index
import Yafu.Web.DepJoin
import Yafu.Web.DepFilter
import Yafu.Controllers.ConditionHistory
import Yafu.Auth.StateCookie
import Yafu.Web.ImageStat
import Yafu.Web.Notifications
import Yafu.Web.Selection
import Yafu.Api.RowIds
import Yafu.Lib.BoundedPool
import Yafu.Api.BoundedFetch
import Yafu.Lib.Lines
import Yafu.Render.DocumentStream
import Yafu.Lib.PercentEncoding
import Yafu.Lib.RequestTarget
import Yafu.Lib.ServeMux
import Yafu.Server.Routing
import Yafu.Web.Urls
import Yafu.Auth.Middleware
import Yafu.Api.MutationCalls
import Yafu.Server.Mediation
import Yafu.Web.RowActions
import Yafu.Lib.JsonMarshal
import Yafu.Web.LiveStream
import Yafu.Server.AuditLog
import Yafu.Auth.SignIn
import Yafu.Lib.CookieJar
import Yafu.Web.Fetch
import Yafu.Web.SignIn
import Yafu.Web.DiffView
