import OnTaskGraph.Lts
import OnTaskGraph.History
import OnTaskGraph.TaskRunner
import OnTaskGraph.TaskChanges
import OnTaskGraph.TrackedTasks
import OnTaskGraph.ActiveTasks
import OnTaskGraph.Loops
import OnTaskGraph.PipeProgress
import OnTaskGraph.CancelTasks
import OnTaskGraph.Heartbeats
import OnTaskGraph.Leases
import OnTaskGraph.Checkouts
import OnTaskGraph.ResultFencing
import OnTaskGraph.LeaseScans
import OnTaskGraph.UnownedTasks
import OnTaskGraph.Workflows
import OnTaskGraph.SingleTarget
import OnTaskGraph.Evaluation
import OnTaskGraph.EvaluationChanges
import OnTaskGraph.GraphSuccess
import OnTaskGraph.GraphFailure
import OnTaskGraph.RecordedResults
import OnTaskGraph.PendingTasks
import OnTaskGraph.GraphFinished
import OnTaskGraph.TaskEvaluation
import OnTaskGraph.StreamErrors
import OnTaskGraph.EvaluatedTasks
import OnTaskGraph.CompletedTasks
import OnTaskGraph.FailGraphRetry
import OnTaskGraph.LostTasks
import OnTaskGraph.LostLeases
import OnTaskGraph.Pagination
import OnTaskGraph.MergeCompletion
import OnTaskGraph.ServiceGraphs
import OnTaskGraph.ServiceStarts
import OnTaskGraph.ServiceDuplicates
import OnTaskGraph.ServiceMigration
import OnTaskGraph.NodeDiscovery
import OnTaskGraph.SingleDiscovery
import OnTaskGraph.Search
import OnTaskGraph.SecureErase
import OnTaskGraph.RunnerStop
import OnTaskGraph.JsText
import OnTaskGraph.Sorting
import OnTaskGraph.SortedResponse
import OnTaskGraph.SchemaValidation
import OnTaskGraph.NodeRegistration
import OnTaskGraph.DiscoveryProxy
import OnTaskGraph.CancelRequests
import OnTaskGraph.DriveIds
import OnTaskGraph.DriveMap
import OnTaskGraph.DriveJoin
import OnTaskGraph.WholeDisks
import OnTaskGraph.SataDump
import OnTaskGraph.SataName
import OnTaskGraph.Bootstrap
import OnTaskGraph.CommandReports
import OnTaskGraph.ErasePool
import OnTaskGraph.Lookahead
import OnTaskGraph.HdparmStatus
import OnTaskGraph.JsObject
import OnTaskGraph.DefinitionLoading
import OnTaskGraph.Doubles
import OnTaskGraph.EraseProgress
import OnTaskGraph.JsonText
import OnTaskGraph.AristaCatalog
import OnTaskGraph.AgentRetries
import OnTaskGraph.EraseRun
import OnTaskGraph.TaskPolling
import OnTaskGraph.SwitchAgent
import OnTaskGraph.TaskRecovery
import OnTaskGraph.WorkflowRequests
import OnTaskGraph.JsonTree
import OnTaskGraph.SnmpShow
import OnTaskGraph.GraphRecovery
