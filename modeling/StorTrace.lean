import StorTrace.Lib.BpfMap
import StorTrace.Lib.FillMap
import StorTrace.Lib.Lifetime
import StorTrace.Lib.Duration
import StorTrace.Common.Filter
import StorTrace.BlockTrace.Probes
import StorTrace.BlockTrace.RqCache
import StorTrace.BlockTrace.Lifetime
import StorTrace.BlockTrace.Module
import StorTrace.BlockTrace.Report
import StorTrace.BlockTrace.Telescope
import StorTrace.BlockTrace.RequestRun
import StorTrace.BlockTrace.Stages
import StorTrace.BlockTrace.Determined
import StorTrace.BlockTrace.BioPass
import StorTrace.Ext4Dio.Program
import StorTrace.Ext4Dio.StartTime
import StorTrace.Ext4Dio.LatestIo
import StorTrace.Ext4Dio.Completion
import StorTrace.Ext4Dio.Module
import StorTrace.Ext4Dio.Durations
import StorTrace.RequestLifetimes
import StorTrace.Ext4Dio.Registration
import StorTrace.Ext4Dio.Delivery
import StorTrace.Lib.Multimap
import StorTrace.Collector.HashJoin
import StorTrace.Ext4Dio.Report
import StorTrace.Ext4Dio.Join
import StorTrace.Ext4Dio.RequestStages
import StorTrace.Ext4Dio.Aligned
import StorTrace.Lib.Starts
import StorTrace.Config.Env
import StorTrace.Config.Setup
import StorTrace.TaskSelection
import StorTrace.FileSelection
import StorTrace.Lib.System
import StorTrace.Lib.Assembly
import StorTrace.Logger.Meta
import StorTrace.Logger.Machine
import StorTrace.Logger.Steps
import StorTrace.Logger.Buffers
import StorTrace.Logger.Sync
import StorTrace.Logger.Contents
import StorTrace.Lib.Text
import StorTrace.Collector.LogCollecter
import StorTrace.Logger.Reload
import StorTrace.Collector.WindowTotals
import StorTrace.Collector.QueueReports
import StorTrace.Config.Interval
import StorTrace.Viewer.HeatmapPage
import StorTrace.DiskHeatmaps
import StorTrace.Collector.Counts
import StorTrace.Viewer.EventCount
import StorTrace.Lib.FileTree
import StorTrace.Viewer.Flow
import StorTrace.Lib.SortedFold
import StorTrace.Collector.Statistics
import StorTrace.Lib.Stamped
import StorTrace.Ext4Dio.RecordOrder
import StorTrace.Collector.TimeOrder
import StorTrace.BlockTrace.Statistics
import StorTrace.BlockTrace.RowOrder
import StorTrace.Ext4Dio.SlowEvents
import StorTrace.Ext4Dio.FileNames
import StorTrace.Viewer.TimeBuckets
import StorTrace.Collector.HeatmapWidth
import StorTrace.Collector.Histogram
import StorTrace.Collector.MergeRate
import StorTrace.Collector.RwRate
import StorTrace.Collector.Matching
import StorTrace.Collector.TableRead
import StorTrace.Logger.SubmissionQueue
import StorTrace.Viewer.DriveList
import StorTrace.Lib.JsString
import StorTrace.Viewer.LatencyPage
import StorTrace.Lib.Binary64
import StorTrace.Lib.Neighbours
import StorTrace.Digestible.Tdigest
import StorTrace.Digestible.Samples
import StorTrace.Digestible.Quantile
import StorTrace.Ext4Dio.QuantileRun
import StorTrace.Lib.Ledger
import StorTrace.Logger.Progress
import StorTrace.Pipeline.TraceMode
import StorTrace.Pipeline.Schedule
import StorTrace.Pipeline.DirectIo
import StorTrace.Pipeline.Requests
import StorTrace.Pipeline.BlockTrace
import StorTrace.Lib.Turnover
import StorTrace.Ext4Dio.Turnover
import StorTrace.RequestTurnover
import StorTrace.Viewer.Charts
import StorTrace.Viewer.BlockReport
import StorTrace.Pipeline.BlockReport
import StorTrace.Viewer.HeatmapReport
import StorTrace.Viewer.HeatmapDrives
import StorTrace.Viewer.ThroughputPage
import StorTrace.Viewer.FlowReport
