import ThreatIntel.Errors
import ThreatIntel.Runs
import ThreatIntel.InFlight
import ThreatIntel.Dict
import ThreatIntel.Routine
import ThreatIntel.Breaker
import ThreatIntel.BreakerWedge
import ThreatIntel.BreakerOpen
import ThreatIntel.Tokens
import ThreatIntel.Table
import ThreatIntel.Rewrite
import ThreatIntel.Regex
import ThreatIntel.PyText
import ThreatIntel.Json
import ThreatIntel.JsonRoundTrip
import ThreatIntel.Net
import ThreatIntel.Indicators
import ThreatIntel.IndicatorSpec
import ThreatIntel.IndicatorFixpoint
import ThreatIntel.Harvest
import ThreatIntel.Ioc
import ThreatIntel.Stix
import ThreatIntel.Csv
import ThreatIntel.Extract
import ThreatIntel.ExtractSpec
import ThreatIntel.ExtractErrors
import ThreatIntel.StixPattern
import ThreatIntel.StixRoundTrip
import ThreatIntel.Auth
import ThreatIntel.AuthSpec
import ThreatIntel.AuthRole
import ThreatIntel.TokenLifetime
import ThreatIntel.RefreshRace
import ThreatIntel.AdminRace
import ThreatIntel.Throttle
import ThreatIntel.ThrottleOutage
import ThreatIntel.ThrottleFleet
import ThreatIntel.Login
import ThreatIntel.LoginAudit
import ThreatIntel.LoginResponses
import ThreatIntel.Deactivation
import ThreatIntel.LoginRace
import ThreatIntel.Enrichment
import ThreatIntel.IntelDb
import ThreatIntel.Ingest
import ThreatIntel.IngestSpec
import ThreatIntel.UpsertSpec
import ThreatIntel.IngestBatch
import ThreatIntel.PhantomAlerts
import ThreatIntel.IngestHistory
import ThreatIntel.NewIocRules
import ThreatIntel.CollectorPaths
import ThreatIntel.SightingRace
import ThreatIntel.Address
import ThreatIntel.SlidingWindow
import ThreatIntel.RateLimit
import ThreatIntel.Rounding
import ThreatIntel.Scoring
import ThreatIntel.Explanation
import ThreatIntel.RegexScan
import ThreatIntel.Spans
import ThreatIntel.RegexLanguage
import ThreatIntel.IndicatorFormats
import ThreatIntel.RewriteBlocks
import ThreatIntel.Defang
import ThreatIntel.SameIndicator
import ThreatIntel.Earliest
import ThreatIntel.FirstAppearance
import ThreatIntel.ColumnLengths
import ThreatIntel.ScoreOrder
import ThreatIntel.Resighting
import ThreatIntel.RerunEnrichment
import ThreatIntel.ImportFacets
import ThreatIntel.HostNode
import ThreatIntel.EdgeProvenance
import ThreatIntel.PartialGraph
import ThreatIntel.FailureWindow
import ThreatIntel.RetryAfter
import ThreatIntel.RegexFence
import ThreatIntel.RegexFirst
import ThreatIntel.WhiteSpace
import ThreatIntel.PatternMatches
import ThreatIntel.ValueMatches
import ThreatIntel.TextHarvest
import ThreatIntel.TokenHistory
import ThreatIntel.LineCandidates
import ThreatIntel.ExtractLimit
import ThreatIntel.BreakerHistory
import ThreatIntel.EventBus
import ThreatIntel.EventQueues
import ThreatIntel.Like
import ThreatIntel.IocSearch
import ThreatIntel.ClientIp
import ThreatIntel.PipeTable
import ThreatIntel.Report
import ThreatIntel.Ssrf
import ThreatIntel.EnrichmentEngine
import ThreatIntel.PrivateSpace
import ThreatIntel.CsvWriter
import ThreatIntel.Exports
import ThreatIntel.CsvTransfer
import ThreatIntel.Walks
import ThreatIntel.Pivot
import ThreatIntel.Frames
import ThreatIntel.EventStream
import ThreatIntel.Budget
import ThreatIntel.ProviderClient
import ThreatIntel.Collectors
import ThreatIntel.CollectorFactory
import ThreatIntel.CollectorOutage
import ThreatIntel.Paging
import ThreatIntel.SearchPages
import ThreatIntel.Endpoints
import ThreatIntel.AccessControl
