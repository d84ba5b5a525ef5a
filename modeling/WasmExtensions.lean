import WasmExtensions.LocalRateLimit.RateBound
import WasmExtensions.LocalRateLimit.Plugin
import WasmExtensions.LocalRateLimit.Availability
import WasmExtensions.OpenPolicyAgent.Hash
import WasmExtensions.OpenPolicyAgent.LeastRecentlyUsed
import WasmExtensions.OpenPolicyAgent.Streams
import WasmExtensions.OpenPolicyAgent.Decisions
import WasmExtensions.BasicAuth.QueryString
import WasmExtensions.BasicAuth.Reconfiguration
import WasmExtensions.BasicAuth.Credentials
import WasmExtensions.GrpcLogging.Shutdown
import WasmExtensions.AttributeGen.Consistency
import WasmExtensions.Stats.PeerAttribution
import WasmExtensions.Stats.HttpCounts
import WasmExtensions.Stats.OverrideMeaning
import WasmExtensions.Stats.MapOrder
import WasmExtensions.BasicAuth.Authority
import WasmExtensions.AttributeGen.Conditions
import WasmExtensions.AttributeGen.Generation
import WasmExtensions.GrpcLogging.Entries
import WasmExtensions.LocalRateLimit.Configure
import WasmExtensions.LocalRateLimit.Retries
import WasmExtensions.Delimited.Basic
import WasmExtensions.Stats.IndexRange
import WasmExtensions.Stats.MetricNames
import WasmExtensions.Common.ResponseFlagText
import WasmExtensions.Common.JsonNumbers
import WasmExtensions.Stats.WorkloadLabel
import WasmExtensions.Common.SanitizeBytes
import WasmExtensions.Common.Base64Safety
import WasmExtensions.ZigDemo.ParsePairs
import WasmExtensions.OpenPolicyAgent.Transparency
import WasmExtensions.OpenPolicyAgent.Configurations
import WasmExtensions.LocalRateLimit.Atomicity
import WasmExtensions.Stats.Isolation
import WasmExtensions.GrpcLogging.Exports
import WasmExtensions.AttributeGen.Meaning
import WasmExtensions.BasicAuth.Enforcement
import WasmExtensions.Stats.CacheCounters
import WasmExtensions.Stats.Totals
import WasmExtensions.Stats.Reconfiguration
import WasmExtensions.Common.ExtendedRequest
import WasmExtensions.ZigDemo.Language
import WasmExtensions.ZigDemo.Slices
