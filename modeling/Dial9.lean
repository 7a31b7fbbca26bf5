import Dial9.TraceFormat.Coherence
import Dial9.TraceFormat.Concatenation
import Dial9.TraceFormat.IndexedSafety
import Dial9.TraceFormat.Owned
import Dial9.TraceFormat.Reregister
import Dial9.TraceFormat.SinkSessions
import Dial9.Sampling.Lineage
import Dial9.Sampling.Wedge
import Dial9.Tokio.TraceAgreement
import Dial9.Tokio.MetadataFreshness
import Dial9.Tokio.SpanPairs
import Dial9.Tokio.TracedWakers
import Dial9.Tokio.DumpAccounts
import Dial9.Metrique.EventSchema
import Dial9.SelfProfile.SampleRing
import Dial9.SelfProfile.FreeMatching
import Dial9.Viewer.SymbolParity
import Dial9.Core.BumpDrain
import Dial9.Core.SegmentRuns
import Dial9.Viewer.FoldProtocol
import Dial9.Viewer.StreamCoverage
import Dial9.Viewer.SingleEventAgreement
import Dial9.Core.MemRing
import Dial9.Core.DumpWindow
import Dial9.Core.Pacing
import Dial9.Core.Complete
import Dial9.Viewer.WindowProgress
import Dial9.Viewer.BoundaryWindow
import Dial9.Viewer.Viewport
import Dial9.SelfProfile.QueueDrain
import Dial9.SelfProfile.PerfRing
import Dial9.SelfProfile.TracepointEncoding
import Dial9.Viewer.GapOrder
import Dial9.Viewer.Allocations
import Dial9.Core.SegmentFamily
import Dial9.Viewer.FetchParity
import Dial9.Sampling.CacheOrder
import Dial9.Sampling.Margin
import Dial9.Sampling.Listing
import Dial9.Viewer.KeyParity
import Dial9.Viewer.SpanSchemaNames
import Dial9.Viewer.SpanAttribution
import Dial9.Viewer.TailStatistics
import Dial9.Viewer.DurationHistogram
import Dial9.Viewer.MetadataHydrator
