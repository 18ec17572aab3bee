import TrustMap.Contracts.ContextBinding
import TrustMap.Contracts.ExperimentalCostedDirectVerifier
import TrustMap.Contracts.ProvableHistory
import TrustMap.Internal.PathAgreement
import TrustMap.Mapnode.Store.Planning
import TrustMap.Mapnode.Replay.LegacyExport
import TrustMap.Mapnode.Store.GossipIsolation
import TrustMap.Mapnode.Store.GraphInvariant
import TrustMap.Mapnode.Store.Lifecycle
import TrustMap.Mapnode.PathExecution
import TrustMap.Mapnode.Replay.RangeCheck
import TrustMap.Mapnode.EnvelopeWire
import TrustMap.Mapnode.Store.PlanHistory
import TrustMap.Mapnode.Store.ProvenEdges
import TrustMap.Mapnode.ReceiptAgreement
import TrustMap.Mapnode.Store.Attempts
import TrustMap.Mapnode.Store.Revision
import TrustMap.Mapnode.ContentAddress
import TrustMap.Mapnode.EventCodec
import TrustMap.Mapnode.Replay.Dependencies
import TrustMap.Mapnode.Replay.SearchScratch
import TrustMap.Mapnode.Replay.Resume
