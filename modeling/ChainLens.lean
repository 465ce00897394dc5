import ChainLens.Decode.Block
import ChainLens.Decode.BlockOutcome
import ChainLens.Decode.RoundTrip
import ChainLens.Store.Mixing
import ChainLens.Pipeline.Blend
import ChainLens.Indexer.Contiguity
import ChainLens.Indexer.FixedChain
import ChainLens.Indexer.FailStop
import ChainLens.Indexer.Bootstrap
import ChainLens.Indexer.NothingLost
import ChainLens.Intelligence.AtRest
import ChainLens.Decode.Truncation
import ChainLens.Indexer.Scheduler
import ChainLens.Reorg.Derived
import ChainLens.Store.Numbers
import ChainLens.Api.Handlers
import ChainLens.Startup.Drive
import ChainLens.Rpc.Node
import ChainLens.Intelligence.Amounts
import ChainLens.Intelligence.Relationships
import ChainLens.Intelligence.Clustering
import ChainLens.Rpc.Retry
import ChainLens.Rpc.Nullable
import ChainLens.Decode.Wire
import ChainLens.Rpc.Quantity
import ChainLens.Api.Lookup
import ChainLens.Library.Cut
import ChainLens.Intelligence.Export
import ChainLens.Api.Identifiers
import ChainLens.Intelligence.Mev
import ChainLens.Intelligence.Deployment
import ChainLens.Intelligence.Display
import ChainLens.Intelligence.Trends
import ChainLens.Api.Cache
import ChainLens.Pipeline.Sequencer
import ChainLens.Api.Invalidation
import ChainLens.Indexer.Surviving
import ChainLens.Indexer.Accounting
import ChainLens.Api.History
import ChainLens.Api.EndToEnd
import ChainLens.Intelligence.Provenance
import ChainLens.Indexer.Climb
import ChainLens.Indexer.OverNodes
import ChainLens.Indexer.ReceiptModes
