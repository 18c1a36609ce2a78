import Inventory.Text.LetterCase
import Inventory.Text.Quoted
import Inventory.Json.Reader
import Inventory.Json.Writer
import Inventory.Table
import Inventory.Edge
import Inventory.Graph.Snapshot
import Inventory.Catalog
import Inventory.Topology
import Inventory.ResultTree
import Inventory.Definition.Scope
import Inventory.Definition.Query
import Inventory.Topology.Descent
import Inventory.Topology.OfQuery
import Inventory.NamedQuery
import Inventory.Removal.Pass
import Inventory.Search.Tagged
import Inventory.Report
import Inventory.Service
import Inventory.Definition.Encoding
import Inventory.Storage.Store
import Inventory.Settings
import Inventory.CommandLine.Run
import Inventory.Main
import Inventory.Proofs.Graph.Reachable
import Inventory.Proofs.Graph.Reload
import Inventory.Proofs.Graph.History
import Inventory.Proofs.Rule.Dependence
import Inventory.Proofs.Rule.Accepted
import Inventory.Proofs.Rule.Guarded
import Inventory.Proofs.Removal.Cascade
import Inventory.Proofs.Removal.Calls
import Inventory.Proofs.Removal.ByRule
import Inventory.Proofs.Walk.Collected
import Inventory.Proofs.Walk.Legal
import Inventory.Proofs.Walk.Bounded
import Inventory.Proofs.Topology.Ordered
import Inventory.Proofs.Topology.Places
import Inventory.Proofs.Topology.Expansion
import Inventory.Proofs.Topology.Delivery
import Inventory.Proofs.Topology.Memo
import Inventory.Proofs.Topology.Reordered
import Inventory.Proofs.Topology.Flags
import Inventory.Proofs.Storage.Backends
import Inventory.Proofs.Walk.Stable
import Inventory.Proofs.Definition.Reading
import Inventory.Proofs.Topology.Cycle
import Inventory.Proofs.Storage.Loading
import Inventory.Proofs.Storage.Deletion
import Inventory.Proofs.Search.Hops
import Inventory.Proofs.Search.Tops
import Inventory.Proofs.Search.Gathered
import Inventory.Proofs.Graph.Listing
import Inventory.Proofs.Search.Levels
import Inventory.Proofs.Topology.Positions
import Inventory.Proofs.Topology.Keys
import Inventory.Proofs.Walk.Passed
import Inventory.Proofs.Topology.QueryPlaces
import Inventory.Proofs.Topology.Directives
import Inventory.Proofs.NamedQuery.Results
import Inventory.Proofs.NamedQuery.Rejected
import Inventory.Proofs.Topology.Depth
import Inventory.Proofs.Walk.Depth
import Inventory.Proofs.Storage.Refusal
import Inventory.Proofs.Storage.Saving
import Inventory.Proofs.CommandLine.Performing
import Inventory.Proofs.CommandLine.Files
import Inventory.Proofs.Storage.Commands
import Inventory.Proofs.Topology.Inside
import Inventory.Proofs.Walk.Decorated
import Inventory.Proofs.Search.Turned
import Inventory.Proofs.Search.Dual
import Inventory.Proofs.Json.Text
import Inventory.Proofs.Json.Number
import Inventory.Proofs.Json.ReadBack
import Inventory.Proofs.Json.Record
import Inventory.Proofs.DataFormat.Records
import Inventory.Proofs.DataFormat.Trees
import Inventory.Proofs.DataFormat.Transfer
import Inventory.Proofs.ResultTree.Collapsed
import Inventory.Proofs.Walk.Noted
import Inventory.Proofs.NamedQuery.Directed
import Inventory.Proofs.NamedQuery.Revealed
import Inventory.Proofs.Walk.Counted
import Inventory.Proofs.NamedQuery.Limited
import Inventory.Proofs.NamedQuery.Separate
import Inventory.Proofs.Topology.Scoped
import Inventory.Proofs.Search.FilterText
import Inventory.Proofs.NamedQuery.Joined
import Inventory.Proofs.Removal.Foreign
import Inventory.Proofs.Settings
import Inventory.Proofs.Topology.Linkage
import Inventory.Proofs.Definition.Single
import Inventory.Proofs.Topology.Standing
