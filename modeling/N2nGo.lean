import N2nGo.Analysis.CommunityHash
import N2nGo.Analysis.MacData
import N2nGo.Analysis.Totality
import N2nGo.Analysis.Removals
import N2nGo.Analysis.CommunityThreads
import N2nGo.Analysis.Cleanup
import N2nGo.Analysis.Pipeline
import N2nGo.Analysis.Management
import N2nGo.Analysis.Handshake
import N2nGo.Analysis.HostComments
import N2nGo.Analysis.SupernodeURL
import N2nGo.Analysis.LogRange
import N2nGo.Analysis.FastPath
import N2nGo.Analysis.FullState
import N2nGo.Analysis.Identity
import N2nGo.Analysis.P2PThreads
import N2nGo.Analysis.Addresses
import N2nGo.Analysis.Refusals
import N2nGo.Analysis.OfflineCache
import N2nGo.Analysis.StatusFlags
import N2nGo.Analysis.ListSync
import N2nGo.Analysis.Routing
import N2nGo.Analysis.Requests
import N2nGo.Analysis.FrameLayout
import N2nGo.Analysis.PeerView
import N2nGo.Analysis.Assignment
import N2nGo.Analysis.HostOrder
import N2nGo.Analysis.PortMappings
import N2nGo.Analysis.PeerPairs
