import WireguardP2p.Lib.Runs
import WireguardP2p.Lib.Raising
import WireguardP2p.Lib.Dict
import WireguardP2p.Lib.Numerals
import WireguardP2p.Lib.Fencing
import WireguardP2p.Net.Address
import WireguardP2p.Net.AddressText
import WireguardP2p.Python.Value
import WireguardP2p.Net.Endpoint
import WireguardP2p.Candidates.Candidate
import WireguardP2p.Candidates.Policy
import WireguardP2p.Candidates.Selection
import WireguardP2p.Candidates.Gather
import WireguardP2p.Python.JsonText
import WireguardP2p.Python.Upper
import WireguardP2p.Python.Uuid
import WireguardP2p.Lib.SeenCache
import WireguardP2p.Notification.Signature
import WireguardP2p.Notification.Delivery
import WireguardP2p.Notification.Replay
import WireguardP2p.Coordinator.Announce
import WireguardP2p.Coordinator.Offer
import WireguardP2p.Agent.Validate
import WireguardP2p.Coordinator.Admissible
import WireguardP2p.Agent.Snapshot
import WireguardP2p.Client.Candidate
import WireguardP2p.Client.Selection
import WireguardP2p.Client.State
import WireguardP2p.Client.Reconcile
import WireguardP2p.Client.Goroutine
import WireguardP2p.Client.World
import WireguardP2p.Client.Steps
import WireguardP2p.Client.Ownership
import WireguardP2p.Client.Attended
import WireguardP2p.Client.Tracking
import WireguardP2p.Client.Disturbance
import WireguardP2p.Client.Evidence
import WireguardP2p.Coordinator.OwnSync
import WireguardP2p.Agent.Turns
import WireguardP2p.Agent.Ownership
import WireguardP2p.Agent.Launches
import WireguardP2p.Agent.Invariants
import WireguardP2p.Agent.Steps
import WireguardP2p.Agent.Fencing
import WireguardP2p.Agent.Attended
import WireguardP2p.Agent.Refresh
import WireguardP2p.Agent.Fields
import WireguardP2p.Agent.Sessions
import WireguardP2p.Agent.SessionOrder
import WireguardP2p.Agent.Routes
import WireguardP2p.Agent.RouteWorkers
import WireguardP2p.Agent.RouteRuns
import WireguardP2p.Agent.Leases
import WireguardP2p.Agent.LeaseRuns
import WireguardP2p.Agent.Freshness
import WireguardP2p.Agent.Orphans
import WireguardP2p.Net.Dump
import WireguardP2p.Agent.Dump
import WireguardP2p.Coordinator.Initiators
import WireguardP2p.Portmap.Mapper
import WireguardP2p.Portmap.Daemon
import WireguardP2p.Lib.Ranking
import WireguardP2p.Candidates.Fallback
import WireguardP2p.Coordinator.State
import WireguardP2p.Coordinator.Request
import WireguardP2p.Coordinator.Rejection
import WireguardP2p.Coordinator.World
import WireguardP2p.Coordinator.Steps
import WireguardP2p.Coordinator.Provenance
import WireguardP2p.Coordinator.Removals
import WireguardP2p.Coordinator.Redundancy
import WireguardP2p.Agent.Passes
import WireguardP2p.Agent.Keepalive
import WireguardP2p.Agent.Backoff
import WireguardP2p.Agent.BackoffRuns
import WireguardP2p.Agent.Startup
import WireguardP2p.Agent.Lives
import WireguardP2p.Agent.Baseline
import WireguardP2p.Agent.Generations
import WireguardP2p.Agent.Grants
import WireguardP2p.Agent.Initiator
import WireguardP2p.Agent.InitiatorRuns
import WireguardP2p.Candidates.Signature
import WireguardP2p.Protocol.NormalForm
import WireguardP2p.Portmap.Packets
import WireguardP2p.Candidates.Arrival
import WireguardP2p.Agent.Reorder
import WireguardP2p.Manager.Rollback
import WireguardP2p.Manager.Update
import WireguardP2p.Lib.FileTree
import WireguardP2p.Lib.RealPath
import WireguardP2p.Lib.Filepath
import WireguardP2p.Client.Extract
import WireguardP2p.Manager.Archive
import WireguardP2p.Coordinator.Registry
import WireguardP2p.Manager.Roles
import WireguardP2p.Python.UuidText
import WireguardP2p.Coordinator.Openings
import WireguardP2p.Coordinator.Closings
import WireguardP2p.Fleet.World
import WireguardP2p.Fleet.Agreement
import WireguardP2p.Agent.KeyOrder
import WireguardP2p.Fleet.Server
import WireguardP2p.Fleet.Requests
import WireguardP2p.Client.Unlisted
import WireguardP2p.Manager.RoleRuns
import WireguardP2p.Coordinator.WgPeers
import WireguardP2p.Manager.UpdateRuns
import WireguardP2p.Python.Unquote
import WireguardP2p.Coordinator.Updates
