import PolicyProbe.Echo
import PolicyProbe.Agent.Closing
import PolicyProbe.Agent.Registration
import PolicyProbe.Main
import PolicyProbe.Client.Pings
import PolicyProbe.Manager.Calls
import PolicyProbe.Worker.Handle
import PolicyProbe.Proofs.Agent.AddServer
import PolicyProbe.Proofs.Agent.StartServers
import PolicyProbe.Proofs.Agent.Registration
import PolicyProbe.Proofs.Desired.Backends
import PolicyProbe.Proofs.Manager.Starts
import PolicyProbe.Proofs.Manager.Workers
import PolicyProbe.Proofs.Recorder.Conservation
import PolicyProbe.Proofs.Instant.Text
import PolicyProbe.Proofs.Identifier
import PolicyProbe.Proofs.Json.Tagged
import PolicyProbe.Proofs.Record
import PolicyProbe.Proofs.Settings
import PolicyProbe.Proofs.Worker.Forms
import PolicyProbe.Proofs.Wire
import PolicyProbe.Proofs.Json.Plain
import PolicyProbe.Proofs.Instant.Order
import PolicyProbe.Proofs.Worker.Launch
import PolicyProbe.Proofs.Archive.Queries
import PolicyProbe.Proofs.Worker.Forwarding
import PolicyProbe.Proofs.Desired.Content
import PolicyProbe.Proofs.Agent.Updates
import PolicyProbe.Proofs.Agent.Retry
import PolicyProbe.Proofs.Agent.Interleaving
import PolicyProbe.Proofs.Worker.Process
import PolicyProbe.Proofs.Manager.Confined
import PolicyProbe.Proofs.Manager.Stops
import PolicyProbe.Proofs.Agent.Isolation
import PolicyProbe.Proofs.Archive.Damage
import PolicyProbe.Proofs.Agent.Faults
import PolicyProbe.Proofs.Agent.Life
import PolicyProbe.Proofs.Agent.Closing
import PolicyProbe.Proofs.Agent.Shutdown
import PolicyProbe.Proofs.Client
import PolicyProbe.Proofs.Client.Pings
import PolicyProbe.Proofs.Desired.Merging
import PolicyProbe.Proofs.Agent.Steps
import PolicyProbe.Proofs.Recorder.Draining
import PolicyProbe.Proofs.Archive.Sessions
import PolicyProbe.Desired.Transaction
import PolicyProbe.Proofs.Desired.Transaction
import PolicyProbe.Proofs.Worker.Verdict
import PolicyProbe.Proofs.Worker.Tasks
import PolicyProbe.Proofs.Worker.Waiting
import PolicyProbe.Proofs.Recorder.Sharing
import PolicyProbe.Proofs.Manager.Causes
import PolicyProbe.Proofs.Manager.Log
import PolicyProbe.Proofs.Path
import PolicyProbe.Proofs.Agent.Refusals
import PolicyProbe.Proofs.Agent.Liveness
import PolicyProbe.Proofs.Agent.Log
import PolicyProbe.Proofs.Agent.Validation
import PolicyProbe.Proofs.Agent.StartClients
import PolicyProbe.Proofs.Archive.FanOut
import PolicyProbe.Proofs.Archive.Copies
import PolicyProbe.Proofs.Manager.Indifference
import PolicyProbe.Proofs.Json.Order
import PolicyProbe.Proofs.Json.Variants
import PolicyProbe.Proofs.WireOrder
import PolicyProbe.Proofs.Policy.Actions
import PolicyProbe.Proofs.Worker.Lock
import PolicyProbe.Proofs.Echo
import PolicyProbe.Proofs.Ping
