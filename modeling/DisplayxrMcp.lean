import DisplayxrMcp.Aggregator.Isolation
import DisplayxrMcp.Aggregator.Coherence
import DisplayxrMcp.Aggregator.Upstream
import DisplayxrMcp.Aggregator.Membership
import DisplayxrMcp.Server.Handshake
import DisplayxrMcp.Log.Text
import DisplayxrMcp.Capture.Handoff
import DisplayxrMcp.Stdio.Ndjson
import DisplayxrMcp.Stdio.Chunking
import DisplayxrMcp.Stdio.RoundTrip
import DisplayxrMcp.Wire.Frame
import DisplayxrMcp.Stdio.Bridge
import DisplayxrMcp.Wire.Integrity
import DisplayxrMcp.Aggregator.Stall
import DisplayxrMcp.Pair.Agreement
import DisplayxrMcp.Server.Embedder
import DisplayxrMcp.Server.Lifecycle
import DisplayxrMcp.Aggregator.Exposure
import DisplayxrMcp.Audit.Rotation
import DisplayxrMcp.Wire.Grammar
import DisplayxrMcp.Stdio.Flatten
import DisplayxrMcp.Aggregator.Responses
import DisplayxrMcp.Aggregator.Renaming
import DisplayxrMcp.Aggregator.OwnPrefix
import DisplayxrMcp.Aggregator.Attribution
import DisplayxrMcp.Allowlist.Policy
import DisplayxrMcp.Transport.Sessions
import DisplayxrMcp.Server.Discipline
import DisplayxrMcp.Stdio.Simulation
import DisplayxrMcp.Stdio.Printed
import DisplayxrMcp.Server.Bridged
import DisplayxrMcp.Workspace.Settled
import DisplayxrMcp.Workspace.Lists
