import ITG.Ingest.Attributes
import ITG.Ingest.Deadlock
import ITG.Ingest.Framing
import ITG.Ingest.Handshake
import ITG.System.Leases
import ITG.Webrtc.Hub.Counts
import ITG.Webrtc.Hub.Progress
import ITG.Webrtc.Hub.Shutdown
import ITG.Webrtc.Hub.Unregister
import ITG.Webrtc.ReadLoop
import ITG.Webrtc.Rtcp
import ITG.Webrtc.Server.Api
import ITG.Frontend.Reconnect
import ITG.Ingest.Session
import ITG.System.Negotiation
import ITG.System.Convergence
import ITG.System.Departure
import ITG.System.Configured
import ITG.System.Wire
import ITG.Ingest.Service
