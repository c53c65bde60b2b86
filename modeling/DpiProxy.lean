import DpiProxy.Packet.Split.Theorems
import DpiProxy.Packet.Fragment.Theorems
import DpiProxy.Packet.Fake.Theorems
import DpiProxy.Tls.Record.Theorems
import DpiProxy.Relay.Theorems
import DpiProxy.Engine.Reassembly
import DpiProxy.Engine.Verdicts
import DpiProxy.Engine.Straddle
import DpiProxy.Flow.Lemmas
import DpiProxy.Packet.Delivery
import DpiProxy.Engine.Segmentation
import DpiProxy.Transparent.Hello.Chunking
import DpiProxy.Transparent.Plan.Theorems
import DpiProxy.Transparent.Decisions.File
import DpiProxy.Transparent.Daemon.Network
import DpiProxy.Transparent.Daemon.Store
import DpiProxy.Transparent.Conn.Theorems
import DpiProxy.Engine.Restart
import DpiProxy.Transparent.Windows.Idle
import DpiProxy.Dns.Exchange
import DpiProxy.Dns.Health
import DpiProxy.Dns.Cache.Refinement
import DpiProxy.Transparent.Dnsfwd.Theorems
import DpiProxy.Transparent.Quic.Theorems
import DpiProxy.Transparent.Saving.Theorems
import DpiProxy.MainPacket.Escape
import DpiProxy.Relay.Straddle
import DpiProxy.Transparent.Hello.Names
import DpiProxy.Tls.Complete
import DpiProxy.Transparent.Passthrough
import DpiProxy.Strategy.Lookup
import DpiProxy.Strategy.Config.Malformed
import DpiProxy.Discovery.Cache.File
import DpiProxy.Transparent.Decisions.Timed
import DpiProxy.Transparent.Decisions.Fresh
import DpiProxy.Dns.Order
import DpiProxy.Dns.Response
import DpiProxy.Transparent.Dnsfwd.Limits
import DpiProxy.Packet.SplitV6.Theorems
import DpiProxy.Flow.Lru
import DpiProxy.Relay.Pump.Streams
import DpiProxy.Transparent.Daemon.Verifier
import DpiProxy.Dns.Reverse
import DpiProxy.Dns.Doh.Theorems
import DpiProxy.Engine.HttpSegmentation
import DpiProxy.Http.Host
import DpiProxy.Packet.Checksum.Core
import DpiProxy.Transparent.Suffixes
import DpiProxy.Socks.Theorems
import DpiProxy.Transparent.Dnsfwd.Tcp
import DpiProxy.Transparent.Macos.FailOpen
import DpiProxy.Transparent.Macos.Ends
import DpiProxy.Dns.Doh.Pool
import DpiProxy.MainPacket.InForce
import DpiProxy.Transparent.Server.Interception
import DpiProxy.Discovery.Probe.Theorems
import DpiProxy.Discovery.Probe.Runs
