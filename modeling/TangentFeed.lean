import TangentFeed.Core.Blockers
import TangentFeed.Replica.Convergence
import TangentFeed.Replica.ClockSafety
import TangentFeed.Replica.Atomicity
import TangentFeed.Replica.Compacted
import TangentFeed.Replica.Redelivery
import TangentFeed.Replica.Serialised
import TangentFeed.Replica.Robust
import TangentFeed.Replica.PeerRecords
import TangentFeed.Dart.Op
import TangentFeed.Replica.Drift
import TangentFeed.Replica.Acceptance
import TangentFeed.Schema.Declared
import TangentFeed.Network.Authentic
import TangentFeed.Network.Horizon
import TangentFeed.Network.Keys
import TangentFeed.Network.Healing
import TangentFeed.Network.Level
import TangentFeed.Network.Storm
import TangentFeed.Network.Transparent
import TangentFeed.Network.Reclamation
import TangentFeed.Signaling.Relay
import TangentFeed.Adapters.Peers
import TangentFeed.Adapters.Atomic
import TangentFeed.Adapters.Answers
import TangentFeed.Replica.Visible
import TangentFeed.React.UseRows
import TangentFeed.Dart.Watch
import TangentFeed.Core.UlidOrder
import TangentFeed.Dart.Strings
import TangentFeed.Dart.Replicator
import TangentFeed.WebRtc.ManualPair
import TangentFeed.WebRtc.Signals
import TangentFeed.WebRtc.Mesh
import TangentFeed.Dart.Twins
import TangentFeed.Dart.Cipher
import TangentFeed.Dart.OnDisk
import TangentFeed.Replica.Announced
import TangentFeed.Dart.Sqlite
