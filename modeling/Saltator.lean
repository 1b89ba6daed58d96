import Saltator.Core.PowerOrder
import Saltator.Core.Keyed
import Saltator.Room.Anchor
import Saltator.Room.OldestFirst
import Saltator.Room.Reported
import Saltator.Room.Tail
import Saltator.Room.Redaction
import Saltator.Shard.Batching
import Saltator.User.Deactivation
import Saltator.Room.Overlap
import Saltator.Shard.Consistency
import Saltator.Cluster.Remote
import Saltator.User.Backups
import Saltator.User.Limits
import Saltator.User.Uia
import Saltator.Cluster.BlobMovement
import Saltator.Cluster.Uploads
import Saltator.Cluster.Takeover
import Saltator.Cluster.Lifecycle
import Saltator.Federation.Drain
import Saltator.Federation.HeadOfLine
import Saltator.Federation.ToDevice
import Saltator.Federation.QueryText
import Saltator.Client.Keys
import Saltator.Client.Resolvable
import Saltator.Client.Rebuild
import Saltator.Client.Reauth
import Saltator.Client.AppservicePush
import Saltator.Client.SenderPower
import Saltator.Federation.Media
import Saltator.Client.Surroundings
import Saltator.Client.DeviceLists
import Saltator.Client.Restricted
import Saltator.Core.Subgraph
import Saltator.Cluster.Churn
import Saltator.Core.CachedChains
import Saltator.Core.Mainline
import Saltator.Core.Globs
import Saltator.Cluster.Liveness
import Saltator.Shard.Bounds
import Saltator.Client.Hierarchy
