import RustQueue.Channel.Coverage
import RustQueue.Channel.Floor
import RustQueue.Channel.Durability
import RustQueue.Channel.Overlap
import RustQueue.Storage.Append
import RustQueue.Storage.Recovery
import RustQueue.Topic.Gaps
import RustQueue.Topic.Expiry
import RustQueue.Topic.CacheBudget
import RustQueue.Topic.BatchFormat
import RustQueue.Topic.Timeouts
import RustQueue.Broker.Outbox
import RustQueue.Broker.PayloadReader
import RustQueue.Server.DeadLetter
import RustQueue.Broker.Fetch
import RustQueue.Server.Drain
import RustQueue.Server.Ephemeral
import RustQueue.Server.Leases
import RustQueue.Proxy.Kodo
import RustQueue.Proxy.Pool
import RustQueue.Management.Tombstones
import RustQueue.Management.Stored
import RustQueue.Broker.Sequence
import RustQueue.Discovery.Directory
import RustQueue.Operator.Rollout
import RustQueue.Protocol.Command
import RustQueue.Protocol.Mpub
