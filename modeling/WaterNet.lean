import WaterNet.Lib.Machine
import WaterNet.Lib.Pool
import WaterNet.Tcp.Directed
import WaterNet.Tcp.Confinement
import WaterNet.Traffic.Delivery
import WaterNet.Lifetime.Handles
import WaterNet.Blocking.Wakeup
import WaterNet.Ids
import WaterNet.Lib.Fifo
import WaterNet.Queue.RingOrder
import WaterNet.Queue.LinkOvertaking
import WaterNet.Traffic.Exact
import WaterNet.Traffic.Values
import WaterNet.Receive
import WaterNet.Traffic.Queues
import WaterNet.Limits
import WaterNet.Tcp.Untrusted
import WaterNet.Loopback
import WaterNet.Traffic.Forwarding
import WaterNet.Tcp.Connector
import WaterNet.Timespec
import WaterNet.RawMessage.Access
import WaterNet.RawMessage.Typed
import WaterNet.RawMessage.Shared
import WaterNet.Queue.Cache
import WaterNet.Queue.LinkOwner
import WaterNet.Queue.LinkCounters
import WaterNet.Traffic.Typed
import WaterNet.Lifetime.Locking
import WaterNet.Lib.Pipe
import WaterNet.Traffic.Provenance
import WaterNet.Tcp.Fabric.Step
import WaterNet.Tcp.Fabric.Carriage
import WaterNet.Tcp.Fabric.Origin
import WaterNet.Tcp.Fabric.Reach
import WaterNet.Tcp.Listener
import WaterNet.Tcp.LostConnection
import WaterNet.Traffic.Poll
