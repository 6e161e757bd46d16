import BddsBroker.Lib.Machine
import BddsBroker.Lib.Tally
import BddsBroker.Lib.Lists
import BddsBroker.Lib.Tickets
import BddsBroker.Lib.Permits
import BddsBroker.Lib.Fifos
import BddsBroker.Lib.Links
import BddsBroker.Lib.RwLock
import BddsBroker.Lib.Mutex
import BddsBroker.Lib.Segments
import BddsBroker.Lib.FixedBuffer
import BddsBroker.Lib.Program
import BddsBroker.Lib.Pending
import BddsBroker.Lib.FirstWins
import BddsBroker.Lib.Upsert
import BddsBroker.Lib.PropertyTree
import BddsBroker.Lib.JsonText
import BddsBroker.Lock.TaskLock
import BddsBroker.Lock.Exclusion
import BddsBroker.Lock.Preference
import BddsBroker.Lock.WakeUp
import BddsBroker.Lock.Linkage
import BddsBroker.Lock.ClientNumbers
import BddsBroker.Pool.ThreadPool
import BddsBroker.Pool.Order
import BddsBroker.Pool.Reentry
import BddsBroker.Queue.SubQueue
import BddsBroker.Queue.Claims
import BddsBroker.Queue.Taking
import BddsBroker.Queue.Semaphore
import BddsBroker.Queue.Blocking
import BddsBroker.Queue.Handoff
import BddsBroker.Queue.Finding
import BddsBroker.Queue.Order
import BddsBroker.Queue.FreeList
import BddsBroker.Queue.Custody
import BddsBroker.Queue.Obstruction
import BddsBroker.Queue.BlockPool
import BddsBroker.Queue.Storage
import BddsBroker.Queue.Reuse
import BddsBroker.Mqtt.Framing
import BddsBroker.Mqtt.Packet
import BddsBroker.Mqtt.Registry
import BddsBroker.Mqtt.Broker
import BddsBroker.Mqtt.Session
import BddsBroker.Mqtt.Changes
import BddsBroker.Mqtt.Effects
import BddsBroker.Mqtt.Dispatch
import BddsBroker.Mqtt.Run
import BddsBroker.Mqtt.Wire
import BddsBroker.Mqtt.Pubrel
import BddsBroker.Mqtt.Qos2
import BddsBroker.Mqtt.FanOut
import BddsBroker.Mqtt.Replies
import BddsBroker.Mqtt.Drain
import BddsBroker.Mqtt.Answers
import BddsBroker.Mqtt.Handover
import BddsBroker.Mqtt.Writers
import BddsBroker.Mqtt.AtMostOnce
import BddsBroker.Mqtt.SubackGate
import BddsBroker.Mqtt.OneWrite
import BddsBroker.Mqtt.Connections
import BddsBroker.Mqtt.Serial
import BddsBroker.Mqtt.ClientCount
import BddsBroker.Mqtt.Origins
import BddsBroker.Mqtt.Shutdown
import BddsBroker.Mqtt.Conservation
import BddsBroker.Mqtt.PublishOrder
import BddsBroker.Mqtt.Identifiers
import BddsBroker.Mqtt.Topics
import BddsBroker.Mqtt.Subscriptions
import BddsBroker.Mqtt.ClientSession
import BddsBroker.Mqtt.AssignedIds
import BddsBroker.Mqtt.FreshReplies
import BddsBroker.Mqtt.Frames
import BddsBroker.Dds.Message
import BddsBroker.Dds.Publisher
import BddsBroker.Dds.Listener
import BddsBroker.Dds.Loop
import BddsBroker.Dds.Samples
import BddsBroker.Dds.Bridge
import BddsBroker.Dds.InFlight
import BddsBroker.Dds.TwoPaths
import BddsBroker.Dds.Hop
import BddsBroker.Dds.TaskIds
import BddsBroker.Sbdp.Announcement
import BddsBroker.Sbdp.Reader
import BddsBroker.Sbdp.Discovery
import BddsBroker.Sbdp.Announcer
import BddsBroker.Sbdp.Network
import BddsBroker.Sbdp.Survival
import BddsBroker.Sbdp.Storage
import BddsBroker.Sbdp.Receive
import BddsBroker.Sbdp.Removal
import BddsBroker.Dds.FieldAccess
import BddsBroker.Dds.WireHop
import BddsBroker.Mqtt.Delivery
import BddsBroker.Dds.Cycles
import BddsBroker.Dds.Contents
import BddsBroker.Dds.Downstream
