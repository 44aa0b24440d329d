import CamelMsmq.Runs
import CamelMsmq.Ledger
import CamelMsmq.LendingPool
import CamelMsmq.JavaBase
import CamelMsmq.NativeMessage
import CamelMsmq.NativeQueue
import CamelMsmq.QueueHandles
import CamelMsmq.Exchange
import CamelMsmq.Producer
import CamelMsmq.ProducerHandles
import CamelMsmq.ConsumerTask
import CamelMsmq.TaskSpec
import CamelMsmq.Consumer
import CamelMsmq.QueuePool
import CamelMsmq.HandOver
import CamelMsmq.Deliveries
import CamelMsmq.Relay
import CamelMsmq.Survival
import CamelMsmq.QueueObjects
import CamelMsmq.Shutdown
import CamelMsmq.StaleHandles
import CamelMsmq.Route
import CamelMsmq.StringRoundTrip
import CamelMsmq.ProducerSends
import CamelMsmq.ProducerSpec
import CamelMsmq.Payload
import CamelMsmq.ProducerThreads
import CamelMsmq.Restart
import CamelMsmq.Growth
import CamelMsmq.TaskErrors
import CamelMsmq.GrowthLoop
import CamelMsmq.GrowthEnds
import CamelMsmq.CString
import CamelMsmq.QueueNames
import CamelMsmq.ModifiedUtf8
import CamelMsmq.NameEncoding
import CamelMsmq.CloseQueues
import CamelMsmq.OpenRetries
import CamelMsmq.ProducerSettings
import CamelMsmq.MessageObjects
import CamelMsmq.ReceiveByValue
import CamelMsmq.MessageViews
import CamelMsmq.BodyDescriptor
import CamelMsmq.Channel
import CamelMsmq.InHands
import CamelMsmq.MessageStore
import CamelMsmq.MessageTransfer
import CamelMsmq.Ownership
import CamelMsmq.Promises
import CamelMsmq.Proxies
import CamelMsmq.ProxyCalls
import CamelMsmq.Transmission
import CamelMsmq.Drainage
import CamelMsmq.RunLength
import CamelMsmq.KeptBodies
import CamelMsmq.ObjectSystem
import CamelMsmq.OrderedChannel
import CamelMsmq.DeliveryOrder
