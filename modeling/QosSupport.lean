import QosSupport.Lib.Run
import QosSupport.Lib.Loop
import QosSupport.Lib.EventLoop
import QosSupport.Lib.Thread
import QosSupport.Lib.Regex
import QosSupport.Lib.Box
import QosSupport.Lib.SlotTable
import QosSupport.Lib.Bytes
import QosSupport.Lib.Text
import QosSupport.Lib.Crc
import QosSupport.Redis.Glob
import QosSupport.Redis.Db
import QosSupport.Js.Number
import QosSupport.Js.Arithmetic
import QosSupport.Broker.Dao
import QosSupport.Broker.Effects
import QosSupport.Broker.Keys
import QosSupport.Broker.Isolation
import QosSupport.Broker.Accounting
import QosSupport.Broker.Traffic
import QosSupport.Broker.PubSub
import QosSupport.Broker.Store
import QosSupport.Broker.Provisioning
import QosSupport.Broker.History
import QosSupport.Broker.Quota
import QosSupport.Broker.TurnServers
import QosSupport.Broker.Gate
import QosSupport.Broker.Credentials
import QosSupport.Broker.Users
import QosSupport.Broker.Listing
import QosSupport.Broker.Routes
import QosSupport.Broker.Selection
import QosSupport.Broker.Reregister
import QosSupport.Turn.Registration
import QosSupport.Turn.Usage
import QosSupport.Turn.Ports
import QosSupport.Turn.RelayPorts
import QosSupport.Turn.IoAddr
import QosSupport.Turn.AddrMap
import QosSupport.Turn.IpPorts
import QosSupport.Turn.LmMap
import QosSupport.Turn.Allocation
import QosSupport.Turn.Channels
import QosSupport.Turn.Relaying
import QosSupport.Turn.StunMessage
import QosSupport.Turn.StunAddr
import QosSupport.Turn.Fingerprint
import QosSupport.Turn.Integrity
import QosSupport.Turn.Auth
import QosSupport.Turn.Login
import QosSupport.Agent.Probes
import QosSupport.Lhcb.Json
import QosSupport.Lhcb.Message
import QosSupport.Lhcb.RequestHandler
import QosSupport.Lhcb.FrontEnds
import QosSupport.Lhcb.RoundTrip
import QosSupport.Lhcb.Decoding
import QosSupport.Lhcb.ChangeIface
import QosSupport.Lhcb.SendReply
import QosSupport.Lhcb.MessageIds
import QosSupport.Lhcb.Correlation
import QosSupport.Lhcb.Events
import QosSupport.Lhcb.Monitor
import QosSupport.Lhcb.Pacing
import QosSupport.Lhcb.Android
import QosSupport.Lhcb.AccessPoints
import QosSupport.Lhcb.MissedChanges
import QosSupport.Lhcb.Gateways
import QosSupport.Lhcb.Constructors
import QosSupport.Lhcb.ExecuteMessages
