import NetOrc.Core.Counters
import NetOrc.Core.Backlog
import NetOrc.Core.App
import NetOrc.Core.Cardinality
import NetOrc.Core.Exposition
import NetOrc.Core.Observability
import NetOrc.Core.ThreadEnvironment
import NetOrc.Southbound.Lldpdu
import NetOrc.Southbound.FlowModGrammar
import NetOrc.Core.FlowUpdates
import NetOrc.OpenFlow.Grammar
import NetOrc.OpenFlow.Send
import NetOrc.Southbound.Safety
import NetOrc.Southbound.DefaultFlow
import NetOrc.Southbound.Discovery
import NetOrc.Southbound.HandshakeGate
import NetOrc.OpenFlow.Ownership
import NetOrc.Core.Persistence
import NetOrc.Southbound.SwitchState
import NetOrc.OpenFlow.Starvation
import NetOrc.OpenFlow.Conservation
import NetOrc.OpenFlow.SendFailure
import NetOrc.OpenFlow.SendRace
import NetOrc.OpenFlow.HandlerClose
import NetOrc.OpenFlow.Routing
import NetOrc.Southbound.HeaderValidator
import NetOrc.Southbound.Routes
import NetOrc.OpenFlow.Peers
import NetOrc.Southbound.Isolation
import NetOrc.OpenFlow.Tracks
import NetOrc.OpenFlow.EventDelivery
import NetOrc.OpenFlow.Release
import NetOrc.OpenFlow.EtherType
import NetOrc.OpenFlow.Lifecycle
import NetOrc.Core.TopologyMap
import NetOrc.Core.StoredFlows
import NetOrc.Southbound.Uninitialised
import NetOrc.Northbound.EventsRoute
import NetOrc.Core.Config
import NetOrc.Southbound.EnvParser
import NetOrc.Core.Logger
import NetOrc.Transition.Monitor
import NetOrc.Data.Fifo
import NetOrc.Core.TaskQueue
import NetOrc.Core.TaskQueueProgress
import NetOrc.OpenFlow.EventQueue
import NetOrc.Southbound.HandlerCalls
import NetOrc.Data.Grouped
import NetOrc.OpenFlow.Attribution
import NetOrc.Southbound.Replay
import NetOrc.OpenFlow.Drain
import NetOrc.Core.PoolDelivery
import NetOrc.Northbound.RequestLog
import NetOrc.Core.Scrape
import NetOrc.Core.Planes
import NetOrc.Core.ServiceContainer
import NetOrc.Southbound.Restarts
import NetOrc.OpenFlow.Pooled
import NetOrc.Southbound.Granularity
