import SyncPaxos.Engine.Agenda
import SyncPaxos.Engine.Calendar
import SyncPaxos.Engine.CalendarRefinement
import SyncPaxos.Engine.CalendarSession
import SyncPaxos.Engine.Refinement
import SyncPaxos.Engine.Schedulers
import SyncPaxos.Engine.Session
import SyncPaxos.Library.BinaryHeap
import SyncPaxos.Library.Bytes
import SyncPaxos.Library.Closed
import SyncPaxos.Library.Counting
import SyncPaxos.Library.EventQueue
import SyncPaxos.Library.Growth
import SyncPaxos.Library.LeafSpine
import SyncPaxos.Library.Loops
import SyncPaxos.Library.Rounding
import SyncPaxos.Library.SingleServer
import SyncPaxos.Library.Slots
import SyncPaxos.Library.Store
import SyncPaxos.Library.Transition
import SyncPaxos.Library.Unwinding
import SyncPaxos.Library.Window
import SyncPaxos.Links.Fifo
import SyncPaxos.Links.Latency
import SyncPaxos.Model.Address
import SyncPaxos.Model.AppServer
import SyncPaxos.Model.CalendarScheduler
import SyncPaxos.Model.Client
import SyncPaxos.Model.Cluster
import SyncPaxos.Model.Codec
import SyncPaxos.Model.Common
import SyncPaxos.Model.Config
import SyncPaxos.Model.DefaultSimulator
import SyncPaxos.Model.Event
import SyncPaxos.Model.Frame
import SyncPaxos.Model.Listener
import SyncPaxos.Model.Machine
import SyncPaxos.Model.Network
import SyncPaxos.Model.PacketBuffer
import SyncPaxos.Model.PacketPool
import SyncPaxos.Model.PointToPoint
import SyncPaxos.Model.Proposer
import SyncPaxos.Model.Scheduler
import SyncPaxos.Model.Server
import SyncPaxos.Model.Simulator
import SyncPaxos.Model.Sockets
import SyncPaxos.Model.Topology
import SyncPaxos.Model.UdpReceive
import SyncPaxos.Packets.Blocks
import SyncPaxos.Packets.Contents
import SyncPaxos.Packets.Growing
import SyncPaxos.Packets.Operations
import SyncPaxos.Packets.Refinement
import SyncPaxos.Packets.Sharing
import SyncPaxos.Packets.Writing
import SyncPaxos.Run.Boot
import SyncPaxos.Run.Calls
import SyncPaxos.Run.Change
import SyncPaxos.Run.Channel
import SyncPaxos.Run.Delivery
import SyncPaxos.Run.Emission
import SyncPaxos.Run.Fifo
import SyncPaxos.Run.Handling
import SyncPaxos.Run.Leader
import SyncPaxos.Run.Ledger
import SyncPaxos.Run.Logs
import SyncPaxos.Run.Outcome
import SyncPaxos.Run.Provenance
import SyncPaxos.Run.Requests
import SyncPaxos.Run.Rotation
import SyncPaxos.Run.Rounds
import SyncPaxos.Run.Rules
import SyncPaxos.Run.Stamps
import SyncPaxos.Run.Step
import SyncPaxos.Run.Stop
import SyncPaxos.Run.Turn
import SyncPaxos.Safety.Accounts
import SyncPaxos.Safety.Agreement
import SyncPaxos.Safety.Convergence
import SyncPaxos.Safety.Copies
import SyncPaxos.Safety.Counters
import SyncPaxos.Safety.Decisions
import SyncPaxos.Safety.Discipline
import SyncPaxos.Safety.Finality
import SyncPaxos.Safety.Frames
import SyncPaxos.Safety.Ids
import SyncPaxos.Safety.Intake
import SyncPaxos.Safety.Isolation
import SyncPaxos.Safety.LeaderState
import SyncPaxos.Safety.Majority
import SyncPaxos.Safety.Order
import SyncPaxos.Safety.Placement
import SyncPaxos.Safety.Progress
import SyncPaxos.Safety.Quorum
import SyncPaxos.Safety.RoundTrip
import SyncPaxos.Safety.Traffic
import SyncPaxos.Safety.Transparency
import SyncPaxos.Safety.Voting
import SyncPaxos.Setup.Addresses
import SyncPaxos.Setup.Clos
import SyncPaxos.Setup.Durations
import SyncPaxos.Setup.Program
import SyncPaxos.Setup.Routes
import SyncPaxos.Setup.Subnets
import SyncPaxos.Sockets.Delivery
import SyncPaxos.Sockets.Ports
import SyncPaxos.Sockets.Receiving
import SyncPaxos.Sockets.Steps
import SyncPaxos.Timing.Bounds
import SyncPaxos.Timing.Cost
import SyncPaxos.Timing.Due
import SyncPaxos.Timing.Firings
import SyncPaxos.Timing.Latency
import SyncPaxos.Timing.LogAgreement
import SyncPaxos.Timing.Response
import SyncPaxos.Timing.Slots
import SyncPaxos.Timing.Termination
import SyncPaxos.Timing.Throughput
import SyncPaxos.Timing.Turnaround
