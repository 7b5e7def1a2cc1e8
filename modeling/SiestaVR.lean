import SiestaVR.Lib.Agenda
import SiestaVR.Lib.Containers
import SiestaVR.Lib.Prefixes
import SiestaVR.Lib.TimedWindow
import SiestaVR.Lib.Quota
import SiestaVR.Lib.Shelves
import SiestaVR.Lib.Runs
import SiestaVR.Lib.CarrierSense
import SiestaVR.Lib.Bytes
import SiestaVR.Lib.Chunks
import SiestaVR.Lib.Tables
import SiestaVR.Lib.TokenBucket
import SiestaVR.Lib.Incremental
import SiestaVR.Lib.Occurrences
import SiestaVR.Lib.RunningValues
import SiestaVR.Lib.Coverage
import SiestaVR.Lib.Placement
import SiestaVR.Lib.Words
import SiestaVR.Lib.Heap
import SiestaVR.Lib.Slots
import SiestaVR.Lib.Threads
import SiestaVR.Mac.Types
import SiestaVR.Mac.Airtime
import SiestaVR.Mac.Dcf
import SiestaVR.Mac.Stats
import SiestaVR.Mac.Module
import SiestaVR.Mac.Arrival
import SiestaVR.Mac.Ampdu
import SiestaVR.Mac.Service
import SiestaVR.Mac.System
import SiestaVR.Mac.AmpduSpec
import SiestaVR.Mac.BuildEffect
import SiestaVR.Mac.Conservation
import SiestaVR.Mac.Ledger
import SiestaVR.Mac.Inversion
import SiestaVR.Mac.VirtualCollision
import SiestaVR.Mac.Bookings
import SiestaVR.Mac.Counters
import SiestaVR.Mac.Overflow
import SiestaVR.Mac.Order
import SiestaVR.Mac.Radio
import SiestaVR.Mac.Occupancy
import SiestaVR.Mac.ServiceTime
import SiestaVR.Mac.RetryLimit
import SiestaVR.Mac.Attribution
import SiestaVR.Mac.Aggregation
import SiestaVR.Mac.Clock
import SiestaVR.Mac.SlotTick
import SiestaVR.Mac.ContentionWindow
import SiestaVR.Mac.BusyTime
import SiestaVR.Mac.IndexTable
import SiestaVR.Stream.Wire
import SiestaVR.Stream.Receiver
import SiestaVR.Stream.Sender
import SiestaVR.Stream.Socket
import SiestaVR.Stream.Session
import SiestaVR.Stream.Sweep
import SiestaVR.Stream.Reception
import SiestaVR.Stream.Reassembly
import SiestaVR.Stream.LossAccounting
import SiestaVR.Stream.LossReporting
import SiestaVR.Stream.DeadlineEnforcement
import SiestaVR.Stream.Client
import SiestaVR.Stream.ClientQueue
import SiestaVR.Stream.ClientSteps
import SiestaVR.Stream.DecoderOrder
import SiestaVR.Stream.ShardsLost
import SiestaVR.Stream.PacketReads
import SiestaVR.Stream.ControlSocket
import SiestaVR.Emu.Pattern
import SiestaVR.Emu.Shaping
import SiestaVR.Emu.Waiting
import SiestaVR.Emu.RandomEvents
import SiestaVR.Emu.MarkovBandwidth
import SiestaVR.Emu.Link
import SiestaVR.Emu.Fifo
import SiestaVR.Kernel.PriorityQueue
import SiestaVR.Kernel.SeqFuture
import SiestaVR.Kernel.Simulation
import SiestaVR.Kernel.Step
import SiestaVR.Kernel.StepUntil
import SiestaVR.Kernel.Executor
import SiestaVR.Kernel.IndexedQueue
import SiestaVR.Kernel.IndexedLinks
import SiestaVR.Kernel.IndexedCollection
import SiestaVR.Xr.Node
import SiestaVR.Xr.Sessions
import SiestaVR.Xr.LifeCycle
import SiestaVR.Abr.Control
import SiestaVR.Abr.Throughput
import SiestaVR.Abr.AimdRuns
import SiestaVR.Abr.NadaTarget
import SiestaVR.Abr.OracleRamp
import SiestaVR.Abr.Ladder
import SiestaVR.Abr.EverestAverages
import SiestaVR.Abr.NadaReceiver
import SiestaVR.Abr.LossWindow
import SiestaVR.Rng.Streams
import SiestaVR.Stream.NadaStall
import SiestaVR.Stream.Rebuffering
import SiestaVR.Stream.Tracking
import SiestaVR.Video.Av1
import SiestaVR.Video.Hevc
import SiestaVR.Video.HevcChunks
import SiestaVR.Video.AnnexB
import SiestaVR.Video.Keyframe
import SiestaVR.Video.Payload
import SiestaVR.Video.FrameSizes
import SiestaVR.Video.TableCache
import SiestaVR.TaskSet.Wake
import SiestaVR.TaskSet.Head
import SiestaVR.TaskSet.WakeInvariant
import SiestaVR.TaskSet.WakeRuns
import SiestaVR.TaskSet.Broadcast
import SiestaVR.TaskSet.BroadcastRuns
import SiestaVR.Sync.SyncCell
