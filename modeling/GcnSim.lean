import GcnSim.Core.Simulator
import GcnSim.Core.LineSlicing
import GcnSim.Core.Accelerator
import GcnSim.Core.AddressMap
import GcnSim.Memory.WorkConserving
import GcnSim.Reader.VertexBlock
import GcnSim.Reader.VertexStream
import GcnSim.Reader.VertexReplay
import GcnSim.Reader.FeatureLines
import GcnSim.Reader.EdgeBlock
import GcnSim.Reader.BasisStream
import GcnSim.Reader.FoldSweep
import GcnSim.Loop.Phase
import GcnSim.Loop.Writes
import GcnSim.Loop.Exit
import GcnSim.Loop.QueueSpace
import GcnSim.Distribution.Partition
import GcnSim.Cache.Handover
import GcnSim.Cache.PolicyOrder
import GcnSim.Cache.PolicyLists
import GcnSim.Cache.ShipTables
import GcnSim.Cache.ShipBuffer
import GcnSim.Cache.ShipEmptyWays
import GcnSim.Cache.HybridInstall
import GcnSim.Cache.BloomCounts
import GcnSim.Cache.MovingAverage
import GcnSim.Cache.Lockstep
import GcnSim.Converter.VerticalTiling
import GcnSim.Converter.DynamicTiling
import GcnSim.Converter.DynamicVariants
import GcnSim.Converter.TilingConfig
import GcnSim.Converter.EdgeList
import GcnSim.Converter.CsrTranslator
import GcnSim.Input.Bookkeeping
import GcnSim.Dramsim.Conservation
import GcnSim.Dramsim.Device
import GcnSim.Dramsim.Delays
import GcnSim.Dramsim.DataBus
import GcnSim.Dramsim.ActivationWindow
import GcnSim.Dramsim.Coherence
import GcnSim.Dramsim.Capacity
import GcnSim.Dramsim.Promptness
import GcnSim.Lib.Simulation
import GcnSim.Dramsim.JedecDramSystem
import GcnSim.Dramsim.Channels
import GcnSim.Dramsim.Interface
import GcnSim.Dramsim.Refinement
import GcnSim.Dramsim.AddressMapping
import GcnSim.Dramsim.MainLoop
