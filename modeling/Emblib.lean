import Emblib.Library.Program
import Emblib.Library.Memory
import Emblib.Library.Run
import Emblib.EepromStorage
import Emblib.EepromDevice
import Emblib.EepromFaults
import Emblib.Library.Crc
import Emblib.NvmHash
import Emblib.Library.Machine
import Emblib.NvmLayout
import Emblib.NvmRegistry
import Emblib.NvmStore
import Emblib.NvmRefinement
import Emblib.NvmTornSet
import Emblib.Library.Words
import Emblib.TripleBuffer
import Emblib.TripleBufferLatest
import Emblib.Seqlock
import Emblib.SeqlockLoads
import Emblib.Library.Counter
import Emblib.SpscQueue
import Emblib.SpscQueueFifo
import Emblib.Library.Ring
import Emblib.CircularBuffer
import Emblib.CircularBufferRefinement
import Emblib.CircularBufferCopies
import Emblib.InplaceQueue
import Emblib.InplaceStack
import Emblib.SlotLifetimes
import Emblib.InplaceLifetimes
import Emblib.InplaceScripts
import Emblib.Can
import Emblib.Sdo
import Emblib.Library.BinarySearch
import Emblib.ObjectDictionary
import Emblib.SdoServer
import Emblib.SdoDelivery
import Emblib.SdoDictionary
import Emblib.SdoDownload
import Emblib.Controller
import Emblib.ControllerWindup
import Emblib.DqControl
import Emblib.FsmActions
import Emblib.FiniteStateMachine
import Emblib.EntryExitDiscipline
import Emblib.VirtualStates
import Emblib.TransitionTable
import Emblib.TableEquivalence
import Emblib.Trouble
import Emblib.TroubleMirror
import Emblib.Library.Watchdog
import Emblib.CanopenServices
import Emblib.CanopenServer
import Emblib.CanopenDispatch
import Emblib.NmtDispatch
import Emblib.RawNode
import Emblib.ExtendedFrames
import Emblib.LivenessMonitors
import Emblib.Library.Pacer
import Emblib.Library.Channel
import Emblib.Library.Account
import Emblib.PacedProducers
import Emblib.NodeTraffic
import Emblib.HeartbeatProtocol
import Emblib.CobIdSeparation
import Emblib.BasicScheduler
import Emblib.DelayedTasks
import Emblib.PeriodicTasks
import Emblib.CarriedBytes
import Emblib.NvmBurst
import Emblib.Library.CrcPeriod
import Emblib.NvmFaults
import Emblib.NvmErase
import Emblib.Pwm
import Emblib.Svpwm
import Emblib.SvpwmAgreement
import Emblib.CircularBufferAliasing
import Emblib.DoubleBuffer
import Emblib.Ramp
import Emblib.Filters
import Emblib.Library.Integers
import Emblib.MovingAverage
import Emblib.MovingAverageOverflow
import Emblib.Library.Rank
import Emblib.Median
import Emblib.Sensor
import Emblib.BufferedSensor
import Emblib.EepromTypedRead
import Emblib.Library.Lockstep
import Emblib.EepromIsolation
import Emblib.Library.Bitwise
import Emblib.Mmio
import Emblib.Library.BitSets
import Emblib.MmioModify
import Emblib.MmioOverlap
import Emblib.Library.Throwing
import Emblib.ThrowingElements
import Emblib.ContainerExceptions
import Emblib.Angle
import Emblib.Exponential
import Emblib.ExponentialMedian
import Emblib.TroubleLoops
import Emblib.SinPwm
import Emblib.VectorTransforms
import Emblib.CurrentLoop
import Emblib.ContainerRefinement
import Emblib.BackcalcWindup
import Emblib.TriggeredActions
import Emblib.SineGenerators
import Emblib.FastRoots
import Emblib.LookupSine
import Emblib.FastArctangent
import Emblib.DeadtimeCompensation
import Emblib.Quantization
