import TaskQueueCoSim.Rtl.QueueRefinement
import TaskQueueCoSim.Rtl.Delivery
import TaskQueueCoSim.Rtl.EveryDepth
import TaskQueueCoSim.Rtl.Verilated
import TaskQueueCoSim.Rtl.Waveform
import TaskQueueCoSim.Rtl.ClosedForm
import TaskQueueCoSim.Rtl.ResetIsolation
import TaskQueueCoSim.Hw.RandomizedTest
import TaskQueueCoSim.Hw.HardwareOnly
import TaskQueueCoSim.Mmio.Adversary
import TaskQueueCoSim.Mmio.ExactlyOnce
import TaskQueueCoSim.Mmio.TruthfulReturns
import TaskQueueCoSim.Mmio.DriverResults
import TaskQueueCoSim.Mmio.PoppedWords
import TaskQueueCoSim.Mmio.StatusAgrees
import TaskQueueCoSim.Mmio.Provenance
import TaskQueueCoSim.Mmio.Progress
import TaskQueueCoSim.Oracle.CountsViolations
import TaskQueueCoSim.Oracle.FailsClosed
import TaskQueueCoSim.Oracle.TraceRoundTrip
import TaskQueueCoSim.Host.FalseAlarm
import TaskQueueCoSim.Host.CoSimulation
import TaskQueueCoSim.Model.Globals
import TaskQueueCoSim.Model.FasterDispatch
import TaskQueueCoSim.Model.SameWorkload
import TaskQueueCoSim.Rtl.RoundRobin
import TaskQueueCoSim.Oracle.CheckersAgree
import TaskQueueCoSim.Model.LatencyStats
import TaskQueueCoSim.Model.ResampleStep
import TaskQueueCoSim.Model.BusyTime
import TaskQueueCoSim.Model.LoopEnds
import TaskQueueCoSim.Model.AblationCsv
import TaskQueueCoSim.Model.WorkConserving
import TaskQueueCoSim.Model.DispatchOrder
import TaskQueueCoSim.Model.WaitBound
import TaskQueueCoSim.Model.Throughput
import TaskQueueCoSim.Model.SamplesAgree
import TaskQueueCoSim.Model.Scaling
import TaskQueueCoSim.Model.NeverBlocked
import TaskQueueCoSim.Model.QueuePlots
