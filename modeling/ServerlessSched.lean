import ServerlessSched.Policy.Agreement
import ServerlessSched.Policy.ArgumentParser
import ServerlessSched.Policy.LastArgument
import ServerlessSched.KernelAssigned.Overtaking
import ServerlessSched.KernelAssigned.Contexts
import ServerlessSched.KernelAssigned.Service
import ServerlessSched.KernelAssigned.Statistics
import ServerlessSched.UserAssigned.DecidedSlices
import ServerlessSched.UserAssigned.NoneForgotten
import ServerlessSched.UserAssigned.DispatchBuffer
import ServerlessSched.UserAssigned.Provenance
import ServerlessSched.UserAssigned.Release
import ServerlessSched.UserAssigned.Overtaking
import ServerlessSched.UserAssigned.Service
import ServerlessSched.UserAssigned.OwnSlice
import ServerlessSched.UserAssigned.MainLoop
import ServerlessSched.UserAssigned.Main
import ServerlessSched.UserAssigned.Counters
import ServerlessSched.UserAssigned.Representation
import ServerlessSched.UserAssigned.ExitRequest
import ServerlessSched.UserAssigned.Charges
import ServerlessSched.UserAssigned.Affinity
import ServerlessSched.Loadgen.DispatchLoop
import ServerlessSched.Loadgen.Termination
import ServerlessSched.Loadgen.ExecutorLog
import ServerlessSched.Loadgen.CpuMonitoring
import ServerlessSched.Loadgen.CompareWorkload
import ServerlessSched.Loadgen.PerfRunner
import ServerlessSched.Loadgen.Payload
import ServerlessSched.Analyze.Reanalysis
import ServerlessSched.Analyze.TraceFormat
import ServerlessSched.Analyze.GeneralStats
import ServerlessSched.Analyze.CombineStats
