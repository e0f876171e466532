import AstralHwmon.Lib.Transition
import AstralHwmon.Lib.Monitor
import AstralHwmon.Lib.Token
import AstralHwmon.Lib.CriticalSection
import AstralHwmon.Lib.WrapCounter
import AstralHwmon.Lib.CText
import AstralHwmon.Lib.Lines
import AstralHwmon.Lib.Fold
import AstralHwmon.Lib.CInt
import AstralHwmon.Lib.Effect
import AstralHwmon.Lib.JsonString
import AstralHwmon.Lib.Json
import AstralHwmon.Driver.Regs
import AstralHwmon.Driver.Cache
import AstralHwmon.Driver.PlausibilityGate
import AstralHwmon.Driver.Readers
import AstralHwmon.Driver.Freshness
import AstralHwmon.Driver.Traffic
import AstralHwmon.Driver.Detect
import AstralHwmon.Driver.Autoload
import AstralHwmon.Driver.Lifecycle
import AstralHwmon.Driver.Passes
import AstralHwmon.Driver.Claim
import AstralHwmon.Driver.BusGate
import AstralHwmon.Driver.Ownership
import AstralHwmon.Driver.Lifetime
import AstralHwmon.Driver.Arrival
import AstralHwmon.Driver.RetryCycle
import AstralHwmon.Driver.Stages
import AstralHwmon.Driver.Attach
import AstralHwmon.Driver.Unload
import AstralHwmon.Driver.KernelLog
import AstralHwmon.Driver.Threads
import AstralHwmon.Driver.LockDiscipline
import AstralHwmon.Driver.ThreadSafety
import AstralHwmon.Guard.Types
import AstralHwmon.Guard.Eval
import AstralHwmon.Guard.RuleTable
import AstralHwmon.Guard.Measures
import AstralHwmon.Guard.Faults
import AstralHwmon.Guard.Sysfs
import AstralHwmon.Guard.Report
import AstralHwmon.Guard.Main
import AstralHwmon.Guard.Discovery
import AstralHwmon.Guard.Numbers
import AstralHwmon.Guard.CommandLine
import AstralHwmon.Guard.ExitStatus
import AstralHwmon.Guard.Footprint
import AstralHwmon.Guard.Arith
import AstralHwmon.Guard.Tuning
import AstralHwmon.Guard.JsonReport
import AstralHwmon.Guard.TextReport
import AstralHwmon.Pipeline.Surface
import AstralHwmon.Pipeline.Machine
import AstralHwmon.Pipeline.Persistence
import AstralHwmon.Pipeline.OneFrame
import AstralHwmon.Pipeline.Alarm
import AstralHwmon.Oracle.Decode
import AstralHwmon.Oracle.I2c
import AstralHwmon.Oracle.Discover
import AstralHwmon.Oracle.PyInt
import AstralHwmon.Oracle.Hwmon
import AstralHwmon.Oracle.Buses
import AstralHwmon.Oracle.Search
import AstralHwmon.Oracle.GateTests
import AstralHwmon.Oracle.Load
import AstralHwmon.Oracle.Burn
