import Vitals.Library.Text
import Vitals.Library.Decimal
import Vitals.Library.Float
import Vitals.Library.Word
import Vitals.Library.Fallible
import Vitals.Library.Json
import Vitals.Library.FloatText
import Vitals.Library.JsonDecode
import Vitals.Library.JsonWrite
import Vitals.Library.Table
import Vitals.Library.Records
import Vitals.Library.Suffixes
import Vitals.Library.Reaping
import Vitals.Library.Monitor
import Vitals.Library.Window
import Vitals.Library.Growth
import Vitals.Library.Runs
import Vitals.Library.Guarded
import Vitals.Kernel.Units
import Vitals.Kernel.Procfs
import Vitals.Kernel.Sample
import Vitals.Kernel.Delta
import Vitals.Kernel.Checked
import Vitals.Kernel.Rules
import Vitals.Kernel.Engine
import Vitals.Kernel.Ring
import Vitals.Kernel.Sampler
import Vitals.Kernel.SamplerThread
import Vitals.Kernel.Render
import Vitals.Semantics.Alert
import Vitals.EngineRound
import Vitals.EngineRefinement
import Vitals.EngineProduct
import Vitals.EngineSustain
import Vitals.RuleFile
import Vitals.EngineLedger
import Vitals.EngineDepartures
import Vitals.Semantics.Scan
import Vitals.Semantics.Cycles
import Vitals.CollectorScan
import Vitals.RingWindow
import Vitals.SamplerRun
import Vitals.JsonOutput
import Vitals.DeltaRates
import Vitals.RuleRates
import Vitals.Semantics.KernelText
import Vitals.Semantics.Traffic
import Vitals.PidStatFormat
import Vitals.StatFormat
import Vitals.CoreRates
import Vitals.MeminfoFormat
import Vitals.NetDevFormat
import Vitals.ArithmeticRange
import Vitals.Percentages
import Vitals.NetTraffic
import Vitals.NetOutage
import Vitals.Semantics.RuleGrammar
import Vitals.RuleFileGrammar
import Vitals.RuleFileLiveness
import Vitals.RuleFileLines
import Vitals.Semantics.Quantity
import Vitals.Quantities
import Vitals.Semantics.Interleaving
import Vitals.ThreadPublication
import Vitals.ThreadTiming
import Vitals.ThreadStop
import Vitals.ReaderAlerts
import Vitals.RunTotals
import Vitals.MemoryBound
import Vitals.Library.Bytes
import Vitals.Semantics.KernelTables
import Vitals.AuxvFormat
import Vitals.PidIoFormat
import Vitals.SocketFormat
import Vitals.Semantics.Machine
import Vitals.MachineScan
import Vitals.Library.Nearest
import Vitals.Library.Binary64
import Vitals.Library.Display
import Vitals.Kernel.Screen
import Vitals.HumanBytes
import Vitals.Sparkline
import Vitals.ScreenText
import Vitals.Kernel.Main
import Vitals.Semantics.Rounds
import Vitals.ProgramOutput
import Vitals.ProgramPace
import Vitals.ProgramStop
import Vitals.CommandLine
import Vitals.OutputTruth
import Vitals.Library.Closeness
import Vitals.Library.FloatError
import Vitals.FloatRates
import Vitals.FloatVerdicts
