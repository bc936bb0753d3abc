import EightBit.CommandLine.Session
import EightBit.Debugger.Screen
import EightBit.Main
import EightBit.Proofs.Breakpoints
import EightBit.Proofs.Conformance
import EightBit.Proofs.RoundTrip
import EightBit.Proofs.SinkRoom
import EightBit.Proofs.Accounting
import EightBit.Proofs.Draining
import EightBit.Proofs.Brackets
import EightBit.Proofs.Profiles
import EightBit.Proofs.Reconfiguration
import EightBit.Proofs.Strictness
import EightBit.Proofs.Calls
import EightBit.Proofs.CounterBound
import EightBit.Proofs.LifeCycle
import EightBit.Proofs.Reset
import EightBit.Proofs.Latches
import EightBit.Proofs.Grammar
import EightBit.Proofs.SourceLines
import EightBit.Proofs.Store
import EightBit.Proofs.Disassembly
import EightBit.Proofs.TraceLines
import EightBit.Proofs.CycleLimit
import EightBit.Proofs.Delivery
import EightBit.Proofs.StraightLine
import EightBit.Proofs.Branches
import EightBit.Proofs.Footprint
import EightBit.Proofs.AssemblyText
import EightBit.Proofs.StatusLine
import EightBit.Proofs.Window
import EightBit.Proofs.OutputPane
import EightBit.Proofs.LastRead
import EightBit.Proofs.WrittenConfiguration
