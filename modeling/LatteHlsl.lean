import LatteHlsl.Microcode.Assembly
import LatteHlsl.Compile.Descriptor
import LatteHlsl.Settings.LogFile
import LatteHlsl.Settings.Store
import LatteHlsl.Walk.Trace
import LatteHlsl.Word.Hex
import LatteHlsl.Proofs.Effect
import LatteHlsl.Proofs.Piece
import LatteHlsl.Proofs.Group
import LatteHlsl.Proofs.Execution
import LatteHlsl.Proofs.Parallel
import LatteHlsl.Proofs.Run
import LatteHlsl.Proofs.Request
import LatteHlsl.Proofs.Statements
import LatteHlsl.Proofs.Usage
import LatteHlsl.Proofs.ExactUsage
import LatteHlsl.Proofs.Registers
import LatteHlsl.Proofs.Counting
import LatteHlsl.Proofs.Faults
import LatteHlsl.Proofs.Visits
import LatteHlsl.Proofs.Agreement
import LatteHlsl.Proofs.Bindings
import LatteHlsl.Proofs.ExportSlots
import LatteHlsl.Proofs.Safety
import LatteHlsl.Proofs.OutputInterface
import LatteHlsl.Proofs.TrailingBytes
import LatteHlsl.Proofs.SourceText
import LatteHlsl.Proofs.Comments
import LatteHlsl.Proofs.CallsAndReturns
import LatteHlsl.Proofs.FetchDefinition
import LatteHlsl.Proofs.AttributeText
import LatteHlsl.Proofs.InputInterface
import LatteHlsl.Proofs.Steady
import LatteHlsl.Proofs.Retry
import LatteHlsl.Proofs.Growth
import LatteHlsl.Proofs.HandlerSets
import LatteHlsl.Proofs.BitFields
import LatteHlsl.Proofs.Encoding
import LatteHlsl.Proofs.AssemblyRoundTrip
import LatteHlsl.Proofs.AppendOnly
import LatteHlsl.Proofs.FetchedInputs
import LatteHlsl.Proofs.GroupGrammar
import LatteHlsl.Proofs.GroupDispatch
import LatteHlsl.Proofs.BoundsChecks
import LatteHlsl.Proofs.FetchAcceptance
import LatteHlsl.Proofs.AddressOrder
import LatteHlsl.Proofs.Grammar
import LatteHlsl.Proofs.LaneExpressions
import LatteHlsl.Proofs.StatementText
import LatteHlsl.Proofs.TextExecution
import LatteHlsl.Proofs.CodeReading
import LatteHlsl.Proofs.DeclarationText
import LatteHlsl.Proofs.SlotTables
import LatteHlsl.Proofs.UsageUnion
import LatteHlsl.Proofs.Assignments
import LatteHlsl.Proofs.Swizzles
import LatteHlsl.Proofs.FieldWrites
import LatteHlsl.Proofs.FieldLaws
import LatteHlsl.Proofs.ControlEncoders
import LatteHlsl.Proofs.AluEncoders
import LatteHlsl.Proofs.Encoders
