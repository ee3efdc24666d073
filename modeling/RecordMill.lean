import RecordMill.CommandLine
import RecordMill.Format.Spec
import RecordMill.Format.Sprintf
import RecordMill.Heap.Basic
import RecordMill.Heap.Object
import RecordMill.Heap.Packed
import RecordMill.Host.Disk
import RecordMill.Host.Error
import RecordMill.Host.Outputs
import RecordMill.Host.Reader
import RecordMill.Host.Shell
import RecordMill.Host.Shell.Commands
import RecordMill.Host.Shell.Script
import RecordMill.Host.Shell.Tools
import RecordMill.Host.Shell.Word
import RecordMill.Host.Writer
import RecordMill.Lowering.Compile
import RecordMill.Lowering.Emitter
import RecordMill.Lowering.Operation
import RecordMill.Lowering.Native
import RecordMill.Lowering.Scope
import RecordMill.Lowering.Transcript
import RecordMill.Machine.Body
import RecordMill.Machine.Builder
import RecordMill.Machine.Execution
import RecordMill.Machine.Frame
import RecordMill.Machine.Kind
import RecordMill.Machine.Memory
import RecordMill.Machine.Module
import RecordMill.Machine.Word
import RecordMill.Machine.X86
import RecordMill.Main
import RecordMill.Number.Functions
import RecordMill.Number.Decimal
import RecordMill.Number.Double
import RecordMill.Number.Reading
import RecordMill.Number.Notation
import RecordMill.Pattern.Basic
import RecordMill.Pattern.Node
import RecordMill.Pattern.Filter
import RecordMill.Pattern.Parser
import RecordMill.Pattern.Path
import RecordMill.Pattern.Places
import RecordMill.Pattern.Search
import RecordMill.Program.Basic
import RecordMill.Program.Builder
import RecordMill.Program.Check
import RecordMill.Program.Instr
import RecordMill.Program.Operator
import RecordMill.Program.Samples
import RecordMill.Program.Ty
import RecordMill.Proofs.Machine.Agreement
import RecordMill.Proofs.Plain.Blocks
import RecordMill.Proofs.Plain.Reports
import RecordMill.Record.Cache
import RecordMill.Record.Context
import RecordMill.Record.Fields
import RecordMill.Record.LazyVec
import RecordMill.Record.Printing
import RecordMill.Record.Records
import RecordMill.Run.Basic
import RecordMill.Run.Config
import RecordMill.Run.Event
import RecordMill.Service.Basic
import RecordMill.Service.Meaning
import RecordMill.Text.Utf8
import RecordMill.Text.Bytes
import RecordMill.Text.CaseFold
import RecordMill.Text.Category.Basic
import RecordMill.Text.Category.Classes
import RecordMill.Text.Category.Scripts
import RecordMill.Text.Quoted
import RecordMill.Proofs.Heap.Ledger
import RecordMill.Proofs.Heap.Packing
import RecordMill.Proofs.Heap.Keeping
import RecordMill.Proofs.Record.Uses
import RecordMill.Proofs.Lowering.Direct
import RecordMill.Proofs.Lowering.Instructions
import RecordMill.Proofs.Lowering.Spilling
import RecordMill.Proofs.Machine.Flat
import RecordMill.Proofs.Machine.Reference
import RecordMill.Proofs.Machine.Spans
import RecordMill.Proofs.Machine.SymbolTable
import RecordMill.Proofs.Machine.LargerStack
import RecordMill.Proofs.Pattern.Language
import RecordMill.Proofs.Pattern.Literals
import RecordMill.Proofs.Pattern.Alternation
import RecordMill.Proofs.Number.Reading
import RecordMill.Proofs.Record.LazyVec
import RecordMill.Proofs.Program.WellFormed
import RecordMill.Proofs.Lowering.Emission
import RecordMill.Proofs.Lowering.Straight
import RecordMill.Proofs.Lowering.Bindings
import RecordMill.Proofs.Lowering.Blocks
import RecordMill.Proofs.Lowering.Entry
import RecordMill.Proofs.Lowering.Declaration
import RecordMill.Proofs.Lowering.Totality
import RecordMill.Proofs.Lowering.Printing
import RecordMill.Proofs.Lowering.Leaving
import RecordMill.Proofs.Lowering.Stages
import RecordMill.Proofs.Lowering.Passage
import RecordMill.Proofs.Lowering.Activations
import RecordMill.Proofs.Lowering.Globals
import RecordMill.Proofs.Lowering.Iterators
import RecordMill.Proofs.Lowering.LiteralTable
import RecordMill.Proofs.Lowering.Parameters
import RecordMill.Proofs.Lowering.ArgumentBlocks
import RecordMill.Proofs.Lowering.Effects
import RecordMill.Proofs.Machine.NarrowWords
import RecordMill.Proofs.Machine.SingleAssignment
import RecordMill.Proofs.Lowering.ControlFlow
import RecordMill.Proofs.Host.Lines
import RecordMill.Proofs.Host.OutputFiles
import RecordMill.Proofs.Record.StandardOutput
import RecordMill.Proofs.Record.MainInput
import RecordMill.Proofs.Record.Ownership
import RecordMill.Proofs.Samples.Uniq
import RecordMill.Proofs.Samples.Reverse
import RecordMill.Proofs.Samples.WordCount
import RecordMill.Proofs.Lowering.Skipping
import RecordMill.Proofs.Plain.Snapshots
import RecordMill.Proofs.Plain.Traps
import RecordMill.Proofs.Plain.Ownership
import RecordMill.Proofs.Record.BadInputs
import RecordMill.Proofs.Host.LineReaders
import RecordMill.Proofs.Format.Printer
import RecordMill.Proofs.Record.Splitting
import RecordMill.Proofs.Record.SplitMaps
import RecordMill.Proofs.Record.Resplitting
