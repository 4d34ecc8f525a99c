import ArmToolkit.A64.Arithmetic
import ArmToolkit.A64.Assembler
import ArmToolkit.A64.BitmaskImmediate
import ArmToolkit.A64.Disassembly
import ArmToolkit.A64.Field
import ArmToolkit.A64.Form
import ArmToolkit.A64.Format
import ArmToolkit.A64.Instruction
import ArmToolkit.A64.Lane
import ArmToolkit.A64.LaneSum
import ArmToolkit.A64.Macro
import ArmToolkit.A64.MacroCall
import ArmToolkit.A64.Memory
import ArmToolkit.A64.Mnemonic
import ArmToolkit.A64.Operand
import ArmToolkit.A64.OperandText
import ArmToolkit.A64.Operation
import ArmToolkit.A64.Pattern
import ArmToolkit.A64.Registers
import ArmToolkit.A64.Scratch
import ArmToolkit.A64.Semantics
import ArmToolkit.A64.Semantics.General
import ArmToolkit.A64.Semantics.Predicate
import ArmToolkit.A64.Semantics.Transfer
import ArmToolkit.A64.Semantics.Vector
import ArmToolkit.A64.Simulator
import ArmToolkit.A64.Slot
import ArmToolkit.A64.SparseBytes
import ArmToolkit.A64.Statement
import ArmToolkit.A64.VectorLength
import ArmToolkit.Bits
import ArmToolkit.Bits.NamedField
import ArmToolkit.Condition
import ArmToolkit.Failure
import ArmToolkit.Files
import ArmToolkit.Fixture.Entry
import ArmToolkit.Fixture.Verify
import ArmToolkit.Log.Level
import ArmToolkit.Log.Logger
import ArmToolkit.Log.Message
import ArmToolkit.Log.Record
import ArmToolkit.Main
import ArmToolkit.Path
import ArmToolkit.PowerOfTwo
import ArmToolkit.Proofs.ActiveCounts
import ArmToolkit.Proofs.BitRanges
import ArmToolkit.Proofs.BitmaskCodes
import ArmToolkit.Proofs.BlockState
import ArmToolkit.Proofs.BoundedRuns
import ArmToolkit.Proofs.Branches
import ArmToolkit.Proofs.ComparedLanes
import ArmToolkit.Proofs.Confined
import ArmToolkit.Proofs.ConfinedRuns
import ArmToolkit.Proofs.Constructed
import ArmToolkit.Proofs.ContiguousTransfers
import ArmToolkit.Proofs.Decoded
import ArmToolkit.Proofs.DecodedChecks
import ArmToolkit.Proofs.Deliveries
import ArmToolkit.Proofs.DistinctTexts
import ArmToolkit.Proofs.ElementArithmetic
import ArmToolkit.Proofs.Emissions
import ArmToolkit.Proofs.Emitted
import ArmToolkit.Proofs.Encoded
import ArmToolkit.Proofs.Executed
import ArmToolkit.Proofs.Extents
import ArmToolkit.Proofs.Faults
import ArmToolkit.Proofs.Fields
import ArmToolkit.Proofs.FilledLanes
import ArmToolkit.Proofs.FixtureLines
import ArmToolkit.Proofs.FlaggedSums
import ArmToolkit.Proofs.FormTable
import ArmToolkit.Proofs.Frames
import ArmToolkit.Proofs.Halfwords
import ArmToolkit.Proofs.HexRuns
import ArmToolkit.Proofs.HexWords
import ArmToolkit.Proofs.Immediates
import ArmToolkit.Proofs.Interleaving
import ArmToolkit.Proofs.JoinedPaths
import ArmToolkit.Proofs.LabelRuns
import ArmToolkit.Proofs.Labels
import ArmToolkit.Proofs.LaneSearch
import ArmToolkit.Proofs.LaneViews
import ArmToolkit.Proofs.LaneWrites
import ArmToolkit.Proofs.Lanes
import ArmToolkit.Proofs.Lexemes
import ArmToolkit.Proofs.LoadedSettings
import ArmToolkit.Proofs.MacroFrames
import ArmToolkit.Proofs.MappedMemory
import ArmToolkit.Proofs.MarkedNumbers
import ArmToolkit.Proofs.MemoryHistory
import ArmToolkit.Proofs.MovedImmediate
import ArmToolkit.Proofs.MultiplyAccumulate
import ArmToolkit.Proofs.NextLane
import ArmToolkit.Proofs.Numerals
import ArmToolkit.Proofs.OperandReading
import ArmToolkit.Proofs.PatternCounts
import ArmToolkit.Proofs.PredicatedMacro
import ArmToolkit.Proofs.ProgramRuns
import ArmToolkit.Proofs.Reachable
import ArmToolkit.Proofs.Readings
import ArmToolkit.Proofs.Reductions
import ArmToolkit.Proofs.Refusals
import ArmToolkit.Proofs.RegisterCodes
import ArmToolkit.Proofs.Reloading
import ArmToolkit.Proofs.RotatedRuns
import ArmToolkit.Proofs.RoundTrip
import ArmToolkit.Proofs.SaturatingImmediate
import ArmToolkit.Proofs.ScratchPools
import ArmToolkit.Proofs.ScratchScopes
import ArmToolkit.Proofs.SelfTest
import ArmToolkit.Proofs.SingleInstructions
import ArmToolkit.Proofs.Slots
import ArmToolkit.Proofs.StraightLine
import ArmToolkit.Proofs.StrippedTexts
import ArmToolkit.Proofs.T32Operands
import ArmToolkit.Proofs.T32Text
import ArmToolkit.Proofs.TestedPredicates
import ArmToolkit.Proofs.TransferOffsets
import ArmToolkit.Proofs.VectorInstructions
import ArmToolkit.Proofs.VisibleLanes
import ArmToolkit.Proofs.WideImmediate
import ArmToolkit.Proofs.Words
import ArmToolkit.Runner.CommandLine
import ArmToolkit.Runner.Regression
import ArmToolkit.Runner.SelfTest
import ArmToolkit.Settings
import ArmToolkit.Settings.Store
import ArmToolkit.T32.Assembly
import ArmToolkit.T32.Form
import ArmToolkit.T32.Instruction
import ArmToolkit.T32.Stream
import ArmToolkit.Text.Ascii
import ArmToolkit.Text.HexBytes
import ArmToolkit.Text.Numeral
