import DocScript.Main
import DocScript.Machine.Rehearsal
import DocScript.Proofs.Bytecode.Assembly
import DocScript.Proofs.Compile.Emission
import DocScript.Proofs.Compile.Code
import DocScript.Proofs.Compile.CleanLowering
import DocScript.Proofs.Compile.ExprLowering
import DocScript.Proofs.Compile.StmtLowering
import DocScript.Proofs.Compile.Signatures
import DocScript.Proofs.Compile.Locals
import DocScript.Proofs.Compile.Translation
import DocScript.Proofs.Compile.Placeless
import DocScript.Proofs.Compile.SourceOrder
import DocScript.Proofs.Compile.Orderly
import DocScript.Proofs.Bytecode.Flow
import DocScript.Proofs.Compile.WellFormed
import DocScript.Proofs.Machine.Effect
import DocScript.Proofs.Compile.BodyFlow
import DocScript.Proofs.Machine.Stepping
import DocScript.Proofs.Machine.Reach
import DocScript.Proofs.Machine.FunctionFlow
import DocScript.Proofs.Machine.Endings
import DocScript.Proofs.Machine.Discipline
import DocScript.Proofs.Machine.Activations
import DocScript.Proofs.Machine.Instructions
import DocScript.Proofs.Machine.Execution
import DocScript.Proofs.Machine.ExprRun
import DocScript.Proofs.Machine.BodyRun
import DocScript.Proofs.Machine.StructuredBody
import DocScript.Proofs.Artifact.TextOrder
import DocScript.Proofs.Artifact.Reading
import DocScript.Proofs.Artifact.Spelling
import DocScript.Proofs.Artifact.Decoding
import DocScript.Proofs.Artifact.Canonical
import DocScript.Proofs.Artifact.RoundTrip
import DocScript.Proofs.Artifact.Delimited
import DocScript.Proofs.Machine.Entries
import DocScript.Proofs.Machine.Sparing
import DocScript.Proofs.Machine.Integrity
import DocScript.Proofs.Machine.Blameless
import DocScript.Proofs.Bytecode.Paths
import DocScript.Proofs.Compile.Balanced
import DocScript.Proofs.Compile.Resolution
import DocScript.Proofs.Machine.ArgumentBinding
import DocScript.Proofs.Machine.Regime
import DocScript.Proofs.Machine.Naming
import DocScript.Proofs.Machine.NamedCalls
import DocScript.Proofs.Machine.CallResolution
import DocScript.Proofs.Machine.EventStack
import DocScript.Proofs.Machine.Restoration
import DocScript.Proofs.Machine.Homogeneity
import DocScript.Proofs.Compile.DeclaredProgram
import DocScript.Proofs.Machine.Advance
import DocScript.Proofs.Machine.EntryResult
import DocScript.Proofs.Machine.FrameBounds
import DocScript.Proofs.Memory.Blocks
import DocScript.Proofs.Memory.Codec
import DocScript.Proofs.Memory.Calls
import DocScript.Proofs.Memory.Slots
import DocScript.Proofs.Memory.ByteMap
import DocScript.Proofs.Memory.Addresses
import DocScript.Proofs.Memory.Accounting
import DocScript.Proofs.Machine.Apart
import DocScript.Proofs.Machine.Replay
import DocScript.Proofs.Compile.Occurrence
import DocScript.Proofs.Compile.Passes
import DocScript.Proofs.Compile.BoundArguments
import DocScript.Proofs.Compile.Composition
import DocScript.Proofs.Compile.Stores
import DocScript.Proofs.Machine.FrameSteps
import DocScript.Proofs.Machine.Origins
import DocScript.Proofs.Machine.LocalKinds
import DocScript.Proofs.Compile.Assignment
import DocScript.Proofs.Machine.DefiniteAssignment
import DocScript.Proofs.Source.Allocation
import DocScript.Proofs.Compile.Prediction
import DocScript.Proofs.Machine.PredictedKinds
import DocScript.Proofs.Machine.CallDepth
import DocScript.Proofs.Machine.Computation
import DocScript.Proofs.Machine.IntegerArithmetic
import DocScript.Proofs.Binary64
import DocScript.Proofs.Machine.IntegerComparison
import DocScript.Proofs.Source.CapabilityCall
import DocScript.Proofs.Machine.CapabilityInstructions
import DocScript.Proofs.Machine.Marshalling
import DocScript.Proofs.Machine.Registry
import DocScript.Proofs.Machine.Dispatching
import DocScript.Proofs.Bytecode.Listing
import DocScript.Proofs.Machine.Listing
import DocScript.Proofs.Source.Levels
import DocScript.Proofs.Source.Grammar
import DocScript.Proofs.Compile.Grammar
import DocScript.Proofs.Source.Scanner
import DocScript.Proofs.Source.LineBounds
import DocScript.Proofs.Compile.Reports
import DocScript.Proofs.Source.PlainPath
import DocScript.Proofs.Source.WrittenDocument
import DocScript.Proofs.Source.WrittenParse
import DocScript.Proofs.Source.LineLookup
import DocScript.Proofs.Bytecode.Insertions
import DocScript.Proofs.Compile.Pooling
import DocScript.Proofs.Compile.Backpatching
import DocScript.Proofs.Files.Joining
import DocScript.Proofs.Files.Documents
