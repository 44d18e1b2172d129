import Stencil.Assembly
import Stencil.Bytes
import Stencil.Compile
import Stencil.Descriptor
import Stencil.Effect
import Stencil.Error
import Stencil.Frame
import Stencil.Identifier
import Stencil.Instruction
import Stencil.Intrinsic
import Stencil.Label
import Stencil.Machine.Fault
import Stencil.Machine.Heap
import Stencil.Machine.Invocation
import Stencil.Machine.Memory
import Stencil.Machine.Program
import Stencil.Mips.Allocation
import Stencil.Mips.Backend
import Stencil.Mips.Convention
import Stencil.Mips.Decision
import Stencil.Mips.Guard
import Stencil.Mips.Instr
import Stencil.Mips.Integer
import Stencil.Mips.Machine
import Stencil.Mips.Storage
import Stencil.Mips.Transfer
import Stencil.Opcode.Basic
import Stencil.Opcode.Catalogue
import Stencil.Opcode.Operation
import Stencil.Options
import Stencil.Proofs.Access.Copies
import Stencil.Proofs.Access.Footprint
import Stencil.Proofs.Access.Places
import Stencil.Proofs.Access.Targets
import Stencil.Proofs.Access.Values
import Stencil.Proofs.Arithmetic.Bits
import Stencil.Proofs.Arithmetic.Computes
import Stencil.Proofs.Arithmetic.Conversions
import Stencil.Proofs.Arithmetic.Targets
import Stencil.Proofs.Assembly
import Stencil.Proofs.Assembly.Labels
import Stencil.Proofs.Calls.Agreement
import Stencil.Proofs.Calls.Targets
import Stencil.Proofs.Casts.Chain
import Stencil.Proofs.Casts.Targets
import Stencil.Proofs.Compile
import Stencil.Proofs.Dispatch.Lineage
import Stencil.Proofs.Dispatch.Tables
import Stencil.Proofs.Dispatch.Targets
import Stencil.Proofs.Errors.Contract
import Stencil.Proofs.Errors.Lookups
import Stencil.Proofs.Errors.Sites
import Stencil.Proofs.Errors.Templates
import Stencil.Proofs.Execution.Block
import Stencil.Proofs.Execution.Frame
import Stencil.Proofs.Execution.Moves
import Stencil.Proofs.Execution.Path
import Stencil.Proofs.Execution.Turns
import Stencil.Proofs.Frame
import Stencil.Proofs.Height.Footprints
import Stencil.Proofs.Height.Paths
import Stencil.Proofs.Height.Place
import Stencil.Proofs.Height.Targets
import Stencil.Proofs.Height.Track
import Stencil.Proofs.Height.Words
import Stencil.Proofs.Isolation.Lockstep
import Stencil.Proofs.Isolation.Needs
import Stencil.Proofs.Isolation.Targets
import Stencil.Proofs.Labels.Basic
import Stencil.Proofs.Labels.Closure
import Stencil.Proofs.Labels.Targets
import Stencil.Proofs.Labels.Text
import Stencil.Proofs.Machine.Code
import Stencil.Proofs.Machine.Data
import Stencil.Proofs.Machine.Faults
import Stencil.Proofs.Machine.Layout
import Stencil.Proofs.Machine.Link
import Stencil.Proofs.Machine.Placement
import Stencil.Proofs.Machine.Released
import Stencil.Proofs.Machine.Spans
import Stencil.Proofs.Machine.StackWords
import Stencil.Proofs.Machine.Symbols
import Stencil.Proofs.Meaning.Interpreter
import Stencil.Proofs.Meaning.Words
import Stencil.Proofs.Mips.Accesses
import Stencil.Proofs.Mips.Alignment
import Stencil.Proofs.Mips.Balance
import Stencil.Proofs.Mips.Casts
import Stencil.Proofs.Mips.Cells
import Stencil.Proofs.Mips.Checks
import Stencil.Proofs.Mips.Convention
import Stencil.Proofs.Mips.Copies
import Stencil.Proofs.Mips.Decision
import Stencil.Proofs.Mips.DelaySlots
import Stencil.Proofs.Mips.Dispatch
import Stencil.Proofs.Mips.Displacements
import Stencil.Proofs.Mips.Division
import Stencil.Proofs.Mips.Encoding
import Stencil.Proofs.Mips.Faults
import Stencil.Proofs.Mips.Height
import Stencil.Proofs.Mips.Integer
import Stencil.Proofs.Mips.Invocation
import Stencil.Proofs.Mips.Isolation
import Stencil.Proofs.Mips.Labels
import Stencil.Proofs.Mips.Leftovers
import Stencil.Proofs.Mips.Machine
import Stencil.Proofs.Mips.Moves
import Stencil.Proofs.Mips.Objects
import Stencil.Proofs.Mips.Path
import Stencil.Proofs.Mips.Product
import Stencil.Proofs.Mips.Releases
import Stencil.Proofs.Mips.Rests
import Stencil.Proofs.Mips.Symbols
import Stencil.Proofs.Mips.Templates
import Stencil.Proofs.Mips.Touch
import Stencil.Proofs.Mips.Transfers
import Stencil.Proofs.Mips.View
import Stencil.Proofs.Mips.Ways
import Stencil.Proofs.Mips.Words
import Stencil.Proofs.Objects.Allocation
import Stencil.Proofs.Objects.Basic
import Stencil.Proofs.Objects.Requests
import Stencil.Proofs.Objects.Targets
import Stencil.Proofs.Releases.Targets
import Stencil.Proofs.Sites.Targets
import Stencil.Proofs.Reuse.Basic
import Stencil.Proofs.Reuse.Targets
import Stencil.Proofs.Running.Invocation
import Stencil.Proofs.Running.Method
import Stencil.Proofs.Running.Steps
import Stencil.Proofs.Running.Targets
import Stencil.Proofs.Simulation.Effects
import Stencil.Proofs.Simulation.Fresh
import Stencil.Proofs.Simulation.Regular
import Stencil.Proofs.Simulation.Shape
import Stencil.Proofs.Stateful
import Stencil.Proofs.Symbols.Basic
import Stencil.Proofs.Symbols.Link
import Stencil.Proofs.Symbols.Targets
import Stencil.Proofs.Walk.Allocations
import Stencil.Proofs.Walk.Regular
import Stencil.Proofs.Walk.Run
import Stencil.Proofs.Walk.Soundness
import Stencil.Proofs.Walk.Step
import Stencil.Proofs.Walk.Words
import Stencil.Proofs.Ways.Basic
import Stencil.Proofs.Ways.Targets
import Stencil.Proofs.X86.Accesses
import Stencil.Proofs.X86.Balance
import Stencil.Proofs.X86.Casts
import Stencil.Proofs.X86.Cells
import Stencil.Proofs.X86.Checks
import Stencil.Proofs.X86.Convention
import Stencil.Proofs.X86.Copies
import Stencil.Proofs.X86.Decision
import Stencil.Proofs.X86.Dispatch
import Stencil.Proofs.X86.Division
import Stencil.Proofs.X86.Faults
import Stencil.Proofs.X86.Height
import Stencil.Proofs.X86.Integer
import Stencil.Proofs.X86.Invocation
import Stencil.Proofs.X86.Isolation
import Stencil.Proofs.X86.Labels
import Stencil.Proofs.X86.Leftovers
import Stencil.Proofs.X86.Machine
import Stencil.Proofs.X86.Moves
import Stencil.Proofs.X86.Objects
import Stencil.Proofs.X86.Path
import Stencil.Proofs.X86.Releases
import Stencil.Proofs.X86.Rests
import Stencil.Proofs.X86.Symbols
import Stencil.Proofs.X86.Templates
import Stencil.Proofs.X86.Touch
import Stencil.Proofs.X86.Transfers
import Stencil.Proofs.X86.View
import Stencil.Proofs.X86.Ways
import Stencil.Proofs.X86.Words
import Stencil.Simulation
import Stencil.Stack.Basic
import Stencil.Table
import Stencil.Target.Basic
import Stencil.Target.Comparison
import Stencil.Text.Hex
import Stencil.Walk
import Stencil.Word
import Stencil.X86.Allocation
import Stencil.X86.Backend
import Stencil.X86.Convention
import Stencil.X86.Decision
import Stencil.X86.Guard
import Stencil.X86.Instr
import Stencil.X86.Integer
import Stencil.X86.Machine
import Stencil.X86.Storage
import Stencil.X86.Transfer
