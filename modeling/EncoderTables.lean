import EncoderTables.Arch.Category
import EncoderTables.Arch.Parameter
import EncoderTables.Arch.Register
import EncoderTables.Arch.StatusBit
import EncoderTables.Bits
import EncoderTables.Code.Element
import EncoderTables.Code.File
import EncoderTables.Code.Printer
import EncoderTables.Code.Type
import EncoderTables.Code.Wrap
import EncoderTables.Digest.Md5
import EncoderTables.Domain.Basic
import EncoderTables.Domain.Default
import EncoderTables.Domain.Registry
import EncoderTables.Encoding.Node
import EncoderTables.Failure
import EncoderTables.Generator.Body
import EncoderTables.Generator.Emission
import EncoderTables.Generator.Function
import EncoderTables.Generator.ListGraph
import EncoderTables.Generator.Phase
import EncoderTables.Generator.Schedule
import EncoderTables.Generator.Session
import EncoderTables.Generator.Settings
import EncoderTables.Generator.Tables
import EncoderTables.Instruction.Basic
import EncoderTables.Instruction.Set
import EncoderTables.Naming
import EncoderTables.Operand.Basic
import EncoderTables.Operand.Entry
import EncoderTables.Operand.Form
import EncoderTables.Operand.StatusRegister
import EncoderTables.Parameters.Accessor
import EncoderTables.Parameters.Kind
import EncoderTables.Parameters.Layout
import EncoderTables.Proofs.Code.Continuations
import EncoderTables.Proofs.Code.Includes
import EncoderTables.Proofs.Code.LaidLines
import EncoderTables.Proofs.Code.Layout
import EncoderTables.Proofs.Code.Literals
import EncoderTables.Proofs.Code.Nesting
import EncoderTables.Proofs.Code.Outline
import EncoderTables.Proofs.Code.Pieces
import EncoderTables.Proofs.Code.Widths
import EncoderTables.Proofs.Domain.Canonical
import EncoderTables.Proofs.Domain.Names
import EncoderTables.Proofs.Domain.Registration
import EncoderTables.Proofs.Domain.Values
import EncoderTables.Proofs.Encoding.Matching
import EncoderTables.Proofs.Encoding.Meaning
import EncoderTables.Proofs.Encoding.Reads
import EncoderTables.Proofs.Encoding.Sameness
import EncoderTables.Proofs.Encoding.Shown
import EncoderTables.Proofs.Encoding.Unnamed
import EncoderTables.Proofs.Encoding.Unwrapped
import EncoderTables.Proofs.Generator.ActionTexts
import EncoderTables.Proofs.Generator.Attempts
import EncoderTables.Proofs.Generator.Blocks
import EncoderTables.Proofs.Generator.Completeness
import EncoderTables.Proofs.Generator.Consistency
import EncoderTables.Proofs.Generator.Constants
import EncoderTables.Proofs.Generator.DefinedNames
import EncoderTables.Proofs.Generator.DomainConstants
import EncoderTables.Proofs.Generator.EffectReads
import EncoderTables.Proofs.Generator.Effects
import EncoderTables.Proofs.Generator.Enumerators
import EncoderTables.Proofs.Generator.ExpressionTexts
import EncoderTables.Proofs.Generator.FailureLabels
import EncoderTables.Proofs.Generator.Faithfulness
import EncoderTables.Proofs.Generator.FieldFit
import EncoderTables.Proofs.Generator.Functions
import EncoderTables.Proofs.Generator.Histories
import EncoderTables.Proofs.Generator.Identifiers
import EncoderTables.Proofs.Generator.LaidFunctions
import EncoderTables.Proofs.Generator.LaterPhases
import EncoderTables.Proofs.Generator.Literals
import EncoderTables.Proofs.Generator.Members
import EncoderTables.Proofs.Generator.Merging
import EncoderTables.Proofs.Generator.Missing
import EncoderTables.Proofs.Generator.Moments
import EncoderTables.Proofs.Generator.OperandFailures
import EncoderTables.Proofs.Generator.OperandTables
import EncoderTables.Proofs.Generator.OrderDomains
import EncoderTables.Proofs.Generator.OrderedLoops
import EncoderTables.Proofs.Generator.Outlines
import EncoderTables.Proofs.Generator.OwnBodies
import EncoderTables.Proofs.Generator.PackedValues
import EncoderTables.Proofs.Generator.ParameterLists
import EncoderTables.Proofs.Generator.Performing
import EncoderTables.Proofs.Generator.Progress
import EncoderTables.Proofs.Generator.Reachability
import EncoderTables.Proofs.Generator.References
import EncoderTables.Proofs.Generator.Renaming
import EncoderTables.Proofs.Generator.RoutineNames
import EncoderTables.Proofs.Generator.Routines
import EncoderTables.Proofs.Generator.RunFunctions
import EncoderTables.Proofs.Generator.Runs
import EncoderTables.Proofs.Generator.SameCode
import EncoderTables.Proofs.Generator.Scheduling
import EncoderTables.Proofs.Generator.Scopes
import EncoderTables.Proofs.Generator.SharedStorage
import EncoderTables.Proofs.Generator.Spreading
import EncoderTables.Proofs.Generator.TableAgreement
import EncoderTables.Proofs.Generator.Texts
import EncoderTables.Proofs.Generator.Writing
import EncoderTables.Proofs.Instruction.Contents
import EncoderTables.Proofs.Instruction.Filling
import EncoderTables.Proofs.Instruction.Names
import EncoderTables.Proofs.Instruction.Signature
import EncoderTables.Proofs.Naming
import EncoderTables.Proofs.Operand.Binding
import EncoderTables.Proofs.Operand.Forms
import EncoderTables.Proofs.Operand.Grammar
import EncoderTables.Proofs.Operand.Numbering
import EncoderTables.Proofs.Operand.Specification
import EncoderTables.Proofs.Operand.StatusBits
import EncoderTables.Proofs.Parameters.Fields
import EncoderTables.Proofs.Parameters.Grouping
import EncoderTables.Proofs.Parameters.Packing
import EncoderTables.Proofs.Sharing.Directories
import EncoderTables.Proofs.Sharing.OrderTables
import EncoderTables.Proofs.Sharing.Recorded
import EncoderTables.Proofs.Sharing.Requests
import EncoderTables.Proofs.Sharing.Sequences
import EncoderTables.Proofs.Simulation
import EncoderTables.Proofs.Steps
import EncoderTables.Proofs.Text.Identifiers
import EncoderTables.Proofs.Text.Lines
import EncoderTables.Proofs.Text.Reading
import EncoderTables.Proofs.X64.Decoding
import EncoderTables.Proofs.X64.OperandForms
import EncoderTables.Scalar
import EncoderTables.Sharing.Ledger
import EncoderTables.Sharing.Permutation
import EncoderTables.Text.Blank
import EncoderTables.Text.Digit
import EncoderTables.Text.Letter
import EncoderTables.Text.Number
import EncoderTables.Text.Printable
import EncoderTables.Text.Quoted
import EncoderTables.Text.Tabs
import EncoderTables.Text.Upper
import EncoderTables.X64.Form
import EncoderTables.X64.InstructionSet
