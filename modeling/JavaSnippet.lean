import JavaSnippet.Arithmetic
import JavaSnippet.Bytes
import JavaSnippet.ClassFile.Basic
import JavaSnippet.ClassFile.Constant
import JavaSnippet.ClassFile.Decode
import JavaSnippet.ClassFile.Encode
import JavaSnippet.ClassFile.Fault
import JavaSnippet.ClassFile.Flags
import JavaSnippet.ClassFile.Input
import JavaSnippet.ClassFile.Instruction
import JavaSnippet.ClassFile.MethodBody
import JavaSnippet.ClassFile.Pool
import JavaSnippet.ClassFile.Release
import JavaSnippet.ClassFile.Superclass
import JavaSnippet.ClassPath.Basic
import JavaSnippet.ClassPath.Compiled
import JavaSnippet.ClassPath.Hierarchy
import JavaSnippet.ClassPath.Platform
import JavaSnippet.CommandLine
import JavaSnippet.Compile.Compilation
import JavaSnippet.Compile.Emission
import JavaSnippet.Decimal.Shortest
import JavaSnippet.Descriptor
import JavaSnippet.Descriptor.Shown
import JavaSnippet.Descriptor.Source
import JavaSnippet.Descriptor.Text
import JavaSnippet.Evaluation.CallText
import JavaSnippet.Evaluation.Definition
import JavaSnippet.Evaluation.Evaluate
import JavaSnippet.Evaluation.Fault
import JavaSnippet.Evaluation.Progress
import JavaSnippet.Evaluation.Settings
import JavaSnippet.Evaluation.StaticCall
import JavaSnippet.Main
import JavaSnippet.Name
import JavaSnippet.Proofs.Bytes
import JavaSnippet.Proofs.ClassFile.Accounting
import JavaSnippet.Proofs.ClassFile.Building
import JavaSnippet.Proofs.ClassFile.Canonical
import JavaSnippet.Proofs.ClassFile.Reading
import JavaSnippet.Proofs.ClassFile.Delimiting
import JavaSnippet.Proofs.ClassFile.Flags
import JavaSnippet.Proofs.ClassFile.Idempotence
import JavaSnippet.Proofs.ClassFile.Interning
import JavaSnippet.Proofs.ClassFile.Kinds
import JavaSnippet.Proofs.ClassFile.Limits
import JavaSnippet.Proofs.ClassFile.MethodBody
import JavaSnippet.Proofs.ClassFile.Pool
import JavaSnippet.Proofs.ClassFile.References
import JavaSnippet.Proofs.ClassFile.Refusal
import JavaSnippet.Proofs.ClassFile.Requests
import JavaSnippet.Proofs.ClassFile.RoundTrip
import JavaSnippet.Proofs.ClassFile.Spelling
import JavaSnippet.Proofs.ClassFile.Superclass
import JavaSnippet.Proofs.ClassPath.Alike
import JavaSnippet.Proofs.ClassPath.Inheritance
import JavaSnippet.Proofs.ClassPath.Methods
import JavaSnippet.Proofs.ClassPath.Reachability
import JavaSnippet.Proofs.ClassPath.Searching
import JavaSnippet.Proofs.ClassPath.Subtyping
import JavaSnippet.Proofs.ClassPath.Walking
import JavaSnippet.Proofs.Compile.Abstract
import JavaSnippet.Proofs.Compile.Accepted
import JavaSnippet.Proofs.Compile.Agreement
import JavaSnippet.Proofs.Compile.Calls
import JavaSnippet.Proofs.Compile.Choices
import JavaSnippet.Proofs.Compile.Codes
import JavaSnippet.Proofs.Compile.Creations
import JavaSnippet.Proofs.Compile.Declarations
import JavaSnippet.Proofs.Compile.Diagnostics
import JavaSnippet.Proofs.Compile.Emission
import JavaSnippet.Proofs.Compile.Evaluation
import JavaSnippet.Proofs.Compile.Finished
import JavaSnippet.Proofs.Compile.Headers
import JavaSnippet.Proofs.Compile.Layout
import JavaSnippet.Proofs.Compile.Limits
import JavaSnippet.Proofs.Compile.Linkage
import JavaSnippet.Proofs.Compile.Nesting
import JavaSnippet.Proofs.Compile.Operands
import JavaSnippet.Proofs.Compile.Order
import JavaSnippet.Proofs.Compile.ProblemLines
import JavaSnippet.Proofs.Compile.ReadBack
import JavaSnippet.Proofs.Compile.References
import JavaSnippet.Proofs.Compile.Requests
import JavaSnippet.Proofs.Compile.Room
import JavaSnippet.Proofs.Compile.Separate
import JavaSnippet.Proofs.Compile.Simulation
import JavaSnippet.Proofs.Compile.Soundness
import JavaSnippet.Proofs.Compile.Stages
import JavaSnippet.Proofs.Compile.Typed
import JavaSnippet.Proofs.Compile.Units
import JavaSnippet.Proofs.Compile.Variables
import JavaSnippet.Proofs.Compile.Verified
import JavaSnippet.Proofs.Contract
import JavaSnippet.Proofs.Descriptor.Source
import JavaSnippet.Proofs.Descriptor.Text
import JavaSnippet.Proofs.Evaluation.CallText
import JavaSnippet.Proofs.Evaluation.Choosing
import JavaSnippet.Proofs.Evaluation.Costs
import JavaSnippet.Proofs.Evaluation.Custody
import JavaSnippet.Proofs.Evaluation.Definition
import JavaSnippet.Proofs.Evaluation.Passing
import JavaSnippet.Proofs.Evaluation.Recording
import JavaSnippet.Proofs.Evaluation.Slice
import JavaSnippet.Proofs.Evaluation.Stages
import JavaSnippet.Proofs.Fallible
import JavaSnippet.Proofs.Machine.Execution
import JavaSnippet.Proofs.Machine.Fetch
import JavaSnippet.Proofs.Machine.Loading
import JavaSnippet.Proofs.Machine.Value
import JavaSnippet.Proofs.Machine.Operations
import JavaSnippet.Proofs.Machine.Verifier
import JavaSnippet.Proofs.Name
import JavaSnippet.Proofs.SlotTable
import JavaSnippet.Proofs.Source.Activations
import JavaSnippet.Proofs.Source.Depth
import JavaSnippet.Proofs.Source.Descent
import JavaSnippet.Proofs.Source.Meaning
import JavaSnippet.Proofs.Source.Expressions
import JavaSnippet.Proofs.Source.Layout
import JavaSnippet.Proofs.Source.Lexical
import JavaSnippet.Proofs.Source.Literals
import JavaSnippet.Proofs.Source.Lockstep
import JavaSnippet.Proofs.Source.Parsing
import JavaSnippet.Proofs.Source.Printed
import JavaSnippet.Proofs.Source.Printing
import JavaSnippet.Proofs.Source.Reading
import JavaSnippet.Proofs.Source.Spelling
import JavaSnippet.Proofs.Source.Statements
import JavaSnippet.Proofs.Source.TokenLines
import JavaSnippet.Proofs.Source.TreeLines
import JavaSnippet.Proofs.Source.Units
import JavaSnippet.Proofs.Source.Words
import JavaSnippet.Proofs.Target.Calls
import JavaSnippet.Proofs.Target.Custody
import JavaSnippet.Proofs.Target.Recording
import JavaSnippet.Proofs.Target.Release
import JavaSnippet.Proofs.Text.Lengths
import JavaSnippet.Proofs.Text.ModifiedUtf8
import JavaSnippet.Proofs.Text.Trimming
import JavaSnippet.Proofs.Text.Utf8
import JavaSnippet.Proofs.Typing.Alike
import JavaSnippet.Proofs.Typing.Body
import JavaSnippet.Proofs.Typing.Expressions
import JavaSnippet.Proofs.Typing.Kinds
import JavaSnippet.Proofs.Typing.Names
import JavaSnippet.Proofs.Typing.Overload
import JavaSnippet.Proofs.Typing.ProblemLines
import JavaSnippet.Proofs.Typing.Specificity
import JavaSnippet.Proofs.Typing.TypeScope
import JavaSnippet.Proofs.Typing.Variables
import JavaSnippet.Proofs.Wire.Balance
import JavaSnippet.Proofs.Wire.Borrowing
import JavaSnippet.Proofs.Wire.Delivery
import JavaSnippet.Proofs.Wire.Dialogue
import JavaSnippet.Proofs.Wire.Exchange
import JavaSnippet.Proofs.Wire.Fields
import JavaSnippet.Proofs.Wire.Framing
import JavaSnippet.Proofs.Wire.Handles
import JavaSnippet.Proofs.Wire.Identifiers
import JavaSnippet.Proofs.Wire.Items
import JavaSnippet.Proofs.Wire.Operations
import JavaSnippet.Proofs.Wire.Pinning
import JavaSnippet.Proofs.Wire.Remembering
import JavaSnippet.Proofs.Wire.Reports
import JavaSnippet.Proofs.Wire.Searching
import JavaSnippet.Proofs.Wire.Startup
import JavaSnippet.SlotTable
import JavaSnippet.Source.Parser
import JavaSnippet.Source.Syntax
import JavaSnippet.Source.Token
import JavaSnippet.Target.Fault
import JavaSnippet.Target.Operation
import JavaSnippet.Target.Suspension
import JavaSnippet.Target.Value
import JavaSnippet.Text.AlphabeticTable
import JavaSnippet.Text.CharClass
import JavaSnippet.Text.ExtendTable
import JavaSnippet.Text.ModifiedUtf8
import JavaSnippet.Text.NumericTable
import JavaSnippet.Text.Quoted
import JavaSnippet.Text.UnprintableTable
import JavaSnippet.Text.Utf16
import JavaSnippet.Text.Utf8
import JavaSnippet.Typing.Body
import JavaSnippet.Typing.Overload
import JavaSnippet.Typing.Problem
import JavaSnippet.Typing.Term
import JavaSnippet.Typing.TypeScope
import JavaSnippet.Wire.Command
import JavaSnippet.Wire.Connection
import JavaSnippet.Wire.Data
import JavaSnippet.Wire.Event
import JavaSnippet.Wire.Fault
import JavaSnippet.Wire.Packet
import JavaSnippet.Wire.Request
import JavaSnippet.Wire.Session
