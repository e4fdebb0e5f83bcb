import WasmExec.Fault
import WasmExec.Width
import WasmExec.Integer
import WasmExec.Floating.Format
import WasmExec.Floating.Rounding
import WasmExec.Floating.Arithmetic
import WasmExec.Floating.Conversion
import WasmExec.Value
import WasmExec.Numeric
import WasmExec.LittleEndian
import WasmExec.Memory
import WasmExec.Instruction
import WasmExec.Mnemonic
import WasmExec.Describe
import WasmExec.Text.Numeral
import WasmExec.Floating.Decimal
import WasmExec.Display
import WasmExec.Json.Token
import WasmExec.Json.Document
import WasmExec.Script.Literal
import WasmExec.Script
import WasmExec.Script.Reading
import WasmExec.Text.Hexadecimal
import WasmExec.CommandLine.Argument
import WasmExec.Text.Printable
import WasmExec.Text.Quoted
import WasmExec.CommandLine.Options
import WasmExec.CommandLine.Evaluate
import WasmExec.CommandLine.RunScripts
import WasmExec.Main
import WasmExec.Proofs.Memory.Content
import WasmExec.Proofs.Memory.Operation
import WasmExec.Proofs.Memory.LastWrite
import WasmExec.Proofs.Machine.Action
import WasmExec.Proofs.Machine.Memory
import WasmExec.Proofs.Machine.Instruction
import WasmExec.Proofs.Instruction.Effect
import WasmExec.Proofs.Machine.Safety
import WasmExec.Proofs.Instruction.Frame
import WasmExec.Proofs.Instruction.Signature
import WasmExec.Proofs.Instruction.TypeSoundness
import WasmExec.Proofs.Instruction.Spelling
import WasmExec.Proofs.Instruction.Reader
import WasmExec.Proofs.Instruction.Reading
import WasmExec.Proofs.Integer.Reading
import WasmExec.Proofs.Integer.Division
import WasmExec.Proofs.Integer.BitCount
import WasmExec.Proofs.Integer.Counting
import WasmExec.Proofs.Integer.Rotation
import WasmExec.Proofs.Integer.Narrow
import WasmExec.Proofs.Floating.Magnitude
import WasmExec.Proofs.Floating.Interchange
import WasmExec.Proofs.Floating.Lattice
import WasmExec.Proofs.Floating.Exact
import WasmExec.Proofs.Floating.Truncation
import WasmExec.Proofs.Floating.Order
import WasmExec.Proofs.Floating.Nearest
import WasmExec.Proofs.Floating.IntegerConversion
import WasmExec.Proofs.Floating.Demotion
import WasmExec.Proofs.Floating.Comparison
import WasmExec.Proofs.Floating.Bits
import WasmExec.Proofs.Floating.Integral
import WasmExec.Proofs.Floating.SquareRoot
import WasmExec.Proofs.Floating.Operations
import WasmExec.Proofs.Memory.Codec
import WasmExec.Proofs.Machine.Buffer
import WasmExec.Proofs.Instruction.Access
import WasmExec.Proofs.Instruction.Bounds
import WasmExec.Proofs.Instruction.Bulk
import WasmExec.Proofs.Text.Numeral
import WasmExec.Proofs.Text.Hexadecimal
import WasmExec.Proofs.Text.Decimal
import WasmExec.Proofs.Script.Literal
import WasmExec.Proofs.Floating.Shortest
import WasmExec.Proofs.Floating.Decimal
import WasmExec.Proofs.Script.Run
import WasmExec.Proofs.CommandLine.Argument
import WasmExec.Proofs.CommandLine.Agreement
import WasmExec.Proofs.CommandLine.Display
import WasmExec.Proofs.CommandLine.Segment
import WasmExec.Proofs.Machine.Text
import WasmExec.Proofs.CommandLine.Pairs
import WasmExec.Proofs.CommandLine.Acceptance
import WasmExec.Proofs.Machine.Argument
import WasmExec.Proofs.Machine.Segment
import WasmExec.Proofs.CommandLine.Readings
import WasmExec.Proofs.Script.Expectation
import WasmExec.Proofs.Script.Report
import WasmExec.Proofs.Script.Verdict
import WasmExec.Proofs.Json.Grammar
import WasmExec.Proofs.Json.Scanning
import WasmExec.Proofs.Json.Kept
import WasmExec.Proofs.Json.Range
import WasmExec.Proofs.Json.Parsing
import WasmExec.Proofs.Script.Rendering
import WasmExec.Proofs.Script.Members
import WasmExec.Proofs.Script.Shape
import WasmExec.Proofs.Script.Strictness
import WasmExec.Proofs.Json.Writing
