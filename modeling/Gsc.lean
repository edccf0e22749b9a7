import Gsc.Main
import Gsc.Proofs.Bytes
import Gsc.Proofs.Deflate.Format
import Gsc.Proofs.Deflate.Huffman
import Gsc.Proofs.Deflate.Inflation
import Gsc.Proofs.Deflate.Compression
import Gsc.Proofs.Deflate.Stored
import Gsc.Proofs.Except
import Gsc.Proofs.Image.Defects
import Gsc.Proofs.Image.Encoding
import Gsc.Proofs.Image.RoundTrip
import Gsc.Proofs.Image.Stack
import Gsc.Proofs.Image.StringPool
import Gsc.Proofs.Image.Sweep
import Gsc.Proofs.Image.Tiling
import Gsc.Proofs.Inspection
import Gsc.Proofs.Lowering.Code
import Gsc.Proofs.Lowering.Discipline
import Gsc.Proofs.Lowering.Emission
import Gsc.Proofs.Lowering.Growth
import Gsc.Proofs.Lowering.Machine
import Gsc.Proofs.Lowering.Semantics
import Gsc.Proofs.Lowering.Simulation
import Gsc.Proofs.Peg.Derivations
import Gsc.Proofs.Peg.Layout
import Gsc.Proofs.Script.Building
import Gsc.Proofs.Script.Definitions
import Gsc.Proofs.Utf8
import Gsc.Proofs.Host.Publication
import Gsc.Proofs.Host.Session
import Gsc.Proofs.Lowering.Operands
import Gsc.Proofs.Image.Assembling
import Gsc.Proofs.Lowering.Literals
import Gsc.Proofs.Peg.Outcomes
import Gsc.Proofs.Peg.Yields
import Gsc.Proofs.Peg.Spelling
import Gsc.Proofs.Script.Names
import Gsc.Proofs.Compiled
import Gsc.Proofs.Peg.Calls
import Gsc.Proofs.Peg.Termination
import Gsc.Proofs.Peg.Matching
import Gsc.Proofs.Script.Bare
import Gsc.Proofs.Script.Depth
import Gsc.Proofs.Script.Reading
import Gsc.Proofs.Script.Tokens
import Gsc.Proofs.Script.Lexemes
import Gsc.Proofs.NormalNames
import Gsc.Proofs.Script.Productions
import Gsc.Proofs.Script.Calls
import Gsc.Proofs.Script.Printing
import Gsc.Proofs.Peg.Shapes
import Gsc.Proofs.Peg.Grouping
import Gsc.Proofs.Script.Operators
import Gsc.Proofs.Script.Meanings
import Gsc.Proofs.Script.Readable
import Gsc.Proofs.Script.Uses
import Gsc.Proofs.Lowering.Visits
import Gsc.Proofs.Lowering.Evaluation
import Gsc.Proofs.Lowering.Runs
import Gsc.Proofs.Lowering.Invariants
import Gsc.Proofs.Lowering.Locals
import Gsc.Proofs.Lowering.LocalCalls
import Gsc.Proofs.Lowering.Reports
import Gsc.Proofs.Lowering.Integers
import Gsc.Proofs.Peg.Pratt
import Gsc.Proofs.Peg.Places
import Gsc.Proofs.Script.SyntaxErrors
import Gsc.Proofs.Script.Outlines
import Gsc.Proofs.Script.Nesting
import Gsc.Proofs.Source.Positions
import Gsc.Proofs.Source.Excerpts
import Gsc.Proofs.Artifact.Parts
import Gsc.Proofs.Script.Numbers
import Gsc.Proofs.Image.Interning
import Gsc.Proofs.Image.Numbering
import Gsc.Proofs.Digits
import Gsc.Proofs.Naming.Tables
import Gsc.Proofs.Naming.Numerals
import Gsc.Proofs.Host.Loading
import Gsc.Proofs.Host.Preloading
import Gsc.Proofs.Source.Faults
import Gsc.Proofs.Files.Descents
import Gsc.Proofs.Host.Confinement
import Gsc.Proofs.Host.Scanning
import Gsc.Proofs.Lowering.Extension
