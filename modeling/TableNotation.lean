import TableNotation.CommandLine.Answer
import TableNotation.Compression.Algorithm
import TableNotation.Document.Decoding
import TableNotation.Document.Encoding
import TableNotation.Json.Printer
import TableNotation.Json.Reader
import TableNotation.Main
import TableNotation.Proofs.Compression.Contents
import TableNotation.Proofs.Compression.Estimate
import TableNotation.Proofs.Compression.Idempotence
import TableNotation.Proofs.Compression.Lossless
import TableNotation.Proofs.Document.Acceptance
import TableNotation.Proofs.Document.Appending
import TableNotation.Proofs.Document.CosmeticEdits
import TableNotation.Proofs.Document.DirectiveForm
import TableNotation.Proofs.Document.LineGrammar
import TableNotation.Proofs.Document.LineKinds
import TableNotation.Proofs.Document.Options
import TableNotation.Proofs.Document.Reading
import TableNotation.Proofs.Document.RoundTrip
import TableNotation.Proofs.Document.TableNames
import TableNotation.Proofs.Document.Tables
import TableNotation.Proofs.Document.Truncation
import TableNotation.Proofs.Literal.OneLine
import TableNotation.Proofs.Literal.Recutting
import TableNotation.Proofs.Literal.RoundTrip
import TableNotation.Proofs.Literal.Shape
import TableNotation.Proofs.Literal.Splitting
import TableNotation.Proofs.Number.Forms
import TableNotation.Proofs.Number.Ordering
import TableNotation.Proofs.Number.Quotient
import TableNotation.Proofs.Number.ReadBack
import TableNotation.Proofs.Number.Rounding
import TableNotation.Proofs.Query.Answers
import TableNotation.Proofs.Query.Comparisons
import TableNotation.Proofs.Query.Completeness
import TableNotation.Proofs.Query.Connectives
import TableNotation.Proofs.Query.Coverage
import TableNotation.Proofs.Query.Grammar
import TableNotation.Proofs.Query.Lexemes
import TableNotation.Proofs.Query.Lexing
import TableNotation.Proofs.Query.LiteralText
import TableNotation.Proofs.Query.Literals
import TableNotation.Proofs.Query.MixedColumns
import TableNotation.Proofs.Query.Ordering
import TableNotation.Proofs.Query.Parsing
import TableNotation.Proofs.Query.Patterns
import TableNotation.Proofs.Query.Printing
import TableNotation.Proofs.Query.Projection
import TableNotation.Proofs.Query.Ranges
import TableNotation.Proofs.Query.Refusals
import TableNotation.Proofs.Query.Selection
import TableNotation.Proofs.Query.Tokenizing
import TableNotation.Proofs.Query.Wrapping
import TableNotation.Proofs.SortedMap
import TableNotation.Proofs.Stream.Prefixes
import TableNotation.Proofs.Stream.Tiling
import TableNotation.Proofs.Success
import TableNotation.Proofs.Table.AnyLayout
import TableNotation.Proofs.Table.DirectiveLine
import TableNotation.Proofs.Table.HeaderLine
import TableNotation.Proofs.Table.Inference
import TableNotation.Proofs.Table.Majority
import TableNotation.Proofs.Table.Renaming
import TableNotation.Proofs.Table.RowLine
import TableNotation.Proofs.Table.WrittenDirectives
import TableNotation.Proofs.Text.Lines
import TableNotation.Proofs.Text.Trimming
import TableNotation.Proofs.Value.Mapping
import TableNotation.Proofs.Value.Ordering
import TableNotation.Proofs.Value.Sameness
import TableNotation.Proofs.Value.ZeroSign
import TableNotation.Query.Execution
import TableNotation.Query.Selection
import TableNotation.Settings.Reader
import TableNotation.Stream.Chunk
