import SourceModel.Attachment
import SourceModel.Attachment.Table
import SourceModel.Calc.Cst
import SourceModel.Calc.FrontEnd
import SourceModel.Calc.Kinds
import SourceModel.Calc.Lexer
import SourceModel.Calc.Lowering
import SourceModel.Calc.Outline
import SourceModel.Calc.Parser
import SourceModel.Calc.Sections
import SourceModel.Calc.Template
import SourceModel.Calc.Token
import SourceModel.Cancellation
import SourceModel.CommandLine.Arguments
import SourceModel.CommandLine.Command
import SourceModel.CommandLine.FileTree
import SourceModel.CommandLine.Files
import SourceModel.CommandLine.Help
import SourceModel.CommandLine.OpenedFile
import SourceModel.CommandLine.Report
import SourceModel.CommandLine.Run
import SourceModel.Config
import SourceModel.Config.Format
import SourceModel.Config.Json.Reader
import SourceModel.Config.Schema
import SourceModel.Config.Setting
import SourceModel.Config.Starter
import SourceModel.Config.Toml.Reader
import SourceModel.Config.Toml.Scalar
import SourceModel.Config.Toml.Table
import SourceModel.Config.Yaml.Reader
import SourceModel.Config.Yaml.Scalar
import SourceModel.Config.Yaml.Scan
import SourceModel.Config.Yaml.Text
import SourceModel.Config.Yaml.Token
import SourceModel.Config.Yaml.Tokens
import SourceModel.Content
import SourceModel.Document
import SourceModel.Document.Dispatcher
import SourceModel.Document.Pair
import SourceModel.Document.Partition
import SourceModel.Document.Sections
import SourceModel.Element
import SourceModel.Element.Order
import SourceModel.Fault
import SourceModel.FrontEnd
import SourceModel.Json
import SourceModel.Level
import SourceModel.Main
import SourceModel.NameAccess
import SourceModel.Outline
import SourceModel.Proofs.Attachment.Index
import SourceModel.Proofs.Attachment.Owners
import SourceModel.Proofs.Calc.Acceptance
import SourceModel.Proofs.Calc.Associativity
import SourceModel.Proofs.Calc.Attaching
import SourceModel.Proofs.Calc.Boundaries
import SourceModel.Proofs.Calc.Bounds
import SourceModel.Proofs.Calc.Brackets
import SourceModel.Proofs.Calc.Carrying
import SourceModel.Proofs.Calc.Concatenation
import SourceModel.Proofs.Calc.Contents
import SourceModel.Proofs.Calc.Cursor
import SourceModel.Proofs.Calc.Draft
import SourceModel.Proofs.Calc.Elements
import SourceModel.Proofs.Calc.ErrorNodes
import SourceModel.Proofs.Calc.Grammar
import SourceModel.Proofs.Calc.Grouping
import SourceModel.Proofs.Calc.Hosting
import SourceModel.Proofs.Calc.Items
import SourceModel.Proofs.Calc.Lexemes
import SourceModel.Proofs.Calc.Lexing
import SourceModel.Proofs.Calc.Lowered
import SourceModel.Proofs.Calc.Lowering
import SourceModel.Proofs.Calc.Moving
import SourceModel.Proofs.Calc.Names
import SourceModel.Proofs.Calc.Operands
import SourceModel.Proofs.Calc.Origins
import SourceModel.Proofs.Calc.Outline
import SourceModel.Proofs.Calc.Placement
import SourceModel.Proofs.Calc.Problems
import SourceModel.Proofs.Calc.Progress
import SourceModel.Proofs.Calc.Reading
import SourceModel.Proofs.Calc.Recovery
import SourceModel.Proofs.Calc.SectionLookup
import SourceModel.Proofs.Calc.Sections
import SourceModel.Proofs.Calc.SourceOrder
import SourceModel.Proofs.Calc.Spelling
import SourceModel.Proofs.Calc.Statements
import SourceModel.Proofs.Calc.Templates
import SourceModel.Proofs.Calc.Tiling
import SourceModel.Proofs.Calc.WordRuns
import SourceModel.Proofs.Calc.Words
import SourceModel.Proofs.CommandLine.Positions
import SourceModel.Proofs.Document.Carets
import SourceModel.Proofs.Document.DispatchLog
import SourceModel.Proofs.Document.Dispatching
import SourceModel.Proofs.Document.Matching
import SourceModel.Proofs.Document.PartitionLookup
import SourceModel.Proofs.Document.Partitioning
import SourceModel.Proofs.Document.Partners
import SourceModel.Proofs.Document.Revisions
import SourceModel.Proofs.Document.SectionCarets
import SourceModel.Proofs.Document.SectionMatching
import SourceModel.Proofs.Document.Tracking
import SourceModel.Proofs.Element.Sorting
import SourceModel.Proofs.Entries
import SourceModel.Proofs.FailFast
import SourceModel.Proofs.Lines
import SourceModel.Proofs.Lines.Index
import SourceModel.Proofs.NameAccess
import SourceModel.Proofs.NameAccess.Collecting
import SourceModel.Proofs.Outline.Arena
import SourceModel.Proofs.Outline.Building
import SourceModel.Proofs.Outline.Covering
import SourceModel.Proofs.Outline.Elements
import SourceModel.Proofs.Outline.Growing
import SourceModel.Proofs.Outline.Identifiers
import SourceModel.Proofs.Outline.Nesting
import SourceModel.Proofs.Outline.Preorder
import SourceModel.Proofs.Region
import SourceModel.Proofs.Related
import SourceModel.Proofs.Search
import SourceModel.Proofs.Sorting
import SourceModel.Proofs.SourceUnit.Calls
import SourceModel.Proofs.SourceUnit.Custody
import SourceModel.Proofs.SourceUnit.Economy
import SourceModel.Proofs.SourceUnit.Failures
import SourceModel.Proofs.SourceUnit.Phases
import SourceModel.Proofs.SourceUnit.Requests
import SourceModel.Proofs.SourceUnit.Runs
import SourceModel.Proofs.SourceUnit.Transparency
import SourceModel.Proofs.Stack
import SourceModel.Proofs.Tree.Arena
import SourceModel.Proofs.Tree.Arranged
import SourceModel.Proofs.Tree.Assembly
import SourceModel.Proofs.Tree.Building
import SourceModel.Proofs.Tree.Covering
import SourceModel.Proofs.Tree.Embedding
import SourceModel.Proofs.Tree.Enclosing
import SourceModel.Proofs.Tree.Entries
import SourceModel.Proofs.Tree.Foreign
import SourceModel.Proofs.Tree.Fragments
import SourceModel.Proofs.Tree.Growing
import SourceModel.Proofs.Tree.Lines
import SourceModel.Proofs.Tree.Links
import SourceModel.Proofs.Tree.Marks
import SourceModel.Proofs.Tree.Nesting
import SourceModel.Proofs.Tree.Numbering
import SourceModel.Proofs.Tree.Printing
import SourceModel.Proofs.Tree.Problems
import SourceModel.Proofs.Tree.Refusals
import SourceModel.Proofs.Tree.Runs
import SourceModel.Proofs.Tree.Siblings
import SourceModel.Proofs.Tree.Sketch
import SourceModel.Proofs.Tree.Spans
import SourceModel.Proofs.Tree.Traversal
import SourceModel.Region
import SourceModel.SourceUnit
import SourceModel.SourceUnit.Info
import SourceModel.Status
import SourceModel.Text.Alphabetic
import SourceModel.Text.Blank
import SourceModel.Text.Bytes
import SourceModel.Text.Case
import SourceModel.Text.CodePoints
import SourceModel.Text.Hex
import SourceModel.Text.Numeric
import SourceModel.Text.Printable
import SourceModel.Text.Quoted
import SourceModel.Text.Reading
import SourceModel.Tree
import SourceModel.Tree.Builder
import SourceModel.Tree.Covering
import SourceModel.Tree.Printer
import SourceModel.Tree.Problem
import SourceModel.Tree.Visitor
import SourceModel.Word
