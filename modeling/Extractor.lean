import Extractor.Main
import Extractor.Proofs.Checksum
import Extractor.Proofs.Code.Guard
import Extractor.Proofs.Code.Indentation
import Extractor.Proofs.Code.Printer
import Extractor.Proofs.Json.Index
import Extractor.Proofs.Json.Leaves
import Extractor.Proofs.Json.Names
import Extractor.Proofs.Json.Order
import Extractor.Proofs.Json.Paths
import Extractor.Proofs.Json.Records
import Extractor.Proofs.Specification.Blocks
import Extractor.Proofs.Specification.Grammar
import Extractor.Proofs.Specification.Loading
import Extractor.Proofs.Specification.Rules
import Extractor.Proofs.Specification.Sections
import Extractor.Proofs.Specification.Slots
import Extractor.Proofs.Store
import Extractor.Proofs.Text.Blank
import Extractor.Proofs.Text.Search
import Extractor.Proofs.Xml.Outermost
import Extractor.Proofs.Xml.Path
import Extractor.Proofs.Xml.Record
import Extractor.Proofs.Xml.Tree
import Extractor.Proofs.Parser.Declarations
import Extractor.Proofs.Json.Quoted
import Extractor.Proofs.Preview.Rendering
import Extractor.Proofs.Preview.Lookup
import Extractor.Proofs.Json.Locality
import Extractor.Proofs.Text.Lines
import Extractor.Proofs.Parser.LineBreaks
import Extractor.Proofs.Parser.Splicing
import Extractor.Proofs.Parser.Function
import Extractor.Proofs.Text.Braces
import Extractor.Proofs.Code.Braces
import Extractor.Proofs.Parser.Braces
import Extractor.Proofs.Path
import Extractor.Proofs.Disk
import Extractor.Proofs.Command.Writing
import Extractor.Proofs.Command.Directory
import Extractor.Proofs.Key
import Extractor.Proofs.Text.Trimmed
import Extractor.Proofs.Specification.Validity
import Extractor.Proofs.Specification.Layout
import Extractor.Proofs.Parser.Variables
import Extractor.Proofs.Text.Literal
import Extractor.Proofs.Parser.Failures
import Extractor.Proofs.Json.Spelling
import Extractor.Proofs.Xml.Remarks
import Extractor.Proofs.Template.Captures
import Extractor.Proofs.Template.Introducer
import Extractor.Proofs.Template.Tiling
import Extractor.Proofs.Text.Escaping
import Extractor.Proofs.Code.Comments
import Extractor.Proofs.Parser.Keys
import Extractor.Proofs.Code.Depth
import Extractor.Proofs.Text.PhysicalLines
import Extractor.Proofs.Code.Reindentation
import Extractor.Proofs.Specification.Excerpt
import Extractor.Proofs.Specification.Warnings
import Extractor.Proofs.Decimal.Text
import Extractor.Proofs.Store.History
import Extractor.Proofs.Template.Spelling
import Extractor.Proofs.Code.Keywords
