import LabelAtlas.Amount
import LabelAtlas.Binary64
import LabelAtlas.CommandLine.Arguments
import LabelAtlas.CommandLine.Flag
import LabelAtlas.CommandLine.Run
import LabelAtlas.Definition
import LabelAtlas.Description
import LabelAtlas.Document.Basic
import LabelAtlas.Document.Build
import LabelAtlas.Document.Depth
import LabelAtlas.Document.Given
import LabelAtlas.Document.Statistics
import LabelAtlas.Encoding.Detected
import LabelAtlas.Encoding.Fallback
import LabelAtlas.Encoding.Utf8
import LabelAtlas.Export.Labels
import LabelAtlas.Export.Line
import LabelAtlas.Export.Value
import LabelAtlas.Fault
import LabelAtlas.Generate
import LabelAtlas.Json.Reader
import LabelAtlas.Json.Value
import LabelAtlas.Json.Writer
import LabelAtlas.Listing
import LabelAtlas.Log
import LabelAtlas.Main
import LabelAtlas.Numeral
import LabelAtlas.Page.Format
import LabelAtlas.Page.Html
import LabelAtlas.Page.Markup
import LabelAtlas.Path
import LabelAtlas.Proofs.Accepted
import LabelAtlas.Proofs.Agreement
import LabelAtlas.Proofs.Anchors
import LabelAtlas.Proofs.Badges
import LabelAtlas.Proofs.Blocks
import LabelAtlas.Proofs.Bounds
import LabelAtlas.Proofs.Building
import LabelAtlas.Proofs.Characters
import LabelAtlas.Proofs.Columns
import LabelAtlas.Proofs.Counts
import LabelAtlas.Proofs.Decoding
import LabelAtlas.Proofs.Depth
import LabelAtlas.Proofs.Descriptions
import LabelAtlas.Proofs.Encodable
import LabelAtlas.Proofs.Encoding
import LabelAtlas.Proofs.Exports
import LabelAtlas.Proofs.Files
import LabelAtlas.Proofs.Grammar
import LabelAtlas.Proofs.Identifiers
import LabelAtlas.Proofs.JsonText
import LabelAtlas.Proofs.Kinds
import LabelAtlas.Proofs.Lookup
import LabelAtlas.Proofs.Markup
import LabelAtlas.Proofs.Nesting
import LabelAtlas.Proofs.Normalizing
import LabelAtlas.Proofs.Numerals
import LabelAtlas.Proofs.Order
import LabelAtlas.Proofs.Outcomes
import LabelAtlas.Proofs.Pages
import LabelAtlas.Proofs.Quotations
import LabelAtlas.Proofs.Rejections
import LabelAtlas.Proofs.Resolving
import LabelAtlas.Proofs.Restoring
import LabelAtlas.Proofs.Scopes
import LabelAtlas.Proofs.Shape
import LabelAtlas.Proofs.Tokens
import LabelAtlas.Proofs.Traversals
import LabelAtlas.Proofs.Walks
import LabelAtlas.Proofs.Wrapping
import LabelAtlas.Service.Answer
import LabelAtlas.Service.Endpoint
import LabelAtlas.Service.Manual
import LabelAtlas.Service.Request
import LabelAtlas.Service.Schema
import LabelAtlas.Service.Target
import LabelAtlas.Settings.Basic
import LabelAtlas.Settings.File
import LabelAtlas.Source.Comment
import LabelAtlas.Source.Kind
import LabelAtlas.Source.Statement
import LabelAtlas.Store
import LabelAtlas.Text.Basic
import LabelAtlas.Text.CodePoint
import LabelAtlas.Text.Digits
import LabelAtlas.Text.Letters
import LabelAtlas.Text.Lines
import LabelAtlas.Text.Printable
import LabelAtlas.Text.Quoted
import LabelAtlas.Tree.Basic
import LabelAtlas.Tree.Outline
import LabelAtlas.Tree.Walk
