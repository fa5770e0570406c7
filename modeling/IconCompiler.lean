import IconCompiler.Binary64.Basic
import IconCompiler.Binary64.Nearest
import IconCompiler.Binary64.Printer
import IconCompiler.Binary64.Reader
import IconCompiler.Binary64.Shortest
import IconCompiler.CommandLine.Command
import IconCompiler.CommandLine.Options
import IconCompiler.CommandLine.Places
import IconCompiler.CommandLine.Report
import IconCompiler.CommandLine.Run
import IconCompiler.Compilation
import IconCompiler.ComponentName
import IconCompiler.Configuration.Basic
import IconCompiler.Configuration.Error
import IconCompiler.Configuration.File
import IconCompiler.Discovery
import IconCompiler.FileTree.Basic
import IconCompiler.FileTree.Error
import IconCompiler.FileTree.Path
import IconCompiler.Generation.Plan
import IconCompiler.Generation.Preview
import IconCompiler.Generation.Run
import IconCompiler.Generation.Session
import IconCompiler.Icon.AttributeName
import IconCompiler.Icon.Element
import IconCompiler.Icon.Literal
import IconCompiler.Icon.Markup
import IconCompiler.Icon.Node
import IconCompiler.Icon.Paint
import IconCompiler.Icon.Source
import IconCompiler.Icon.Value
import IconCompiler.Main
import IconCompiler.Output
import IconCompiler.Proofs.Binary64.Digits
import IconCompiler.Proofs.Binary64.Positional
import IconCompiler.Proofs.Binary64.RoundTrip
import IconCompiler.Proofs.CommandLine.Effective
import IconCompiler.Proofs.CommandLine.Generate
import IconCompiler.Proofs.CommandLine.Init
import IconCompiler.Proofs.CommandLine.Options
import IconCompiler.Proofs.Compilation
import IconCompiler.Proofs.ComponentName
import IconCompiler.Proofs.Configuration.Loading
import IconCompiler.Proofs.Configuration.Naming
import IconCompiler.Proofs.Configuration.Starter
import IconCompiler.Proofs.Discovery
import IconCompiler.Proofs.FileTree.Names
import IconCompiler.Proofs.FileTree.Place
import IconCompiler.Proofs.FileTree.Rooted
import IconCompiler.Proofs.FileTree.Way
import IconCompiler.Proofs.Generation.Accounts
import IconCompiler.Proofs.Generation.Again
import IconCompiler.Proofs.Generation.Bindings
import IconCompiler.Proofs.Generation.Cleanup
import IconCompiler.Proofs.Generation.Components
import IconCompiler.Proofs.Generation.Confined
import IconCompiler.Proofs.Generation.DryRun
import IconCompiler.Proofs.Generation.Failed
import IconCompiler.Proofs.Generation.FileNames
import IconCompiler.Proofs.Generation.Hooks
import IconCompiler.Proofs.Generation.Independent
import IconCompiler.Proofs.Generation.Index
import IconCompiler.Proofs.Generation.Orphans
import IconCompiler.Proofs.Generation.Outputs
import IconCompiler.Proofs.Generation.Plan
import IconCompiler.Proofs.Generation.Preview
import IconCompiler.Proofs.Generation.Run
import IconCompiler.Proofs.Generation.Session
import IconCompiler.Proofs.Generation.Stages
import IconCompiler.Proofs.Generation.Tags
import IconCompiler.Proofs.Icon.AttributeName
import IconCompiler.Proofs.Icon.Attributes
import IconCompiler.Proofs.Icon.DataModel
import IconCompiler.Proofs.Icon.Indentation
import IconCompiler.Proofs.Icon.Key
import IconCompiler.Proofs.Icon.LineStructure
import IconCompiler.Proofs.Icon.Lines
import IconCompiler.Proofs.Icon.Literal
import IconCompiler.Proofs.Icon.Node
import IconCompiler.Proofs.Icon.Occurrences
import IconCompiler.Proofs.Icon.Opened
import IconCompiler.Proofs.Icon.Outline
import IconCompiler.Proofs.Icon.Parameter
import IconCompiler.Proofs.Icon.Parsed
import IconCompiler.Proofs.Icon.Qualifier
import IconCompiler.Proofs.Icon.Repainting
import IconCompiler.Proofs.Icon.Reparse
import IconCompiler.Proofs.Icon.RoundTrip
import IconCompiler.Proofs.Icon.Shape
import IconCompiler.Proofs.Icon.Spelling
import IconCompiler.Proofs.Icon.Unfilled
import IconCompiler.Proofs.Icon.Value
import IconCompiler.Proofs.Output.Cleaning
import IconCompiler.Proofs.Output.Files
import IconCompiler.Proofs.Output.Index
import IconCompiler.Proofs.Script.Module
import IconCompiler.Proofs.Script.Number
import IconCompiler.Proofs.Script.Reader
import IconCompiler.Proofs.Script.Scan
import IconCompiler.Proofs.Script.Tokens
import IconCompiler.Proofs.Template.Filled
import IconCompiler.Proofs.Text.Bytes
import IconCompiler.Proofs.Text.Front
import IconCompiler.Proofs.Text.Occurrences
import IconCompiler.Proofs.Text.Words
import IconCompiler.Proofs.Toml.Lines
import IconCompiler.Proofs.Variant.Bindings
import IconCompiler.Proofs.Variant.Component
import IconCompiler.Proofs.Variant.Embedding
import IconCompiler.Proofs.Variant.Exports
import IconCompiler.Proofs.Variant.HiddenColors
import IconCompiler.Proofs.Variant.Import
import IconCompiler.Proofs.Variant.Index
import IconCompiler.Proofs.Variant.Listing
import IconCompiler.Proofs.Variant.Recolouring
import IconCompiler.Proofs.Variant.Registry
import IconCompiler.Proofs.Variant.ScriptBlock
import IconCompiler.Proofs.Variant.Tag
import IconCompiler.Proofs.Xml.Printed
import IconCompiler.Proofs.Xml.Resolved
import IconCompiler.Proofs.Xml.StartTag
import IconCompiler.Proofs.Xml.Tags
import IconCompiler.Report
import IconCompiler.RunError
import IconCompiler.Table
import IconCompiler.Template.Basic
import IconCompiler.Template.Builtin.Angular
import IconCompiler.Template.Builtin.Astro
import IconCompiler.Template.Builtin.Index
import IconCompiler.Template.Builtin.Lit
import IconCompiler.Template.Builtin.Parts
import IconCompiler.Template.Builtin.Preact
import IconCompiler.Template.Builtin.Qwik
import IconCompiler.Template.Builtin.React
import IconCompiler.Template.Builtin.Solid
import IconCompiler.Template.Builtin.Svelte
import IconCompiler.Template.Builtin.Vanilla
import IconCompiler.Template.Builtin.Vue
import IconCompiler.Template.Data
import IconCompiler.Template.Shelf
import IconCompiler.Template.Source
import IconCompiler.Text.Blank
import IconCompiler.Text.Digit
import IconCompiler.Text.Escaped
import IconCompiler.Text.Letter
import IconCompiler.Text.Letter.Table
import IconCompiler.Text.Search
import IconCompiler.Text.Words
import IconCompiler.Toml.Document
import IconCompiler.Toml.Scalar
import IconCompiler.Toml.Value
import IconCompiler.Variant.Basic
import IconCompiler.Variant.Builtin
import IconCompiler.Variant.Registry
import IconCompiler.Xml.Char
import IconCompiler.Xml.Cursor
import IconCompiler.Xml.Document
import IconCompiler.Xml.Error
import IconCompiler.Xml.Reference
import IconCompiler.Xml.Token
import IconCompiler.Xml.Tree
