import DocSnippet.Files.Tree
import DocSnippet.Main
import DocSnippet.Proofs.Docstring.Styles
import DocSnippet.Proofs.Signature.Declaration
import DocSnippet.Proofs.Signature.Layout
import DocSnippet.Proofs.Source.Dedent
import DocSnippet.Proofs.Source.Insertion
import DocSnippet.Proofs.Source.TrailingSpace
import DocSnippet.Proofs.Source.Comment
import DocSnippet.Proofs.Signature.Name
import DocSnippet.Proofs.Source.Quoting
import DocSnippet.Proofs.CommandLine.Generate
import DocSnippet.Proofs.Text.Split
import DocSnippet.Proofs.Text.WellNested
import DocSnippet.Proofs.Source.HeaderText
import DocSnippet.Proofs.Source.Decorators
import DocSnippet.Proofs.Definition.ClassLevel
import DocSnippet.Proofs.Docstring.Plain
import DocSnippet.Proofs.Source.HeaderIndent
import DocSnippet.Proofs.Docstring.Yields
import DocSnippet.Proofs.Docstring.Default
import DocSnippet.Proofs.Definition.Contribution
import DocSnippet.Proofs.Docstring.BlankLines
import DocSnippet.Proofs.Docstring.Untyped
import DocSnippet.Proofs.Settings.EditDistance
import DocSnippet.Proofs.Settings.Loading
import DocSnippet.Proofs.Docstring.Numbering
import DocSnippet.Proofs.Source.Cleaning
