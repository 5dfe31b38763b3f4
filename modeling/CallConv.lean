import CallConv.Bazel.BuildExpr
import CallConv.Bazel.BuildRule
import CallConv.Bazel.BuildToken
import CallConv.Bazel.Constraint
import CallConv.Bazel.Label
import CallConv.Bazel.PlatformRule
import CallConv.Collection.Distinct
import CallConv.Collection.Pipeline
import CallConv.CommandLine.Options
import CallConv.CommandLine.Run
import CallConv.CommandLine.Standard
import CallConv.Config.Basic
import CallConv.Config.Collect
import CallConv.Config.Load
import CallConv.Config.Resolve
import CallConv.Cursor
import CallConv.Declaration.Apply
import CallConv.Declaration.Basic
import CallConv.Declaration.Classify
import CallConv.Declaration.Edit
import CallConv.Declaration.Handle
import CallConv.Directive.Basic
import CallConv.Directive.Parse
import CallConv.File.Climb
import CallConv.File.Path
import CallConv.File.Tree
import CallConv.Glob.Class
import CallConv.Glob.Find
import CallConv.Glob.Match
import CallConv.Glob.Pattern
import CallConv.Main
import CallConv.Marker
import CallConv.Platform.Basic
import CallConv.Platform.Target
import CallConv.Proofs.Bazel.Constraint
import CallConv.Proofs.Collection.Sorted
import CallConv.Proofs.CommandLine.Written
import CallConv.Proofs.Config.Collect
import CallConv.Proofs.Config.Nearest
import CallConv.Proofs.Declaration.Angles
import CallConv.Proofs.Declaration.Apply
import CallConv.Proofs.Declaration.Exclusive
import CallConv.Proofs.Declaration.Flatten
import CallConv.Proofs.Declaration.Grammar
import CallConv.Proofs.Declaration.Handle
import CallConv.Proofs.Declaration.Initialiser
import CallConv.Proofs.Declaration.Insert
import CallConv.Proofs.Declaration.Likeness
import CallConv.Proofs.Declaration.Moved
import CallConv.Proofs.Declaration.Nesting
import CallConv.Proofs.Declaration.Outline
import CallConv.Proofs.Declaration.Outside
import CallConv.Proofs.Declaration.Pervasive
import CallConv.Proofs.Declaration.Remark
import CallConv.Proofs.Declaration.Reset
import CallConv.Proofs.Declaration.SetAbi
import CallConv.Proofs.Declaration.Skip
import CallConv.Proofs.Declaration.Spacing
import CallConv.Proofs.Declaration.Steps
import CallConv.Proofs.Declaration.Undecoded
import CallConv.Proofs.Directive.Grammar
import CallConv.Proofs.Directive.Printed
import CallConv.Proofs.Directive.Resolve
import CallConv.Proofs.Directive.Sound
import CallConv.Proofs.File.Path
import CallConv.Proofs.File.Tree
import CallConv.Proofs.SourceFile.Append
import CallConv.Proofs.SourceFile.Consumed
import CallConv.Proofs.SourceFile.Enclosed
import CallConv.Proofs.SourceFile.Fatal
import CallConv.Proofs.SourceFile.Frame
import CallConv.Proofs.SourceFile.Group
import CallConv.Proofs.SourceFile.ItemEnd
import CallConv.Proofs.SourceFile.Located
import CallConv.Proofs.SourceFile.Moved
import CallConv.Proofs.SourceFile.Parts
import CallConv.Proofs.SourceFile.Recognise
import CallConv.Proofs.SourceFile.Relex
import CallConv.Proofs.SourceFile.Remains
import CallConv.Proofs.SourceFile.Rounds
import CallConv.Proofs.SourceFile.Search
import CallConv.Proofs.SourceFile.Targets
import CallConv.Proofs.Text.Quoting
import CallConv.Proofs.Text.RoundTrip
import CallConv.Proofs.Text.Rune
import CallConv.Proofs.Token.Concat
import CallConv.Proofs.Token.Lexeme
import CallConv.Proofs.Token.Literal
import CallConv.Proofs.Token.Longest
import CallConv.Proofs.Token.Moved
import CallConv.Proofs.Token.Newline
import CallConv.Proofs.Token.Position
import CallConv.Proofs.Token.Removed
import CallConv.Proofs.Token.Seam
import CallConv.Proofs.Token.Stable
import CallConv.Proofs.Token.Steady
import CallConv.Proofs.Token.Terminated
import CallConv.SourceFile.Attribute
import CallConv.SourceFile.Expand
import CallConv.Text.Basic
import CallConv.Text.Graphic
import CallConv.Text.Letter
import CallConv.Text.Literal
import CallConv.Text.Quoted
import CallConv.Text.Rune
import CallConv.Token.Basic
import CallConv.Token.Group
import CallConv.Token.Lexer
import CallConv.Token.Rule
import CallConv.Toml.Decode
import CallConv.Toml.Document
import CallConv.Toml.Reader
import CallConv.Toml.Scalar
import CallConv.Toml.Value
