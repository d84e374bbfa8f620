import MustacheMarkup.Main
import MustacheMarkup.Output.Serializer
import MustacheMarkup.Proofs.Item.Elements
import MustacheMarkup.Proofs.Journal.Yields
import MustacheMarkup.Proofs.Output.Memory
import MustacheMarkup.Proofs.Attribute.Sorted
import MustacheMarkup.Proofs.Template.Progress
import MustacheMarkup.Proofs.Journal.Congruence
import MustacheMarkup.Proofs.Template.Steps
import MustacheMarkup.Proofs.Nesting.Build
import MustacheMarkup.Proofs.Nesting.Descent
import MustacheMarkup.Proofs.Journal.Success
import MustacheMarkup.Proofs.Nesting.Makes
import MustacheMarkup.Proofs.Nesting.Shape
import MustacheMarkup.Proofs.Attribute.EventHandler
import MustacheMarkup.Proofs.Journal.Pairs
import MustacheMarkup.Proofs.Journal.Settled
import MustacheMarkup.Proofs.Nesting.Tags
import MustacheMarkup.Proofs.Template.Values
import MustacheMarkup.Proofs.Item.EventAttributes
import MustacheMarkup.Proofs.Template.Sanitizing
import MustacheMarkup.Proofs.Output.Literal
import MustacheMarkup.Proofs.Token.Reading
import MustacheMarkup.Proofs.Output.ReadTag
import MustacheMarkup.Proofs.Token.Runs
import MustacheMarkup.Proofs.Output.ReadBack
import MustacheMarkup.Proofs.Output.Reread
import MustacheMarkup.Proofs.Output.Stable
import MustacheMarkup.Proofs.Nesting.Fitting
import MustacheMarkup.Proofs.Token.Sound
import MustacheMarkup.Proofs.Output.Legible
import MustacheMarkup.Proofs.Template.Identities
import MustacheMarkup.Proofs.Output.RoundTrip
import MustacheMarkup.Proofs.Item.Tidy
import MustacheMarkup.Proofs.Template.Blanks
import MustacheMarkup.Proofs.Nesting.Marks
import MustacheMarkup.Proofs.Template.Elements
import MustacheMarkup.Proofs.Output.Duplicates
import MustacheMarkup.Proofs.Nesting.Closing
import MustacheMarkup.Proofs.Nesting.Complete
import MustacheMarkup.Proofs.Output.Essence
import MustacheMarkup.Proofs.Output.SameTree
import MustacheMarkup.Proofs.Token.Places
import MustacheMarkup.Proofs.Token.Layout
import MustacheMarkup.Proofs.Nesting.Sections
import MustacheMarkup.Proofs.Journal.Counts
import MustacheMarkup.Proofs.Template.Numbering
import MustacheMarkup.Proofs.Template.Session
import MustacheMarkup.Proofs.Attribute.Faults
import MustacheMarkup.Proofs.Journal.Fails
import MustacheMarkup.Proofs.Journal.Reports
import MustacheMarkup.Proofs.Template.Faults
import MustacheMarkup.Proofs.Text.BlankEnds
import MustacheMarkup.Proofs.Item.BlankEnds
import MustacheMarkup.Proofs.Template.BlankEnds
import MustacheMarkup.Proofs.Token.Excerpt
import MustacheMarkup.Proofs.Token.Stretch
import MustacheMarkup.Proofs.Output.Outline
import MustacheMarkup.Proofs.Output.Lossless
import MustacheMarkup.Proofs.Text.AsciiCase
import MustacheMarkup.Proofs.Attribute.Spelling
import MustacheMarkup.Proofs.Nesting.Related
import MustacheMarkup.Proofs.Template.Spelling
import MustacheMarkup.Proofs.Template.LoneAttribute
import MustacheMarkup.Proofs.Template.Respelled
import MustacheMarkup.Proofs.File.Path
import MustacheMarkup.Proofs.File.Tree
import MustacheMarkup.Proofs.Command.Build
import MustacheMarkup.Proofs.Template.WrittenOut
import MustacheMarkup.Proofs.Token.Pieces
import MustacheMarkup.Proofs.Token.Unquoted
import MustacheMarkup.Proofs.Token.Quotes
import MustacheMarkup.Proofs.Attribute.Partition
import MustacheMarkup.Proofs.Output.FirstToken
import MustacheMarkup.Proofs.Template.FinalNames
import MustacheMarkup.Proofs.Output.Reordered
import MustacheMarkup.Proofs.Template.EveryElement
import MustacheMarkup.Proofs.Template.Built
import MustacheMarkup.Proofs.Output.Eligible
import MustacheMarkup.Proofs.Token.Normal
import MustacheMarkup.Proofs.Token.Alike
import MustacheMarkup.Proofs.Token.Unterminated
import MustacheMarkup.Proofs.Attribute.Directive
import MustacheMarkup.Proofs.Template.Texts
import MustacheMarkup.Proofs.Template.WellFormed
import MustacheMarkup.Proofs.Item.Canonical
import MustacheMarkup.Proofs.Output.Canonical
import MustacheMarkup.Proofs.Token.Recased
import MustacheMarkup.Proofs.Template.Recased
import MustacheMarkup.Proofs.Template.Termination
