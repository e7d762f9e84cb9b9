import Handbook.Main
import Handbook.Settings.Writing
import Handbook.Proofs.Registry.Runs
import Handbook.Proofs.Cursor.Comment
import Handbook.Proofs.Cursor.Word
import Handbook.Proofs.Cursor.Span
import Handbook.Proofs.Cursor.Movement
import Handbook.Proofs.Lookup.Agreement
import Handbook.Proofs.Lookup.Commented
import Handbook.Proofs.Definition.Alias
import Handbook.Proofs.Definition.Meaning
import Handbook.Proofs.Definition.PrunedMeaning
import Handbook.Proofs.Command.Levels
import Handbook.Proofs.Command.Sections
import Handbook.Proofs.Definition.Signature
import Handbook.Proofs.Definition.Tags
import Handbook.Proofs.Definition.Order
import Handbook.Proofs.Definition.ParameterNames
import Handbook.Proofs.Definition.Warnings
import Handbook.Proofs.Tree.Settling
import Handbook.Proofs.Files.Path
import Handbook.Proofs.Files.Store
import Handbook.Proofs.Settings.Loading
import Handbook.Proofs.Settings.Saving
import Handbook.Proofs.CommandLine.Loading
import Handbook.Proofs.CommandLine.Check
import Handbook.Proofs.CommandLine.Hover
import Handbook.Proofs.CommandLine.Printed
import Handbook.Proofs.CommandLine.Suggestions
import Handbook.Proofs.Markup.CodeBlock
import Handbook.Proofs.Markup.Fence
import Handbook.Proofs.Command.Examples
