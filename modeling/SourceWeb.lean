import SourceWeb.Command.Run
import SourceWeb.Main
import SourceWeb.Proofs.Discovery.Breadth
import SourceWeb.Proofs.Discovery.Canonical
import SourceWeb.Proofs.Discovery.Shuffle
import SourceWeb.Proofs.Discovery.Weaker
import SourceWeb.Proofs.Discovery.Log
import SourceWeb.Proofs.Ignore.Questions
import SourceWeb.Proofs.Bundle.Markdown
import SourceWeb.Proofs.Bundle.Shown
import SourceWeb.Proofs.Discovery.Via
import SourceWeb.Proofs.Alias.Reader
import SourceWeb.Proofs.Ignore.Rule
import SourceWeb.Proofs.Command.Shown
import SourceWeb.Proofs.Settings.RoundTrip
import SourceWeb.Proofs.Disk.LinkFree
import SourceWeb.Proofs.Discovery.Settled
import SourceWeb.Proofs.Project.Root
import SourceWeb.Proofs.Ignore.Subtree
import SourceWeb.Proofs.Alias.Remembered
import SourceWeb.Proofs.Json.Arranged
import SourceWeb.Proofs.Alias.Order
import SourceWeb.Proofs.Pattern.Literal
import SourceWeb.Proofs.Json.Member
import SourceWeb.Proofs.Alias.Brace
import SourceWeb.Proofs.Alias.Salvage
import SourceWeb.Proofs.Language.Chosen
import SourceWeb.Proofs.Bundle.Listing
import SourceWeb.Proofs.Alias.Nearest
import SourceWeb.Proofs.Alias.Comments
import SourceWeb.Proofs.Language.Lines
import SourceWeb.Proofs.Language.Constants
import SourceWeb.Proofs.Language.ModulePaths
import SourceWeb.Proofs.Ignore.Builtin
import SourceWeb.Proofs.Language.CopyForms
import SourceWeb.Proofs.Language.ScriptDir
import SourceWeb.Proofs.Pattern.Preferred
import SourceWeb.Proofs.Json.Formed
import SourceWeb.Proofs.Path.Named
import SourceWeb.Proofs.Language.ConstantPaths
