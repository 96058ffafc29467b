import LayerGuard.Main
import LayerGuard.Session
import LayerGuard.Proofs.Source.Occurrence
import LayerGuard.Proofs.Source.Token
import LayerGuard.Proofs.Architecture.Ownership
import LayerGuard.Proofs.Architecture.Order
import LayerGuard.Proofs.FileTree
import LayerGuard.Proofs.Validation
import LayerGuard.Proofs.Source.Nesting
import LayerGuard.Proofs.Source.Position
import LayerGuard.Proofs.Source.Extension
import LayerGuard.Proofs.Source.Interpolation
import LayerGuard.Proofs.Source.Heredoc
import LayerGuard.Proofs.Json.RoundTrip
import LayerGuard.Proofs.Report.Json
import LayerGuard.Proofs.Config.Json
import LayerGuard.Proofs.Architecture.Decision
import LayerGuard.Proofs.Architecture.Edits
import LayerGuard.Proofs.Source.NameText
import LayerGuard.Proofs.Report.Compact
import LayerGuard.Proofs.Report.Text
import LayerGuard.Proofs.Source.Declaration
import LayerGuard.Proofs.Source.Boundary
import LayerGuard.Proofs.Source.Tags
import LayerGuard.Proofs.Source.Variable
import LayerGuard.Proofs.Path.Order
import LayerGuard.Proofs.Discovery
import LayerGuard.Proofs.IgnoreList.Descent
import LayerGuard.Proofs.IgnoreList.Spelling
import LayerGuard.Proofs.Report.Color
import LayerGuard.Proofs.Builtins
import LayerGuard.Proofs.Architecture.Purity
import LayerGuard.Proofs.Source.Opening
