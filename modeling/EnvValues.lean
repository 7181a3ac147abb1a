import EnvValues.Config
import EnvValues.Interpolation
import EnvValues.Name
import EnvValues.Node.Parser
import EnvValues.Notice
import EnvValues.Proofs.Resolution
import EnvValues.Proofs.RoundTrip
import EnvValues.Proofs.Shape
import EnvValues.Proofs.SourceText
import EnvValues.Session
import EnvValues.Text.Escape
import EnvValues.Text.OuterQuotes
import EnvValues.Shell.Posix
import EnvValues.Text.Utf8
import EnvValues.Variables
import EnvValues.Proofs.Account
import EnvValues.Proofs.Passes
import EnvValues.Proofs.History
import EnvValues.Proofs.Failing
import EnvValues.Proofs.Size
import EnvValues.Proofs.Words
import EnvValues.Proofs.Budget
import EnvValues.Proofs.Features
import EnvValues.Proofs.Locality
import EnvValues.Proofs.Nesting
import EnvValues.Proofs.Environment
import EnvValues.Proofs.KeptRegions
import EnvValues.Proofs.Sessions
import EnvValues.Proofs.Peeling
import EnvValues.Proofs.StoredValues
import EnvValues.Proofs.CommandLines
import EnvValues.Proofs.Refusals
import EnvValues.Proofs.Splicing
import EnvValues.Proofs.Exhaustion
import EnvValues.Proofs.Unselected
import EnvValues.Proofs.Metering
import EnvValues.Proofs.Wrapping
import EnvValues.Proofs.CommandEnds
import EnvValues.Proofs.BareNames
import EnvValues.Proofs.Warnings
import EnvValues.Proofs.Redirections
import EnvValues.Proofs.Stability
import EnvValues.Proofs.Tokens
import EnvValues.Proofs.Escaping
import EnvValues.Proofs.Options
import EnvValues.Proofs.BraceEnds
