import Stencil.Extension
import Stencil.Main
import Stencil.Proofs.Calls
import Stencil.Proofs.Escaping
import Stencil.Proofs.DiagnosticSettings
import Stencil.Proofs.WrittenTags
import Stencil.Proofs.TermHeights
import Stencil.Proofs.HiddenGlobals
import Stencil.Proofs.TemplateNames
import Stencil.Proofs.BalancedCommands
import Stencil.Proofs.RegisteredFilters
import Stencil.Proofs.ContinuedTokens
import Stencil.Proofs.ComposedInvocations
import Stencil.Proofs.MergedTexts
import Stencil.Proofs.Placeholders
import Stencil.Proofs.FailedScans
import Stencil.Proofs.ListedCommands
import Stencil.Proofs.DecodedReads
import Stencil.Proofs.Redeclarations
import Stencil.Proofs.TokenPlaces
import Stencil.Proofs.FailedCompiles
