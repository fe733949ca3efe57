import RefFlow.Main
import RefFlow.Proofs.Component.Mask
import RefFlow.Proofs.Component.Written
import RefFlow.Proofs.Convert.Built
import RefFlow.Proofs.Convert.IntegerKeys
import RefFlow.Proofs.Convert.Trivia
import RefFlow.Proofs.Property.Aliases
import RefFlow.Proofs.Property.Merging
import RefFlow.Proofs.Reactive.Escape
import RefFlow.Proofs.Reactive.Globals
import RefFlow.Proofs.Reactive.Variables
import RefFlow.Proofs.RefObject.Derivation
import RefFlow.Proofs.RefObject.Termination
import RefFlow.Proofs.Scope.Declarators
import RefFlow.Proofs.Scope.Markup
import RefFlow.Proofs.Scope.Positions
import RefFlow.Proofs.Session
import RefFlow.Proofs.Settings.Written
import RefFlow.Proofs.Site
import RefFlow.Proofs.Trace.Termination
import RefFlow.Report
import RefFlow.Terminal
