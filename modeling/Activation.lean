import Activation.Main
import Activation.Proofs.Agreement
import Activation.Proofs.BuildLog
import Activation.Proofs.Construction
import Activation.Proofs.EqualIndexes
import Activation.Proofs.Erasure
import Activation.Proofs.Expansion
import Activation.Proofs.IndexHistory
import Activation.Proofs.Interchange
import Activation.Proofs.Isolation
import Activation.Proofs.Json.RoundTrip
import Activation.Proofs.Loading
import Activation.Proofs.NestedLayers
import Activation.Proofs.Order
import Activation.Proofs.Priority
import Activation.Proofs.Promotion
import Activation.Proofs.Redirection
import Activation.Proofs.RequestOrder
import Activation.Proofs.RunValidation
import Activation.Proofs.SelfReference
import Activation.Proofs.Skipping
import Activation.Proofs.Termination
import Activation.Source.Inspector
import Activation.Source.Table
import Activation.Proofs.CommandLine
