import Refactor.Engine
import Refactor.Json.Printer
import Refactor.Marker.Codec
import Refactor.Node.Build
import Refactor.Pipeline
import Refactor.Recipe.Rules
import Refactor.Recipe.Stock
import Refactor.SessionLog
import Refactor.Settings.Reader
import Refactor.Proofs.Engine.Fixpoint
import Refactor.Proofs.Engine.Moves
import Refactor.Proofs.Engine.Protocol
import Refactor.Proofs.Engine.Removal
import Refactor.Proofs.Engine.Slots
import Refactor.Proofs.Pattern.Signatures
import Refactor.Proofs.Pipeline
import Refactor.Proofs.Recipe.ParenthesesMeaning
import Refactor.Proofs.Recipe.VariableScopes
import Refactor.Proofs.Visit.Balance
import Refactor.Proofs.Visit.Leaves
import Refactor.Proofs.Visit.Recording
import Refactor.Proofs.Engine.Conservation
import Refactor.Proofs.Engine.Truncation
import Refactor.Proofs.Engine.Independence
import Refactor.Proofs.Engine.Ledger
import Refactor.Proofs.Visit.Queueing
import Refactor.Proofs.Pattern.Expression
import Refactor.Proofs.Pattern.Grammar
import Refactor.Proofs.Types.BreadthFirst
import Refactor.Proofs.Engine.Markers
import Refactor.Proofs.Pattern.Printing
import Refactor.Proofs.Tree.Nodewise
import Refactor.Proofs.Recipe.MethodNames
import Refactor.Proofs.Recipe.PackageNames
import Refactor.Proofs.Engine.Findings
import Refactor.Proofs.Recipe.FieldModifiers
import Refactor.Proofs.Pattern.Erasure
import Refactor.Proofs.Recipe.VariableTypes
import Refactor.Proofs.Recipe.Identifiers
