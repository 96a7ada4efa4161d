import Vicinity.Config.Printer
import Vicinity.Config.Reader
import Vicinity.Index.Session
import Vicinity.Number.Bits
import Vicinity.Proofs.Answers
import Vicinity.Proofs.Checked
import Vicinity.Proofs.ConfigText
import Vicinity.Proofs.Construction
import Vicinity.Proofs.Direction
import Vicinity.Proofs.Erasure
import Vicinity.Proofs.Exactness
import Vicinity.Proofs.Except
import Vicinity.Proofs.Exhaustive
import Vicinity.Proofs.Grammar
import Vicinity.Proofs.History
import Vicinity.Proofs.InsertionOrder
import Vicinity.Proofs.IntegerRoots
import Vicinity.Proofs.IntegerVectors
import Vicinity.Proofs.Interleaving
import Vicinity.Proofs.Lifetimes
import Vicinity.Proofs.Literals
import Vicinity.Proofs.Locality
import Vicinity.Proofs.MetricNames
import Vicinity.Proofs.Nearest
import Vicinity.Proofs.Nesting
import Vicinity.Proofs.NotANumber
import Vicinity.Proofs.Overflow
import Vicinity.Proofs.Poisoning
import Vicinity.Proofs.Range
import Vicinity.Proofs.RankOrder
import Vicinity.Proofs.Reachable
import Vicinity.Proofs.Refinement
import Vicinity.Proofs.Refusals
import Vicinity.Proofs.RootProfile
import Vicinity.Proofs.RootSquare
import Vicinity.Proofs.Roster
import Vicinity.Proofs.RoundTrip
import Vicinity.Proofs.Rounding
import Vicinity.Proofs.Rows
import Vicinity.Proofs.Selection
import Vicinity.Proofs.SelfAngle
import Vicinity.Proofs.SelfNearest
import Vicinity.Proofs.Signs
import Vicinity.Proofs.Simulation
import Vicinity.Proofs.SingleRange
import Vicinity.Proofs.SlotTable
import Vicinity.Proofs.SquareRoot
import Vicinity.Proofs.Standing
import Vicinity.Proofs.Symmetry
import Vicinity.Proofs.TopK
import Vicinity.Proofs.Unlimited
import Vicinity.Proofs.UnwantedKeys
import Vicinity.Proofs.Vanishing
import Vicinity.Proofs.WellFormed
import Vicinity.Shared.Clients
import Vicinity.Shared.Pool
