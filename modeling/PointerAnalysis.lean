import PointerAnalysis.Command.Directory
import PointerAnalysis.Main
import PointerAnalysis.ObjectSet.Tree
import PointerAnalysis.Program.Edit
import PointerAnalysis.Proofs.Callees
import PointerAnalysis.Proofs.CanonHistories
import PointerAnalysis.Proofs.ContextHistories
import PointerAnalysis.Proofs.Drawings
import PointerAnalysis.Proofs.EntryChoice
import PointerAnalysis.Proofs.Execution.Soundness
import PointerAnalysis.Proofs.Loader
import PointerAnalysis.Proofs.MergedCalls
import PointerAnalysis.Proofs.MethodResolution
import PointerAnalysis.Proofs.ObjectSet.Histories
import PointerAnalysis.Proofs.ObjectSet.WordHistories
import PointerAnalysis.Proofs.Options.Parsing
import PointerAnalysis.Proofs.OrderIndependence
import PointerAnalysis.Proofs.PointsToHistories
import PointerAnalysis.Proofs.PointsToListing
import PointerAnalysis.Proofs.Receivers
import PointerAnalysis.Proofs.Refinement
import PointerAnalysis.Proofs.Safety
import PointerAnalysis.Proofs.Stability
import PointerAnalysis.Proofs.StatementIndices
import PointerAnalysis.Proofs.Statistics
import PointerAnalysis.Proofs.Termination
import PointerAnalysis.Proofs.WorkListHistories
import PointerAnalysis.Rules.View
