import Clausal.Main
import Clausal.Proofs.LoopChecking
import Clausal.Proofs.Memoing
import Clausal.Proofs.ForeignNames
import Clausal.Proofs.KeptDeterminism
import Clausal.Proofs.Solutions
import Clausal.Proofs.References
import Clausal.Proofs.Generators
import Clausal.Proofs.InlinedModules
import Clausal.Proofs.Parallelism
import Clausal.Proofs.TableFrame
import Clausal.Proofs.ProcedureOrder
import Clausal.Proofs.CallKeys
import Clausal.Proofs.Resolution
import Clausal.Proofs.Cycles
import Clausal.Proofs.Monomorphic
import Clausal.Proofs.PrintedGoals
import Clausal.Proofs.InstanceKeys
import Clausal.Proofs.GrowingStates
import Clausal.Proofs.ProofOrder
import Clausal.Proofs.AnswerBlocks
