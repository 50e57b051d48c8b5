import SmallLisp.Heap.Naming
import SmallLisp.Proofs.Eval.Exhaustion
import SmallLisp.Proofs.Eval.PrintedClosure
import SmallLisp.Proofs.Eval.ThroughApply
import SmallLisp.Proofs.Number.Comparison
import SmallLisp.Proofs.Number.Quotient
import SmallLisp.Proofs.Reader.Division
import SmallLisp.Proofs.Reader.Reprinting
import SmallLisp.Proofs.Reader.Resume
import SmallLisp.Proofs.Session.Failures
import SmallLisp.Proofs.Session.Limit
import SmallLisp.Proofs.State.Confinement
import SmallLisp.Proofs.State.Lexical
import SmallLisp.Proofs.State.Sessions
import SmallLisp.Proofs.State.Unassigning
import SmallLisp.Proofs.State.Unmentioned
