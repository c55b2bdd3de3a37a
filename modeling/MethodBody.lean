import MethodBody.Diagnostic
import MethodBody.Expr.Printer
import MethodBody.Proofs.ArrayNumbers
import MethodBody.Proofs.DepthLimit
import MethodBody.Proofs.FrameSize
import MethodBody.Proofs.HookOrder
import MethodBody.Proofs.Inventory
import MethodBody.Proofs.Listing
import MethodBody.Proofs.Meaning
import MethodBody.Proofs.Readback
import MethodBody.Proofs.Relabelling
import MethodBody.Proofs.Replacement
import MethodBody.Proofs.Reports
import MethodBody.Proofs.Sharing
import MethodBody.Proofs.StackUse
import MethodBody.Proofs.StoppingPoint
import MethodBody.Proofs.Unambiguous
import MethodBody.Proofs.Underflow
import MethodBody.Session.Run
import MethodBody.Transform.Policy
