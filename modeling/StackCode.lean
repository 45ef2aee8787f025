import StackCode.Annotate
import StackCode.Const.Fold
import StackCode.Generate
import StackCode.Proofs.Identifiers
import StackCode.Proofs.Woven
import StackCode.Proofs.Bookkeeping
import StackCode.Proofs.Balance
import StackCode.Proofs.Regions
import StackCode.Proofs.Tidiness
import StackCode.Proofs.Distinctness
import StackCode.Proofs.Preparation
import StackCode.Proofs.Entry
import StackCode.Proofs.BalancedEmission
import StackCode.Proofs.ExitCleanup
import StackCode.Proofs.Advance
import StackCode.Proofs.Runs
import StackCode.Proofs.Suspending
import StackCode.Proofs.Resumption
import StackCode.Proofs.StateNumbering
import StackCode.Proofs.Linkage
import StackCode.Proofs.TableOrder
import StackCode.Proofs.CapturePaths
import StackCode.Proofs.Forwarding
import StackCode.Proofs.ElementProtocol
import StackCode.Proofs.IntegralDispatch
import StackCode.Proofs.StringDispatch
import StackCode.Proofs.DebugSwitches
import StackCode.Proofs.CaseJumps
import StackCode.Proofs.Concatenation
import StackCode.Proofs.IntegralFolding
import StackCode.Proofs.Numerals
import StackCode.Proofs.Descriptors
import StackCode.Proofs.SlotAllocation
import StackCode.Proofs.LayeredLabels
import StackCode.Proofs.Traversals
