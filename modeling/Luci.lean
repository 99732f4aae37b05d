import Luci.Proofs.NewVersion
import Luci.Proofs.RedirectRemove
import Luci.Proofs.PendingUpdate
import Luci.Proofs.Lifecycle
import Luci.Proofs.TlsRelocation
import Luci.Proofs.TlsImage
import Luci.Proofs.FunctionBindings
import Luci.Proofs.IdenticalUpdates
import Luci.Proofs.RedirectCalls
import Luci.Proofs.QueueOverflow
import Luci.Proofs.InitialStack
import Luci.Proofs.Environment
import Luci.Proofs.SearchPaths
import Luci.Proofs.FailedOpen
import Luci.Proofs.Uninitialized
import Luci.Proofs.AddressLookup
import Luci.Proofs.MovedTables
import Luci.Proofs.CommonStorage
import Luci.Proofs.GotRelaxation
import Luci.Proofs.DebuggerList
import Luci.Proofs.VersionTables
import Luci.Proofs.RedirectSync
import Luci.Proofs.StartOrder
import Luci.Proofs.Composing
import Luci.Proofs.MappedContents
import Luci.Proofs.PatchedFunctions
import Luci.Proofs.SearchPathInfo
import Luci.Proofs.SegmentTiling
import Luci.Proofs.TlsFree
