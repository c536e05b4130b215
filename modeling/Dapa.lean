import Dapa.Tracker.Containers
import Dapa.Tracker.Model
import Dapa.Tracker.Invariant
import Dapa.Tracker.Sweep
import Dapa.Tracker.Dispatch
import Dapa.Tracker.Responses
import Dapa.Tracker.Lifecycle
import Dapa.Storage.Multisig
import Dapa.Storage.MultisigVersions
import Dapa.Storage.Balance
import Dapa.Storage.KeepLast
import Dapa.Storage.Rewind
import Dapa.Storage.MultisigWrites
import Dapa.Storage.MultisigReads
import Dapa.Common.Utils
import Dapa.Common.Binary64
import Dapa.Common.FormatCoin
import Dapa.Common.DaemonAddress
import Dapa.Common.Fees
import Dapa.Contract.Asset
