import Gct.RangeList.Merge
import Gct.Rest
import Gct.ReadRange.Striped
import Gct.Reply.Framing
import Gct.Eb.Agreement
import Gct.Eb.Layout
import Gct.Ascii
import Gct.Path.Concat
import Gct.Gram.Read
import Gct.Gram.RoundTrip
import Gct.Rsl.Lexical
import Gct.JobManager.StateFileRoundTrip
import Gct.JobManager.TwoPhase
import Gct.Http.Delivery
import Gct.Telnet.Filter
import Gct.Gsi.ProxyChain
import Gct.Gss.Symmetry
import Gct.Gss.HostAuth
import Gct.Gridmap.Accounts
import Gct.MyProxy.RoundTrip
import Gct.Fork.Framing
import Gct.JobManager.Tailing
import Gct.Ipc.RoundTrip
import Gct.Gss.Replay
import Gct.GassCache.Isolation
import Gct.UrlCopy.Resume
import Gct.ReadRange.Single
import Gct.RestartMarker.Copy
import Gct.RestrictedPaths.Mapping
import Gct.Http.Reject
import Gct.Rsl.Whole
import Gct.Gridmap.LocalUser
import Gct.Gridmap.Quoting
import Gct.Fifo
import Gct.Fork.StartTask
