import Omi.Base.InstanceRoom
import Omi.Base.PackingFailure
import Omi.Base.PackingRoundTrip
import Omi.Base.RestoreSafety
import Omi.Base.UnpackBounds
import Omi.Base.WSManDuration
import Omi.Client.ChildList
import Omi.Client.Delivery
import Omi.Http.Authentication
import Omi.Http.DecryptBounds
import Omi.Pal.Once
import Omi.Pal.Strings
import Omi.Protocol.Identity
import Omi.Protocol.Link
import Omi.Provmgr.LocalSession
import Omi.Provmgr.Subscribe
import Omi.Provmgr.SubscriptionList
import Omi.Provreg.Blocks
import Omi.Sock.Selector
import Omi.Strands.Agreement
import Omi.Strands.Flow
import Omi.Strands.Progress
import Omi.Strands.Propagation
import Omi.Wql.Identical
import Omi.Wql.Integers
import Omi.Wql.LikeCorrectness
import Omi.Wql.Tokens
import Omi.Wsman.Completion
import Omi.Wsman.Envelope
import Omi.Wsman.Escaping
import Omi.Wsman.Isolation
import Omi.Xml.Nesting
import Omi.Xml.ScopeInvariant
