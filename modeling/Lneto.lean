import Lneto.ActiveClose
import Lneto.ChallengeLimit
import Lneto.ClosedSilence
import Lneto.CrcSums
import Lneto.DhcpTerms
import Lneto.DnsRoundTrip
import Lneto.FlowControl
import Lneto.Handshake
import Lneto.HeaderMemory
import Lneto.HeaderRoundTrip
import Lneto.LinkLocalClaims
import Lneto.ListenerPool
import Lneto.MulticastAddresses
import Lneto.MuxLookup
import Lneto.NtpClient
import Lneto.NtsTrailing
import Lneto.PassiveClose
import Lneto.PassivePeers
import Lneto.PendingReset
import Lneto.PrefixLaws
import Lneto.ResolveAnswers
import Lneto.ResponseFraming
import Lneto.RingQueue
import Lneto.RingRewinds
import Lneto.RouterMemory
import Lneto.RttEstimator
import Lneto.SendWindow
import Lneto.SynCookies
