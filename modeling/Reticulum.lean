import Reticulum.Theorems.Lxmf.Stamps
import Reticulum.Theorems.Rncp.Fetch
import Reticulum.Theorems.Rngit.ReleaseStore
import Reticulum.Theorems.Resource.Callback
import Reticulum.Theorems.Resource.Hashmap
import Reticulum.Theorems.Resource.Offer
import Reticulum.Theorems.Receipts
import Reticulum.Theorems.LinkRequest
import Reticulum.Theorems.Request
import Reticulum.Theorems.Announces
import Reticulum.Theorems.Ratchets
import Reticulum.Theorems.InboundQueues
import Reticulum.Theorems.LineReader
import Reticulum.Theorems.Kiss
import Reticulum.Theorems.Gornsh.Session
import Reticulum.Theorems.Gornsh.Escapes
import Reticulum.Theorems.Gornsh.Streams
import Reticulum.Theorems.Lxmf.Bookkeeping
import Reticulum.Theorems.Lxmf.Responses
import Reticulum.Theorems.Lxmf.Eviction
import Reticulum.Theorems.Lxmf.ResourceLinks
import Reticulum.Theorems.Lxmf.Ingress
import Reticulum.Theorems.Lxmf.Mailbox
import Reticulum.Theorems.Lxmf.Representation
import Reticulum.Theorems.PacketHashes
import Reticulum.Theorems.Rrc.Bans
import Reticulum.Theorems.Rrc.Verbatim
import Reticulum.Theorems.Lxmf.StoreAndForward
import Reticulum.Theorems.Rrc.Decoding
import Reticulum.Theorems.Lxmf.Callbacks
import Reticulum.Theorems.Rrc.Membership
