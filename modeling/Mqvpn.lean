import Mqvpn.Reorder.Budget
import Mqvpn.Reorder.Confluence
import Mqvpn.Reorder.Residence
import Mqvpn.Reorder.Backstop
import Mqvpn.Reorder.Incarnations
import Mqvpn.Client.Bootstrap
import Mqvpn.Client.Transport
import Mqvpn.Client.Send
import Mqvpn.Client.Wake
import Mqvpn.Client.Body
import Mqvpn.Server.Access
import Mqvpn.Server.Ownership
import Mqvpn.Server.Users
import Mqvpn.Tunnel.Negotiation
import Mqvpn.Egress.Contract
import Mqvpn.Lane.UplinkInv
import Mqvpn.Sni.Sticky
import Mqvpn.Offload.Prefix
import Mqvpn.Offload.Segmentation
import Mqvpn.Redundant.Verdict
import Mqvpn.Redundant.Modes
