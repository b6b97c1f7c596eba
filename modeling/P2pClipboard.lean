import P2pClipboard.Crash
import P2pClipboard.Legacy
import P2pClipboard.Transfer
import P2pClipboard.Restart
import P2pClipboard.Retry
import P2pClipboard.Suppression
import P2pClipboard.Interleaving
import P2pClipboard.FileForms
import P2pClipboard.Convergence
import P2pClipboard.Confinement
import P2pClipboard.Directory
import P2pClipboard.Certificate
import P2pClipboard.Discovery
import P2pClipboard.Overwrite
import P2pClipboard.UriList
import P2pClipboard.Hdrop
import P2pClipboard.Links
import P2pClipboard.TopLevel
import P2pClipboard.Routing
import P2pClipboard.Cleaning
import P2pClipboard.Transmit
import P2pClipboard.Nonce
import P2pClipboard.PacketSize
import P2pClipboard.Behaviour
import P2pClipboard.DiscoveredNodes
import P2pClipboard.Iface
import P2pClipboard.Probing
import P2pClipboard.Lib.Truncation
import P2pClipboard.Lan
import P2pClipboard.Handshake
import P2pClipboard.Mesh
import P2pClipboard.WireFormat
import P2pClipboard.Lib.Ipv4Text
import P2pClipboard.StartUp
import P2pClipboard.FileTools
