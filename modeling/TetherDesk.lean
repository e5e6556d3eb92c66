import TetherDesk.Codec.Tile.RoundTrip
import TetherDesk.SendQueue
import TetherDesk.Host.Guard.Theorems
import TetherDesk.Secure.Session
import TetherDesk.ScreenSync.Run
import TetherDesk.Client.App.Session
import TetherDesk.Client.Store.RoundTrip
import TetherDesk.Host.Server.ViewOnly
import TetherDesk.Host.Server.Authentication
import TetherDesk.Host.Server.Departure
import TetherDesk.Net.Ws.RoundTrip
import TetherDesk.Relay.Isolation
import TetherDesk.Host.Server.FlowControl
import TetherDesk.Host.Server.Announced
import TetherDesk.Codec.Lz.Decompress
import TetherDesk.Codec.Tile.Encode
import TetherDesk.Client.Frame.Memory
import TetherDesk.Client.Frame.Texture
import TetherDesk.Client.Store.Save
import TetherDesk.Host.Server.Cleanup
import TetherDesk.Relay.Response
import TetherDesk.Relay.Limits
import TetherDesk.Host.Server.Displays
import TetherDesk.Host.Server.RelayReply
import TetherDesk.Host.Quality
import TetherDesk.FrameSize
import TetherDesk.Host.MacInput
import TetherDesk.Host.Server.Operator
import TetherDesk.Host.Server.Clipboard
import TetherDesk.Client.App.Clipboard
import TetherDesk.Hash.Digest
import TetherDesk.Net.Ws.Memory
import TetherDesk.Poly.Exact
import TetherDesk.X25519.Exact
import TetherDesk.Codec.Tile.Smallest
import TetherDesk.Net.Http.Header
import TetherDesk.Reader.Fields
import TetherDesk.Client.HostService
import TetherDesk.Host.Encoder.WorkerPool
import TetherDesk.Handshake
import TetherDesk.Pipeline
import TetherDesk.Rendezvous
import TetherDesk.FileTransfer
import TetherDesk.Host.Server.RelayLink
import TetherDesk.Login
import TetherDesk.Delivery
