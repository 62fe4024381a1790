import Vjft.Term.Event.Inserted
import Vjft.Term.Event.Backspaces
import Vjft.Term.Event.Positions
import Vjft.Term.Event.Ownership
import Vjft.Term.Keyb
import Vjft.Term.Frame
import Vjft.Term.ReDraw
import Vjft.Term.Network
import Vjft.App.Keys
import Vjft.App.TextField
import Vjft.Crypt.Exchange
import Vjft.Crypt.Bounds
import Vjft.Crypt.Splitters
import Vjft.Srv.Message
import Vjft.Srv.Header
import Vjft.Srv.Writes
import Vjft.Term.Cleanup
import Vjft.Term.Outgoing
import Vjft.Term.Overlap
import Vjft.Term.Minibuffer
import Vjft.Term.Displays
import Vjft.Term.DynamicBuffer
import Vjft.Term.Encode
import Vjft.Term.Navigation
import Vjft.Term.HexBuffer
import Vjft.Term.Picture
import Vjft.Term.Event.Queue
import Vjft.Srv.Chat
import Vjft.Term.Main
import Vjft.Term.Server
