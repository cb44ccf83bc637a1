import Zcio.Lib.Loop
import Zcio.Lib.Fifo
import Zcio.Lib.SwapRemove
import Zcio.Bytes
import Zcio.HttpUtil.Validate
import Zcio.HttpUtil.Hdrs
import Zcio.HttpUtil.Buf
import Zcio.HttpUtil.HdrMem
import Zcio.HttpUtil.Target
import Zcio.HttpUtil.Segments
import Zcio.HttpUtil.DotSegments
import Zcio.Http.Text
import Zcio.Http.Io
import Zcio.Http.Response
import Zcio.Http.Message
import Zcio.Server.Dispatch
import Zcio.Hpack.Prim
import Zcio.Lib.PrefixTree
import Zcio.Lib.Stack
import Zcio.Hpack.Decode
import Zcio.Hpack.Huffman
import Zcio.Hpack.Spec
import Zcio.Hpack.Refine
import Zcio.Hpack.Integer
import Zcio.Hpack.Encode
import Zcio.Hpack.Abort
import Zcio.H1.Conn
import Zcio.H1.Step
import Zcio.H1.Move
import Zcio.H1.Segment
import Zcio.H1.Once
import Zcio.H1.Message
import Zcio.H1.Framing
import Zcio.H2.Conn
import Zcio.H2.Table
import Zcio.H2.Step
import Zcio.H2.StreamTable
import Zcio.H2.RecvFlow
import Zcio.H2.SendFlow
import Zcio.H2.Response
import Zcio.H2.HpackSync
import Zcio.H2.Segment
import Zcio.H2.Heads
import Zcio.H2.Requests
import Zcio.H2.Body
import Zcio.H2.Goaway
import Zcio.Qpack.Codec
import Zcio.Qpack.Spec
import Zcio.Qpack.Refine
import Zcio.H3.Stream
import Zcio.H3.Requests
import Zcio.H3.Body
import Zcio.H1.Requests
import Zcio.Server.Request
import Zcio.Server.Versions
import Zcio.H1.Reader
import Zcio.H1.Answer
import Zcio.Server.OneResponse
import Zcio.Server.Bodies
import Zcio.Server.Logical
import Zcio.Ws.Accept
import Zcio.Ws.Sha1
import Zcio.Ws.Base64
import Zcio.H2.Pump
import Zcio.H2.Wire
import Zcio.Server.Loop
import Zcio.Server.Iteration
import Zcio.Server.Wakeup
import Zcio.Server.Drain
import Zcio.Server.Phase
import Zcio.Server.SlowRead
import Zcio.H1.Unread
import Zcio.Server.Input
import Zcio.Server.Poll
import Zcio.Server.PollRun
import Zcio.H1.Receiving
import Zcio.Server.HeadTiming
import Zcio.Lib.Circular
import Zcio.Ring.Spsc
import Zcio.Ring.Fifo
import Zcio.Ring.Attach
import Zcio.Copy
import Zcio.Stream
import Zcio.Lib.Bits
import Zcio.Serial.Ops
import Zcio.Serial.BitStream
import Zcio.Serial.RoundTrip
import Zcio.Serial.Plain
import Zcio.Serial.Count
import Zcio.Serial.Modes
import Zcio.Serial.Lasting
import Zcio.HttpUtil.Utf8
import Zcio.Ws.Session
import Zcio.Ws.Output
import Zcio.Ws.Reference
import Zcio.Ws.Round
import Zcio.Ws.Calls
import Zcio.Ws.Wire
import Zcio.Ws.Receive
import Zcio.Ws.Delivery
import Zcio.Ws.RoundTrip
import Zcio.Http.Framing
import Zcio.Http.Request
import Zcio.Http.Exchange
import Zcio.Http.Session
import Zcio.Http.Resend
import Zcio.Ws.Connect
import Zcio.Server.Fields
import Zcio.H3.Section
import Zcio.H3.Heads
import Zcio.H3.Grammar
import Zcio.H3.Conn
import Zcio.H3.Goaway
import Zcio.H1.Redirect
import Zcio.Crypto.Sha256
import Zcio.Lib.BlockHash
import Zcio.Crypto.Fips180
import Zcio.Ws.Closing
import Zcio.Lib.Delimited
import Zcio.H1.Persistence
import Zcio.H1.Bodiless
import Zcio.H1.Sized
import Zcio.Ws.Handshake
import Zcio.Http.Truncated
import Zcio.Http.Chunked
import Zcio.Http.ScanBounds
import Zcio.Tcp.Clients
import Zcio.Serial.Block
import Zcio.Serial.Tally
import Zcio.Serial.Honest
import Zcio.Lib.JsonObject
import Zcio.Http.HeadersJson
import Zcio.Url.Authority
import Zcio.Url.Origin
import Zcio.Lib.Uri
import Zcio.Url.Loose
import Zcio.Url.Rfc3986
import Zcio.Lib.Http1
import Zcio.Http.Injection
import Zcio.Http.Interop
import Zcio.Archive.Handle
import Zcio.Archive.RoundTrip
import Zcio.Lib.Retry
import Zcio.Net.Wait
import Zcio.Lib.Sweep
import Zcio.H3.Bounds
import Zcio.H3.Server
import Zcio.H3.Response
import Zcio.Lib.Registry
import Zcio.Udp.Server
import Zcio.Init
import Zcio.Tcp.Connect
import Zcio.Lib.Ownership
import Zcio.Tcp.Sockets
import Zcio.Tcp.Owners
import Zcio.Dns
