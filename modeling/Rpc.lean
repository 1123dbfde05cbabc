import Rpc.Balancer
import Rpc.Binary64.Basic
import Rpc.Binary64.Decimal
import Rpc.Binary64.Narrow
import Rpc.Body
import Rpc.Bytes
import Rpc.Bytes.Reader
import Rpc.Cbor.Head
import Rpc.Cbor.Reader
import Rpc.Cbor.Writer
import Rpc.Client.Call
import Rpc.Client.Callers
import Rpc.Client.Client
import Rpc.Client.Connection
import Rpc.Client.Error
import Rpc.Client.Pending
import Rpc.Client.PendingSteps
import Rpc.Client.Pool
import Rpc.Client.Steps
import Rpc.Client.Waiting
import Rpc.Codec.Builtin
import Rpc.Codec.Error
import Rpc.Codec.Registry
import Rpc.Config.Client
import Rpc.Config.Error
import Rpc.Config.Server
import Rpc.Crc32
import Rpc.Deflate.Bits
import Rpc.Deflate.Format
import Rpc.Deflate.Huffman
import Rpc.Deflate.Inflate
import Rpc.Deflate.Token
import Rpc.Deflate.Writer
import Rpc.Directory
import Rpc.Directory.History
import Rpc.Frame
import Rpc.Frame.Buffer
import Rpc.Gzip
import Rpc.Json.Number
import Rpc.Json.Reader
import Rpc.Json.Text
import Rpc.Json.Writer
import Rpc.Message
import Rpc.Net.Address
import Rpc.Panic
import Rpc.Proofs.Balancer.CandidateSet
import Rpc.Proofs.Balancer.Disruption
import Rpc.Proofs.Balancer.Ring
import Rpc.Proofs.Balancer.Uncached
import Rpc.Proofs.Binary64.Narrow
import Rpc.Proofs.Binary64.Rounding
import Rpc.Proofs.Bytes.Reader
import Rpc.Proofs.Bytes.Text
import Rpc.Proofs.Bytes.Yields
import Rpc.Proofs.Cbor.Accepted
import Rpc.Proofs.Cbor.Bodies
import Rpc.Proofs.Cbor.Heads
import Rpc.Proofs.Cbor.Values
import Rpc.Proofs.Client.Calls
import Rpc.Proofs.Client.Correlation
import Rpc.Proofs.Client.Delivery
import Rpc.Proofs.Client.Effect
import Rpc.Proofs.Client.Ended
import Rpc.Proofs.Client.HealthPass
import Rpc.Proofs.Client.History
import Rpc.Proofs.Client.InUse
import Rpc.Proofs.Client.Naming
import Rpc.Proofs.Client.Outcomes
import Rpc.Proofs.Client.Patience
import Rpc.Proofs.Client.Peak
import Rpc.Proofs.Client.Pending
import Rpc.Proofs.Client.Reuse
import Rpc.Proofs.Client.Stock
import Rpc.Proofs.Client.Strays
import Rpc.Proofs.Client.Taking
import Rpc.Proofs.Client.Unsent
import Rpc.Proofs.Client.Writers
import Rpc.Proofs.Codec.Accepted
import Rpc.Proofs.Codec.Bodies
import Rpc.Proofs.Codec.ErrorLengths
import Rpc.Proofs.Codec.Stability
import Rpc.Proofs.Deflate.Bits
import Rpc.Proofs.Deflate.Blocks
import Rpc.Proofs.Deflate.Gzip
import Rpc.Proofs.Deflate.Huffman
import Rpc.Proofs.Deflate.Limit
import Rpc.Proofs.Deflate.Reading
import Rpc.Proofs.Deflate.Sound
import Rpc.Proofs.Deflate.Tokens
import Rpc.Proofs.Deflate.Window
import Rpc.Proofs.Directory.History
import Rpc.Proofs.Frame.Bodies
import Rpc.Proofs.Frame.Cuts
import Rpc.Proofs.Frame.Draining
import Rpc.Proofs.Frame.Header
import Rpc.Proofs.Frame.Layout
import Rpc.Proofs.Frame.LengthField
import Rpc.Proofs.Frame.Limits
import Rpc.Proofs.Frame.Progress
import Rpc.Proofs.Frame.RoundTrip
import Rpc.Proofs.Frame.Understood
import Rpc.Proofs.Json.Accepted
import Rpc.Proofs.Json.Bodies
import Rpc.Proofs.Json.Numerals
import Rpc.Proofs.Json.Strings
import Rpc.Proofs.Json.Values
import Rpc.Proofs.Net.Texts
import Rpc.Proofs.RateLimiter.Admission
import Rpc.Proofs.RateLimiter.Exact
import Rpc.Proofs.RateLimiter.Looks
import Rpc.Proofs.RateLimiter.LowestTerms
import Rpc.Proofs.RateLimiter.Refill
import Rpc.Proofs.RateLimiter.Resolution
import Rpc.Proofs.RateLimiter.Sustained
import Rpc.Proofs.RateLimiter.Waiting
import Rpc.Proofs.Server.Closing
import Rpc.Proofs.Server.Dispatch
import Rpc.Proofs.Server.Filters
import Rpc.Proofs.Server.LocalCall
import Rpc.Proofs.Server.Lookup
import Rpc.Proofs.Server.Rejection
import Rpc.Proofs.Server.Replies
import Rpc.Proofs.Server.Served
import Rpc.Proofs.Server.Serving
import Rpc.Proofs.Server.Starting
import Rpc.Proofs.Server.Turn
import Rpc.Proofs.Server.Typed
import Rpc.Proofs.Server.Workers
import Rpc.Proofs.Server.Writer
import Rpc.Proofs.Session.Asked
import Rpc.Proofs.Session.Content
import Rpc.Proofs.Session.Effort
import Rpc.Proofs.Session.Plans
import Rpc.Proofs.Session.Progress
import Rpc.Proofs.Session.RemoteCalls
import Rpc.Proofs.Session.Soundness
import Rpc.Proofs.Session.Stages
import Rpc.Proofs.Session.Tally
import Rpc.RateLimiter
import Rpc.RateLimiter.Usage
import Rpc.RateLimiter.Words
import Rpc.Server.Callouts
import Rpc.Server.Connection
import Rpc.Server.Filter
import Rpc.Server.LocalCall
import Rpc.Server.Pipeline
import Rpc.Server.Registration
import Rpc.Server.Service
import Rpc.Server.Start
import Rpc.Server.Writer
import Rpc.Session
import Rpc.Table
import Rpc.Text.Hex
import Rpc.Text.Printable
import Rpc.Text.Quoted
import Rpc.Time
import Rpc.Toml.Document
import Rpc.Toml.Record
import Rpc.Toml.Scalar
import Rpc.Typed
import Rpc.Value
import Rpc.XxHash64
