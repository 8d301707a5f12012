import GoTuf.Go.Runtime
import GoTuf.Go.BigInt
import GoTuf.Go.Elliptic
import GoTuf.Go.Crypto
import GoTuf.Encoding.Base64
import GoTuf.Encoding.Json
import GoTuf.Encoding.Json.Utf8
import GoTuf.Encoding.Json.Append
import GoTuf.Encoding.Json.Depth
import GoTuf.Encoding.Json.Fuel
import GoTuf.Encoding.Json.Object
import GoTuf.Encoding.Json.Encode
import GoTuf.Signatures.Api
import GoTuf.Signatures.Ecdsa
import GoTuf.Signatures.Ed25519
import GoTuf.Signatures.Registry
import GoTuf.Signatures.RoundTrip
import GoTuf.Signatures.FailClosed
import GoTuf.Key.JsonKeyPair
import GoTuf.Key.Unmarshal
import GoTuf.Key.Envelope
import GoTuf.Key.Consistency
import GoTuf.Key.Agreement
