import SafeTransmission.Codec.RoundTrip
import SafeTransmission.Codec.Capacity
import SafeTransmission.Codec.Distinguished
import SafeTransmission.Codec.Integers
import SafeTransmission.Codec.BitStrings
import SafeTransmission.Codec.FreeSequence
import SafeTransmission.Asn1.Splitting
import SafeTransmission.Asn1.SequenceRoundTrip
import SafeTransmission.Asn1.Rewriting
import SafeTransmission.Asn1.Strings
import SafeTransmission.Asn1.Sizes
import SafeTransmission.Asn1.Identifiers
import SafeTransmission.Store.Sharing
import SafeTransmission.Store.ShmkeyRuns
import SafeTransmission.Agreement.KeyAgreement
import SafeTransmission.Agreement.Framing
import SafeTransmission.Agreement.PeerLengths
import SafeTransmission.Agreement.Attempts
import SafeTransmission.Agreement.Parties
import SafeTransmission.Agreement.Nonces
import SafeTransmission.Agreement.Copies
import SafeTransmission.Agreement.Connecting
import SafeTransmission.Server.Dispatch
import SafeTransmission.Server.Stopping
import SafeTransmission.Service.Answering
import SafeTransmission.Service.Strangers
import SafeTransmission.Service.Clocks
import SafeTransmission.Service.Programs
import SafeTransmission.Service.Interceptors
import SafeTransmission.Server.EndOfStream
import SafeTransmission.Pool.Arguments
import SafeTransmission.Pool.Draining
import SafeTransmission.Pool.Shutdown
import SafeTransmission.Op.Binding
import SafeTransmission.Op.ReplyLeaks
import SafeTransmission.Op.Heartbeat
import SafeTransmission.Op.KeyText
import SafeTransmission.Op.HexDigits
import SafeTransmission.Op.Exchanges
