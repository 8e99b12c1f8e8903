import Compliance.Client.Enrich
import Compliance.Client.Http
import Compliance.Client.Source
import Compliance.Service.Config
import Compliance.Service.Routes
import Compliance.Proofs.Mapping.Index
import Compliance.Proofs.Text.ByteOrder
import Compliance.Proofs.Mapping.History
import Compliance.Proofs.Mapping.Join
import Compliance.Proofs.Codec.RoundTrip
import Compliance.Proofs.Codec.Fields
import Compliance.Proofs.Wire
import Compliance.Proofs.Client.Prefetch
import Compliance.Proofs.Client.Run
import Compliance.Proofs.Client.Remote
import Compliance.Proofs.Client.Provenance
import Compliance.Proofs.Client.Transparency
import Compliance.Proofs.Client.Exchange
import Compliance.Proofs.Client.Delivery
import Compliance.Proofs.Codec.Yields
import Compliance.Proofs.Mapping.Calls
import Compliance.Proofs.WireType
import Compliance.Proofs.Client.Enrich
import Compliance.Proofs.Client.Fetch
import Compliance.Proofs.Service.Batch
import Compliance.Proofs.Client.Noninterference
import Compliance.Proofs.Client.WarmUp
import Compliance.Proofs.Codec.Alike
import Compliance.Proofs.Service.Acceptance
import Compliance.Proofs.Client.Endpoint
import Compliance.Proofs.Mapping.Reach
import Compliance.Proofs.Client.Padding
import Compliance.Proofs.Client.Ahead
import Compliance.Proofs.Client.Retry
import Compliance.Proofs.Client.SecondPass
import Compliance.Proofs.Mapping.Registry
import Compliance.Proofs.Mapping.Wiring
import Compliance.Proofs.Net.IpAddress
import Compliance.Proofs.Net.Host
import Compliance.Proofs.Net.Authority
import Compliance.Proofs.Net.Url
import Compliance.Proofs.Client.BatchUrl
import Compliance.Proofs.Evidence
import Compliance.Proofs.Codec.Parsed
import Compliance.Proofs.File.Loading
import Compliance.Proofs.Service.Bootstrap
