import DocumentClient.Main
import DocumentClient.Proofs.Attachment.Isolation
import DocumentClient.Proofs.Database.Convergence
import DocumentClient.Proofs.Database.Overlap
import DocumentClient.Proofs.Database.Registry
import DocumentClient.Proofs.Query.Routing
import DocumentClient.Proofs.Query.Wire
import DocumentClient.Proofs.Root
import DocumentClient.Proofs.Usage
import DocumentClient.Proofs.Wire.Delivery
import DocumentClient.Wire.Answer
import DocumentClient.Proofs.Attachment.RoundTrip
import DocumentClient.Proofs.Transport.Deadline
import DocumentClient.Proofs.Database.Listed
import DocumentClient.Proofs.Database.Directory
import DocumentClient.Proofs.Transport.Logging
import DocumentClient.Proofs.Query.Steps
import DocumentClient.Proofs.Query.Equalities
import DocumentClient.Proofs.Query.Acceptance
import DocumentClient.Proofs.Attachment.Headers
import DocumentClient.Proofs.Json.Locality
import DocumentClient.Proofs.Json.Grammar
import DocumentClient.Proofs.Json.Text
import DocumentClient.Proofs.Json.Number
import DocumentClient.Proofs.Json.Skip
import DocumentClient.Proofs.Json.Decoder
import DocumentClient.Proofs.Json.Members
import DocumentClient.Proofs.Json.Record
import DocumentClient.Proofs.Body
import DocumentClient.Proofs.Json.Elements
import DocumentClient.Proofs.Database.Elementwise
import DocumentClient.Proofs.Json.Writer
import DocumentClient.Proofs.Json.Objects
import DocumentClient.Proofs.Database.Document
import DocumentClient.Proofs.Http.Spelling
import DocumentClient.Proofs.Attachment.Metadata
import DocumentClient.Proofs.Query.Sorting
import DocumentClient.Proofs.Transport.Handshake
import DocumentClient.Proofs.PathSegment.Encoding
import DocumentClient.Proofs.Wire.Received
import DocumentClient.Proofs.Northwind
