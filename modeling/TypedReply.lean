import TypedReply.Calendar.Date
import TypedReply.Calendar.DateTime
import TypedReply.Calendar.Iso
import TypedReply.Coerce.Enum
import TypedReply.Coerce.Scalar
import TypedReply.Contract
import TypedReply.Descriptor.Basic
import TypedReply.Descriptor.EnumType
import TypedReply.Descriptor.Equality
import TypedReply.Digest.Sha256
import TypedReply.Error
import TypedReply.Json.Stable
import TypedReply.Json.Text
import TypedReply.Naming
import TypedReply.Numeric.Double
import TypedReply.Numeric.FloatText
import TypedReply.Numeric.Numeral
import TypedReply.Numeric.Shortest
import TypedReply.Options
import TypedReply.Path
import TypedReply.Plain
import TypedReply.Prompt
import TypedReply.Proofs.Accord
import TypedReply.Proofs.Action
import TypedReply.Proofs.Aligned
import TypedReply.Proofs.Coerce.IntegerText
import TypedReply.Proofs.Coerce.Json
import TypedReply.Proofs.Contract.Payload
import TypedReply.Proofs.Descriptor.Reordering
import TypedReply.Proofs.Json.Canonical
import TypedReply.Proofs.Naming
import TypedReply.Proofs.Path
import TypedReply.Proofs.Plain.Tagging
import TypedReply.Proofs.Prompt
import TypedReply.Proofs.Registry.Annotation
import TypedReply.Proofs.Registry.History
import TypedReply.Proofs.Registry.Integrity
import TypedReply.Proofs.Reply.Acceptance
import TypedReply.Proofs.Reply.Blame
import TypedReply.Proofs.Reply.Comparison
import TypedReply.Proofs.Reply.Containers
import TypedReply.Proofs.Reply.Containment
import TypedReply.Proofs.Reply.Discriminators
import TypedReply.Proofs.Reply.Idempotence
import TypedReply.Proofs.Reply.KeyOrder
import TypedReply.Proofs.Reply.Maps
import TypedReply.Proofs.Reply.Namesakes
import TypedReply.Proofs.Reply.NestedUnions
import TypedReply.Proofs.Reply.RoundTrip
import TypedReply.Proofs.Reply.ScalarUnions
import TypedReply.Proofs.Reply.Selection
import TypedReply.Proofs.Reply.Settlement
import TypedReply.Proofs.Reply.Structs
import TypedReply.Proofs.Reply.Tags
import TypedReply.Proofs.Reply.Unions
import TypedReply.Proofs.Schema.Abandonment
import TypedReply.Proofs.Schema.Choices
import TypedReply.Proofs.Schema.Conformance
import TypedReply.Proofs.Schema.Cutting
import TypedReply.Proofs.Schema.Definitions
import TypedReply.Proofs.Schema.Depth
import TypedReply.Proofs.Schema.Describing
import TypedReply.Proofs.Schema.Failure
import TypedReply.Proofs.Schema.Inclusion
import TypedReply.Proofs.Schema.Inlining
import TypedReply.Proofs.Schema.Keywords
import TypedReply.Proofs.Schema.Narrowing
import TypedReply.Proofs.Schema.Nodes
import TypedReply.Proofs.Schema.Origins
import TypedReply.Proofs.Schema.Places
import TypedReply.Proofs.Schema.Progress
import TypedReply.Proofs.Schema.References
import TypedReply.Proofs.Schema.Requirement
import TypedReply.Proofs.Schema.Sanitizing
import TypedReply.Proofs.Schema.Session
import TypedReply.Proofs.Schema.Subschemas
import TypedReply.Proofs.Schema.Unsharing
import TypedReply.Record.Catalog
import TypedReply.Record.Class
import TypedReply.Record.Library
import TypedReply.Record.TypeExpr
import TypedReply.Reference.Library
import TypedReply.Reference.Loose
import TypedReply.Reference.LooseNumeral
import TypedReply.Reference.Problem
import TypedReply.Reference.Rfc3339
import TypedReply.Reference.UnixTime
import TypedReply.Reference.Validate
import TypedReply.Registry
import TypedReply.Reply.Discriminator
import TypedReply.Reply.Read
import TypedReply.Schema.Compatibility
import TypedReply.Schema.Compile
import TypedReply.Schema.Fields
import TypedReply.Schema.Gemini
import TypedReply.Schema.Strict
import TypedReply.Text.Blank
import TypedReply.Text.CodePoints
import TypedReply.Text.DecimalDigit
import TypedReply.Text.Docstring
import TypedReply.Text.LowerCase
import TypedReply.Text.Printable
import TypedReply.Text.Quoted
import TypedReply.Value.Basic
import TypedReply.Value.Equality
import TypedReply.Value.Fold
import TypedReply.Value.Render
