import LiveTemplate.Main
import LiveTemplate.Value.Serialization
import LiveTemplate.Json.Reading
import LiveTemplate.Proofs.Operator.Applied
import LiveTemplate.Proofs.Operator.Purity
import LiveTemplate.Proofs.Template.Commitment
import LiveTemplate.Proofs.Template.Copies
import LiveTemplate.Proofs.Template.Interpreter
import LiveTemplate.Proofs.Template.Names
import LiveTemplate.Proofs.Template.Nesting
import LiveTemplate.Proofs.Template.Overflow
import LiveTemplate.Proofs.Template.Preserved
import LiveTemplate.Proofs.Template.Spelled
import LiveTemplate.Proofs.Template.Verdict
import LiveTemplate.Proofs.Watch.Freshness
import LiveTemplate.Proofs.Watch.Settled
import LiveTemplate.Proofs.Grammar.Within
import LiveTemplate.Proofs.Template.Rejection
import LiveTemplate.Proofs.Value.Home
import LiveTemplate.Proofs.Watch.Course
import LiveTemplate.Proofs.Watch.Listing
import LiveTemplate.Proofs.Watch.Registry
import LiveTemplate.Proofs.Watch.Telling
import LiveTemplate.Proofs.Value.Comparison
import LiveTemplate.Proofs.Watch.Captured
import LiveTemplate.Proofs.Watch.Storing
import LiveTemplate.Proofs.Calendar.Gregorian
import LiveTemplate.Proofs.Number.Integer
import LiveTemplate.Proofs.Value.RoundTrip
import LiveTemplate.Proofs.Calendar.Instant
import LiveTemplate.Proofs.Operator.Ordering
import LiveTemplate.Proofs.Value.Indexing
import LiveTemplate.Proofs.Watch.Idempotence
import LiveTemplate.Proofs.Color.Hexadecimal
import LiveTemplate.Proofs.Library.Slices
import LiveTemplate.Proofs.Measure.Readers
import LiveTemplate.Proofs.Number.Display
import LiveTemplate.Proofs.Text.Offset
import LiveTemplate.Proofs.Value.Impurity
import LiveTemplate.Proofs.Template.Ending
import LiveTemplate.Proofs.Session.Conversation
import LiveTemplate.Proofs.Region.Isolation
