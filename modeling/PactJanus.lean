import PactJanus.Lib.Binary64
import PactJanus.Lib.Base64
import PactJanus.Lib.Text
import PactJanus.Data.Json
import PactJanus.Shape.VariantSpace
import PactJanus.Plan.Value
import PactJanus.Plan.Resolve
import PactJanus.Plan.Result
import PactJanus.Plan.Legacy
import PactJanus.Plan.Interpret
import PactJanus.Plan.Compile
import PactJanus.Plan.Navigation
import PactJanus.Plan.Outcome
import PactJanus.Plan.Accepts
import PactJanus.Shape.Valid
import PactJanus.Plan.Positions
import PactJanus.Plan.Checks
import PactJanus.Plan.Flow
import PactJanus.Plan.Leaves
import PactJanus.Plan.Settles
import PactJanus.Plan.Verdict
import PactJanus.Data.Equality
import PactJanus.Shape.Admits
import PactJanus.Shape.Alternatives
import PactJanus.Plan.Documents
import PactJanus.Plan.Semantics
import PactJanus.Plan.Correctness
import PactJanus.Shape.Placed
import PactJanus.Plan.Narrowing
import PactJanus.Variant.Assignment
import PactJanus.Plan.Pinning
import PactJanus.Variant.Generate
import PactJanus.Variant.Production
import PactJanus.Subsumption.Findings
import PactJanus.Subsumption.Phrases
import PactJanus.Subsumption.Compare
import PactJanus.Subsumption.Weight
import PactJanus.Subsumption.Residual
import PactJanus.Subsumption.Scope
import PactJanus.Subsumption.Identity
import PactJanus.Subsumption.Soundness
import PactJanus.Plan.Fragment
import PactJanus.Plan.Reading
import PactJanus.Plan.Translation
import PactJanus.Lib.KeyedUnion
import PactJanus.Contracts.Canonical
import PactJanus.Contracts.Merge
import PactJanus.Contracts.Files
import PactJanus.Lib.Decimal
import PactJanus.Data.Spelling
import PactJanus.Contracts.Identity
import PactJanus.Compatibility.Decide
import PactJanus.Compatibility.Accounting
import PactJanus.Verification.Reading
import PactJanus.Recording.Emission
import PactJanus.Recording.Evidence
import PactJanus.Recording.Summary
import PactJanus.Recording.Literals
import PactJanus.Recording.Soundness
import PactJanus.Recording.Recorded
import PactJanus.Variant.Naming
import PactJanus.Shape.Addresses
import PactJanus.Shape.Names
import PactJanus.Lib.Machine
import PactJanus.Lib.PartialMap
import PactJanus.Session.Exchange
import PactJanus.Session.Interleaving
import PactJanus.Session.Provenance
import PactJanus.Lib.Distinct
import PactJanus.Plan.Contains
import PactJanus.Variant.Entries
import PactJanus.Subsumption.Coherence
import PactJanus.Shape.MemberOrder
import PactJanus.Subsumption.MemberOrder
import PactJanus.Subsumption.ScalarLeaves
import PactJanus.Legacy.Upgrade
import PactJanus.Legacy.Accounting
import PactJanus.Events.Delivery
import PactJanus.Verification.Counting
import PactJanus.Verification.Summary
import PactJanus.Legacy.Body
import PactJanus.Plan.Replacement
import PactJanus.Legacy.Checked
import PactJanus.Legacy.Misread
import PactJanus.Legacy.Comparison
import PactJanus.Shape.Bounds
import PactJanus.Session.Attribution
import PactJanus.Session.Serving
import PactJanus.Plan.Agreement
import PactJanus.Variant.Policy
import PactJanus.Lib.Saturation
import PactJanus.Variant.Growth
import PactJanus.Variant.Selection
import PactJanus.Variant.Excluded
import PactJanus.Shape.Gating
import PactJanus.Variant.Completion
import PactJanus.Variant.Membership
import PactJanus.Variant.Size
import PactJanus.Variant.Trace
import PactJanus.Variant.Coverage
import PactJanus.Variant.Kept
import PactJanus.Variant.Covering
import PactJanus.Variant.Report
import PactJanus.Variant.Params
import PactJanus.Variant.Rebinding
import PactJanus.Recording.Ordering
import PactJanus.Recording.Reordering
import PactJanus.Hooks.Changes
import PactJanus.Hooks.Whole
import PactJanus.Legacy.TextPatterns
import PactJanus.Legacy.Precedence
import PactJanus.Plan.Faults
import PactJanus.Legacy.Parameters
import PactJanus.Shape.Parse
import PactJanus.Shape.Accepted
import PactJanus.Shape.Parsed
import PactJanus.Contracts.CanonicalShape
import PactJanus.Shape.Invariants
import PactJanus.Plan.Places
import PactJanus.Plan.Reads
import PactJanus.Plan.Addressing
import PactJanus.Component.Content
import PactJanus.Plan.Splice
import PactJanus.Plan.Confinement
import PactJanus.Component.Requirements
import PactJanus.Legacy.Replayed
import PactJanus.Http.MediaTypes
import PactJanus.Http.Message
import PactJanus.Http.Replay
import PactJanus.Legacy.Builder
import PactJanus.Legacy.Indices
import PactJanus.Lib.Delimited
import PactJanus.Lib.Multipart
import PactJanus.Legacy.MultipartFiles
import PactJanus.Legacy.Uploaded
import PactJanus.Component.MultipartContent
import PactJanus.Component.MultipartRoundTrip
import PactJanus.Component.XmlContent
import PactJanus.Variant.Readiness
import PactJanus.Lib.Affixes
import PactJanus.Broker.Published
import PactJanus.Broker.Links
import PactJanus.Component.Oci
import PactJanus.Session.Logging
import PactJanus.Verification.Targets
import PactJanus.Lib.Runs
import PactJanus.Plan.Pretty
import PactJanus.Plan.Tokens
import PactJanus.Plan.ReadBack
import PactJanus.Lib.Fueled
import PactJanus.SchemaCompat.Checker
import PactJanus.SchemaCompat.Validity
import PactJanus.SchemaCompat.Reports
import PactJanus.SchemaCompat.Additive
import PactJanus.Plan.ByteScanner
import PactJanus.Subsumption.Literals
import PactJanus.Plan.Lossless
import PactJanus.Session.Custody
import PactJanus.Session.Finalised
import PactJanus.Protocol.Sessions
import PactJanus.Protocol.Polling
import PactJanus.Protocol.Frames
