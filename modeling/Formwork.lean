import Formwork.Binary64
import Formwork.Binary64.Shortest
import Formwork.Binary64.Text
import Formwork.Comparator
import Formwork.Control.Leaf
import Formwork.Control.Node
import Formwork.Control.Path
import Formwork.Control.Snapshot
import Formwork.Control.Status
import Formwork.Control.Store
import Formwork.Dialect
import Formwork.Dialect.Common
import Formwork.Event
import Formwork.Expression
import Formwork.Expression.Codec
import Formwork.Expression.Evaluation
import Formwork.Form
import Formwork.Form.Growth
import Formwork.Form.Render
import Formwork.Form.Session
import Formwork.Json
import Formwork.Json.Loose
import Formwork.Json.Printer
import Formwork.Json.Reader
import Formwork.Json.Record
import Formwork.Keyed
import Formwork.Messages
import Formwork.Options
import Formwork.Pattern
import Formwork.Pattern.CharSet
import Formwork.Pattern.Class
import Formwork.Pattern.Escape
import Formwork.Pattern.Reader
import Formwork.Proofs.Accounting
import Formwork.Proofs.Addition
import Formwork.Proofs.Address
import Formwork.Proofs.Allocation
import Formwork.Proofs.Allowlist
import Formwork.Proofs.Alternatives
import Formwork.Proofs.Anchoring
import Formwork.Proofs.Backoff
import Formwork.Proofs.Brackets
import Formwork.Proofs.Built
import Formwork.Proofs.CheckDigits
import Formwork.Proofs.Chronicle
import Formwork.Proofs.Coherence
import Formwork.Proofs.CommonGrammar
import Formwork.Proofs.Containment
import Formwork.Proofs.Destination
import Formwork.Proofs.Display
import Formwork.Proofs.Effect
import Formwork.Proofs.Explanation
import Formwork.Proofs.Extension
import Formwork.Proofs.Faults
import Formwork.Proofs.FetchedOptions
import Formwork.Proofs.Flattening
import Formwork.Proofs.FullValidation
import Formwork.Proofs.Grammar
import Formwork.Proofs.Interleaving
import Formwork.Proofs.Items
import Formwork.Proofs.Languages
import Formwork.Proofs.Letters
import Formwork.Proofs.Listing
import Formwork.Proofs.LocalFailures
import Formwork.Proofs.Mailbox
import Formwork.Proofs.Nearest
import Formwork.Proofs.Outline
import Formwork.Proofs.OwnContext
import Formwork.Proofs.Placeholder
import Formwork.Proofs.Planting
import Formwork.Proofs.Precedence
import Formwork.Proofs.Readings
import Formwork.Proofs.Reencoding
import Formwork.Proofs.Registrations
import Formwork.Proofs.Rendering
import Formwork.Proofs.Reordering
import Formwork.Proofs.Replacement
import Formwork.Proofs.Reports
import Formwork.Proofs.Seams
import Formwork.Proofs.Segments
import Formwork.Proofs.Slips
import Formwork.Proofs.Spans
import Formwork.Proofs.Spelling
import Formwork.Proofs.Staleness
import Formwork.Proofs.Substitution
import Formwork.Proofs.Traversal
import Formwork.Proofs.Turns
import Formwork.Proofs.UnreadPaths
import Formwork.Proofs.UserAgent
import Formwork.Proofs.Values
import Formwork.Proofs.Waits
import Formwork.Proofs.Walk
import Formwork.Proofs.WireForm
import Formwork.Query
import Formwork.Query.Reader
import Formwork.Query.Token
import Formwork.Schema.Error
import Formwork.Schema.Layout
import Formwork.Schema.LeafSpec
import Formwork.Schema.NodeKind
import Formwork.Schema.Rule
import Formwork.Settings
import Formwork.Settings.Codec
import Formwork.Settings.Folder
import Formwork.Settings.Loading
import Formwork.Settings.Sink
import Formwork.Text.Blank
import Formwork.Text.Case
import Formwork.Text.DecimalForm
import Formwork.Text.Numeral
import Formwork.Text.Pieces
import Formwork.Text.Ranges
import Formwork.Text.Replace
import Formwork.Text.Word
import Formwork.Toml
import Formwork.Toml.Draft
import Formwork.Toml.Quoted
import Formwork.Toml.Reader
import Formwork.Toml.Scalar
import Formwork.Transport
import Formwork.Transport.Http
import Formwork.Transport.Retry
import Formwork.Url
import Formwork.Url.Domain
import Formwork.Url.Host
import Formwork.Url.Ip
import Formwork.Url.Mapping
import Formwork.Url.Punycode
import Formwork.Validation.Check
import Formwork.Validation.Email
import Formwork.Validation.Iban
import Formwork.Validation.Remote
import Formwork.Validation.Validator
