import Sitewright.Assembly
import Sitewright.Build.Address
import Sitewright.Build.Artifacts
import Sitewright.Build.Bundler
import Sitewright.Build.CommandBundler
import Sitewright.Build.CopyBundler
import Sitewright.Build.Output
import Sitewright.Build.Run
import Sitewright.Build.Script
import Sitewright.Command.Arguments
import Sitewright.Command.Basic
import Sitewright.Command.Run
import Sitewright.Component.Basic
import Sitewright.Component.Collection
import Sitewright.Component.Injection
import Sitewright.Digest.Sha256
import Sitewright.Failure
import Sitewright.File.Copy
import Sitewright.File.Difference
import Sitewright.File.Disk
import Sitewright.File.Path
import Sitewright.File.Tree
import Sitewright.Html.Tag
import Sitewright.Job
import Sitewright.Json.Reader
import Sitewright.Json.Value
import Sitewright.Json.Writer
import Sitewright.Keyed
import Sitewright.Layout
import Sitewright.Main
import Sitewright.Number.Double
import Sitewright.Number.Numeral
import Sitewright.Page
import Sitewright.Proofs.Agreement
import Sitewright.Proofs.Assembly
import Sitewright.Proofs.Build.Assets
import Sitewright.Proofs.Build.Bundling
import Sitewright.Proofs.Build.Cleanup
import Sitewright.Proofs.Build.Discarding
import Sitewright.Proofs.Build.Discovery
import Sitewright.Proofs.Build.Documents
import Sitewright.Proofs.Build.Emptying
import Sitewright.Proofs.Build.Equation
import Sitewright.Proofs.Build.Footprint
import Sitewright.Proofs.Build.Listing
import Sitewright.Proofs.Build.Publication
import Sitewright.Proofs.Build.Published
import Sitewright.Proofs.Build.Rebundling
import Sitewright.Proofs.Build.Repeat
import Sitewright.Proofs.Build.Rooting
import Sitewright.Proofs.Build.Routes
import Sitewright.Proofs.Build.Sources
import Sitewright.Proofs.Build.Stages
import Sitewright.Proofs.Build.Survival
import Sitewright.Proofs.Build.Unwrapping
import Sitewright.Proofs.Component.Collection
import Sitewright.Proofs.Component.Cycle
import Sitewright.Proofs.Component.Draft
import Sitewright.Proofs.Component.Expansion
import Sitewright.Proofs.Component.Graph
import Sitewright.Proofs.Component.HeadTags
import Sitewright.Proofs.Component.Links
import Sitewright.Proofs.Component.Outline
import Sitewright.Proofs.Component.Trail
import Sitewright.Proofs.Coupling
import Sitewright.Proofs.Course
import Sitewright.Proofs.File.Alike
import Sitewright.Proofs.File.Beneath
import Sitewright.Proofs.File.Change
import Sitewright.Proofs.File.Copying
import Sitewright.Proofs.File.Frame
import Sitewright.Proofs.File.Lookup
import Sitewright.Proofs.File.Mirror
import Sitewright.Proofs.File.Outside
import Sitewright.Proofs.File.Persistence
import Sitewright.Proofs.File.SameFiles
import Sitewright.Proofs.File.Spelling
import Sitewright.Proofs.HeadEnd
import Sitewright.Proofs.Html.Head
import Sitewright.Proofs.Html.MainRegion
import Sitewright.Proofs.Json.Printable
import Sitewright.Proofs.Json.Reading
import Sitewright.Proofs.Json.RoundTrip
import Sitewright.Proofs.Json.Scalars
import Sitewright.Proofs.Keyed
import Sitewright.Proofs.Outcome
import Sitewright.Proofs.Serve.Boundary
import Sitewright.Proofs.Serve.Confinement
import Sitewright.Proofs.Serve.Delivery
import Sitewright.Proofs.Serve.Framing
import Sitewright.Proofs.Serve.Mapping
import Sitewright.Proofs.Serve.Subscriptions
import Sitewright.Proofs.Site
import Sitewright.Proofs.Site.Loading
import Sitewright.Proofs.Site.Precedence
import Sitewright.Proofs.Template.Composite
import Sitewright.Proofs.Template.Forest
import Sitewright.Proofs.Template.Leftover
import Sitewright.Proofs.Template.Lookup
import Sitewright.Proofs.Template.Marks
import Sitewright.Proofs.Template.Matching
import Sitewright.Proofs.Template.Meaning
import Sitewright.Proofs.Template.Occurrences
import Sitewright.Proofs.Template.Overflow
import Sitewright.Proofs.Template.Passage
import Sitewright.Proofs.Template.Placing
import Sitewright.Proofs.Template.Printing
import Sitewright.Proofs.Template.Resolution
import Sitewright.Proofs.Template.SecondPass
import Sitewright.Proofs.Template.Substitution
import Sitewright.Proofs.Template.Tokens
import Sitewright.Proofs.Template.Unroll
import Sitewright.Proofs.Text.Encoding
import Sitewright.Proofs.Text.Integer
import Sitewright.Proofs.Text.Occurrence
import Sitewright.Proofs.Text.Order
import Sitewright.Proofs.Text.Passage
import Sitewright.Proofs.Text.Scanning
import Sitewright.Proofs.Text.Splitting
import Sitewright.Proofs.Watch
import Sitewright.Proofs.Watch.Seen
import Sitewright.Proofs.Yaml
import Sitewright.Serve.Address
import Sitewright.Serve.Hub
import Sitewright.Serve.Server
import Sitewright.Serve.Session
import Sitewright.Serve.Stream
import Sitewright.Serve.Target
import Sitewright.Shell.Calculation
import Sitewright.Shell.Machine
import Sitewright.Shell.Run
import Sitewright.Shell.Syntax
import Sitewright.Shell.Utility
import Sitewright.Site.Basic
import Sitewright.Site.Settings
import Sitewright.Site.SettingsFile
import Sitewright.Template.Repeat
import Sitewright.Template.Variable
import Sitewright.Template.VariableFile
import Sitewright.Text.Basic
import Sitewright.Text.Blank
import Sitewright.Text.Casing
import Sitewright.Text.Integer
import Sitewright.Text.Markup
import Sitewright.Text.Newline
import Sitewright.Text.Numeral
import Sitewright.Text.Printable
import Sitewright.Text.Quoted
import Sitewright.Text.Scan
import Sitewright.Text.Utf8
import Sitewright.Text.Wildcard
import Sitewright.Watch
import Sitewright.Yaml.Cursor
import Sitewright.Yaml.Document
import Sitewright.Yaml.Implied
import Sitewright.Yaml.Node
import Sitewright.Yaml.Problem
import Sitewright.Yaml.Scalar
import Sitewright.Yaml.Token
import Sitewright.Yaml.Typed
import Sitewright.Yaml.Value
