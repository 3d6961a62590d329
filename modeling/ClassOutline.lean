import ClassOutline.Block
import ClassOutline.Cli.Command
import ClassOutline.Cli.Flag
import ClassOutline.Cli.Session
import ClassOutline.Envelope
import ClassOutline.Extract.Declaration
import ClassOutline.Extract.Java
import ClassOutline.Extract.Php
import ClassOutline.Extract.Python
import ClassOutline.Files.Path
import ClassOutline.Files.Tree
import ClassOutline.Http.Counters
import ClassOutline.Http.MediaType
import ClassOutline.Http.Multipart
import ClassOutline.Http.QueryText
import ClassOutline.Http.QuotedPrintable
import ClassOutline.Http.Request
import ClassOutline.Http.Response
import ClassOutline.Http.Service
import ClassOutline.Http.Submission
import ClassOutline.Json.Basic
import ClassOutline.Json.Reader
import ClassOutline.Language
import ClassOutline.Main
import ClassOutline.Model.Basic
import ClassOutline.Model.Wire
import ClassOutline.Number.Binary64
import ClassOutline.Number.Decimal
import ClassOutline.Number.Duration
import ClassOutline.Number.Literal
import ClassOutline.Pattern.Glob
import ClassOutline.Pattern.IgnoreLine
import ClassOutline.Pattern.Regex
import ClassOutline.Pattern.RegexReader
import ClassOutline.Project
import ClassOutline.Registry
import ClassOutline.Remote.Clone
import ClassOutline.Remote.Location
import ClassOutline.Remote.Url
import ClassOutline.Scan.Filter
import ClassOutline.Scan.Head
import ClassOutline.Scan.Listing
import ClassOutline.Scan.Report
import ClassOutline.Scan.Repository
import ClassOutline.Scan.Workers
import ClassOutline.Settings
import ClassOutline.Text.Base64
import ClassOutline.Text.Blank
import ClassOutline.Text.Bytes
import ClassOutline.Text.EditDistance
import ClassOutline.Text.LowerCase
import ClassOutline.Text.Occurrence
import ClassOutline.Text.Printable
import ClassOutline.Text.Quoted
import ClassOutline.Text.Rune
import ClassOutline.Yaml.Cursor
import ClassOutline.Yaml.Decode
import ClassOutline.Yaml.Node
import ClassOutline.Yaml.Resolve
import ClassOutline.Yaml.Scalar
import ClassOutline.Yaml.Tag
import ClassOutline.Yaml.Token
import ClassOutline.Yaml.Window
import ClassOutline.Yaml.Writer
import ClassOutline.Proofs.Ascent
import ClassOutline.Proofs.BlockLayout
import ClassOutline.Proofs.BraceCounter
import ClassOutline.Proofs.BracedClass
import ClassOutline.Proofs.Checkout
import ClassOutline.Proofs.Detection
import ClassOutline.Proofs.DetectionGrowth
import ClassOutline.Proofs.EdgeInvariant
import ClassOutline.Proofs.Files.Paths
import ClassOutline.Proofs.Files.Trees
import ClassOutline.Proofs.FrontEnds
import ClassOutline.Proofs.Http.Accounting
import ClassOutline.Proofs.Http.Exchanges
import ClassOutline.Proofs.Http.Formats
import ClassOutline.Proofs.Http.MediaTypes
import ClassOutline.Proofs.Http.MultipartForm
import ClassOutline.Proofs.Http.QueryForm
import ClassOutline.Proofs.Http.RateLimit
import ClassOutline.Proofs.JavaSource
import ClassOutline.Proofs.Json.RoundTrip
import ClassOutline.Proofs.Json.Spelling
import ClassOutline.Proofs.Listing
import ClassOutline.Proofs.PhpSource
import ClassOutline.Proofs.PythonForms
import ClassOutline.Proofs.PythonRegions
import ClassOutline.Proofs.PythonSource
import ClassOutline.Proofs.Scheduling
import ClassOutline.Proofs.Subdirectory
import ClassOutline.Proofs.Text.Casing
import ClassOutline.Proofs.Text.Characters
import ClassOutline.Proofs.Text.Encoding
import ClassOutline.Proofs.Text.Collapsing
import ClassOutline.Proofs.Text.ListEntries
import ClassOutline.Proofs.Text.Occurrences
import ClassOutline.Proofs.Text.OneLine
import ClassOutline.Proofs.Text.Padding
import ClassOutline.Proofs.Text.Pieces
import ClassOutline.Proofs.Text.Reading
import ClassOutline.Proofs.Text.Search
import ClassOutline.Proofs.Text.Trimming
import ClassOutline.Proofs.Text.Words
import ClassOutline.Proofs.WellFormed
import ClassOutline.Proofs.Worktree
import ClassOutline.Proofs.Concatenation
import ClassOutline.Proofs.Json.Decoding
import ClassOutline.Proofs.WireFormat
import ClassOutline.Proofs.HeadListing
import ClassOutline.Proofs.ListingOptions
import ClassOutline.Proofs.DeclaredVisibility
import ClassOutline.Proofs.JavaReadings
import ClassOutline.Proofs.Text.Fields
import ClassOutline.Proofs.Http.BodyLimit
import ClassOutline.Proofs.Text.Endings
import ClassOutline.Proofs.Remote.Addresses
import ClassOutline.Proofs.Remote.RepositoryNames
import ClassOutline.Proofs.Yaml.Overlays
import ClassOutline.Proofs.Project.NamedSettings
import ClassOutline.Proofs.Project.ScanFlags
import ClassOutline.Proofs.Yaml.Values
import ClassOutline.Proofs.Project.SavedSettings
import ClassOutline.Proofs.EnvironmentSettings
import ClassOutline.Proofs.Registration
import ClassOutline.Proofs.Project.InitialSettings
import ClassOutline.Proofs.Files.Walks
import ClassOutline.Proofs.RootSpelling
