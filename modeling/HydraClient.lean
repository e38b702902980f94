import HydraClient.BaseTypes
import HydraClient.Catalog
import HydraClient.Check
import HydraClient.ClassName
import HydraClient.CommandLine
import HydraClient.Disk
import HydraClient.Draft
import HydraClient.Failure
import HydraClient.FilePath
import HydraClient.Filter
import HydraClient.Header
import HydraClient.Imports
import HydraClient.Json.Basic
import HydraClient.Json.Display
import HydraClient.Json.Parser
import HydraClient.Json.Printer
import HydraClient.Json.Scalar
import HydraClient.Label
import HydraClient.Linking
import HydraClient.Main
import HydraClient.Metadata.Checked
import HydraClient.Metadata.Config
import HydraClient.Metadata.Declaration
import HydraClient.Metadata.Decode
import HydraClient.Metadata.Document
import HydraClient.Metadata.Dump
import HydraClient.Metadata.Load
import HydraClient.Metadata.Origin
import HydraClient.Metadata.Reader
import HydraClient.Model
import HydraClient.ModulePath
import HydraClient.Moment
import HydraClient.Number.Binary64
import HydraClient.Number.Quantity
import HydraClient.Number.Shortest
import HydraClient.Number.Text
import HydraClient.OperationKind
import HydraClient.Operations
import HydraClient.OrderedMap
import HydraClient.Payload
import HydraClient.Pipeline
import HydraClient.Proofs.Addresses
import HydraClient.Proofs.Adoptions
import HydraClient.Proofs.Alike
import HydraClient.Proofs.Alternations
import HydraClient.Proofs.Ancestry
import HydraClient.Proofs.Annotations
import HydraClient.Proofs.Assembly
import HydraClient.Proofs.BaseEntries
import HydraClient.Proofs.BrokenRuns
import HydraClient.Proofs.BuiltProperties
import HydraClient.Proofs.Completeness
import HydraClient.Proofs.Confinement
import HydraClient.Proofs.ConstantNames
import HydraClient.Proofs.Contributions
import HydraClient.Proofs.Conversions
import HydraClient.Proofs.Dealings
import HydraClient.Proofs.Declarations
import HydraClient.Proofs.DefaultOrders
import HydraClient.Proofs.Defaults
import HydraClient.Proofs.Depth
import HydraClient.Proofs.Disks
import HydraClient.Proofs.EndpointNames
import HydraClient.Proofs.EndpointScopes
import HydraClient.Proofs.ExitCodes
import HydraClient.Proofs.Exports
import HydraClient.Proofs.Extraction
import HydraClient.Proofs.Factories
import HydraClient.Proofs.FactoryDepth
import HydraClient.Proofs.FactoryEntries
import HydraClient.Proofs.Faults
import HydraClient.Proofs.FieldLines
import HydraClient.Proofs.FieldSteps
import HydraClient.Proofs.FieldTokens
import HydraClient.Proofs.Fields
import HydraClient.Proofs.FileNames
import HydraClient.Proofs.FilterSteps
import HydraClient.Proofs.Folding
import HydraClient.Proofs.Fragments
import HydraClient.Proofs.FramedExtraction
import HydraClient.Proofs.FramedFiles
import HydraClient.Proofs.FramedOperations
import HydraClient.Proofs.Framing
import HydraClient.Proofs.Generation
import HydraClient.Proofs.Growth
import HydraClient.Proofs.GuestSteps
import HydraClient.Proofs.Guests
import HydraClient.Proofs.Headers
import HydraClient.Proofs.Heads
import HydraClient.Proofs.Hidden
import HydraClient.Proofs.Inheritance
import HydraClient.Proofs.InlineEnums
import HydraClient.Proofs.InterfaceReading
import HydraClient.Proofs.InterfaceText
import HydraClient.Proofs.Joining
import HydraClient.Proofs.Linked
import HydraClient.Proofs.ListCalls
import HydraClient.Proofs.ListFields
import HydraClient.Proofs.ListImports
import HydraClient.Proofs.ListTypes
import HydraClient.Proofs.Literals
import HydraClient.Proofs.LocaleFamilies
import HydraClient.Proofs.Locality
import HydraClient.Proofs.Lookup
import HydraClient.Proofs.MemberKeys
import HydraClient.Proofs.Mentions
import HydraClient.Proofs.NameConversions
import HydraClient.Proofs.NameLetters
import HydraClient.Proofs.NormalForms
import HydraClient.Proofs.Numbering
import HydraClient.Proofs.OptOut
import HydraClient.Proofs.Origins
import HydraClient.Proofs.Outcomes
import HydraClient.Proofs.Overriding
import HydraClient.Proofs.OwnFields
import HydraClient.Proofs.ParentLinks
import HydraClient.Proofs.PathVariables
import HydraClient.Proofs.Persistence
import HydraClient.Proofs.Placeholders
import HydraClient.Proofs.Preservation
import HydraClient.Proofs.PropertyKeys
import HydraClient.Proofs.Reachability
import HydraClient.Proofs.Reading
import HydraClient.Proofs.Reconciliation
import HydraClient.Proofs.Refusals
import HydraClient.Proofs.Registration
import HydraClient.Proofs.Rehearsal
import HydraClient.Proofs.Rejoining
import HydraClient.Proofs.Repetition
import HydraClient.Proofs.Reports
import HydraClient.Proofs.Requests
import HydraClient.Proofs.ResolvedImports
import HydraClient.Proofs.RouteConstants
import HydraClient.Proofs.Runs
import HydraClient.Proofs.Scopes
import HydraClient.Proofs.ScriptNames
import HydraClient.Proofs.Seeding
import HydraClient.Proofs.Serving
import HydraClient.Proofs.Soundness
import HydraClient.Proofs.SourceIndex
import HydraClient.Proofs.Specifiers
import HydraClient.Proofs.Spellings
import HydraClient.Proofs.Tracking
import HydraClient.Proofs.UnknownShapes
import HydraClient.Proofs.Wording
import HydraClient.Proofs.Work
import HydraClient.Registry.Operations
import HydraClient.Registry.TypeEntry
import HydraClient.Registry.Types
import HydraClient.Render.Endpoints
import HydraClient.Render.Types
import HydraClient.Report
import HydraClient.Routes
import HydraClient.Script
import HydraClient.SourceFile
import HydraClient.Sync
import HydraClient.Text.Base64
import HydraClient.Text.Blank
import HydraClient.Text.Digit
import HydraClient.Text.LetterCase
import HydraClient.Text.Lines
import HydraClient.Text.Printable
import HydraClient.Text.Quoted
import HydraClient.Text.Ranges
import HydraClient.Text.Utf8
import HydraClient.Text.Word
import HydraClient.Text.Words
import HydraClient.Timestamp
import HydraClient.TypeExpr
import HydraClient.Yaml.Fault
import HydraClient.Yaml.Mark
import HydraClient.Yaml.Moment
import HydraClient.Yaml.Node
import HydraClient.Yaml.Node.Merge
import HydraClient.Yaml.Node.Reader
import HydraClient.Yaml.Scalar
import HydraClient.Yaml.Tag
import HydraClient.Yaml.Text
import HydraClient.Yaml.Token
import HydraClient.Yaml.Token.Lexer
import HydraClient.Yaml.Value
