import Montage.Build
import Montage.Build.Change
import Montage.Build.Debounce
import Montage.Build.Watch
import Montage.Canvas
import Montage.Command
import Montage.Command.Arguments
import Montage.Command.Help
import Montage.Decimal.Digits
import Montage.Decimal.Layout
import Montage.Decimal.Reading
import Montage.Decimal.Shortest
import Montage.Diagnostic
import Montage.Document.Diagnostic
import Montage.Document.Element
import Montage.Document.Options
import Montage.Document.Project
import Montage.Document.Settings
import Montage.Document.Time
import Montage.Element
import Montage.Error
import Montage.Host
import Montage.Host.Memory
import Montage.Json.Decoder
import Montage.Json.Reader
import Montage.Json.Value
import Montage.Json.Writer
import Montage.Layer
import Montage.Main
import Montage.Media.Cache
import Montage.Media.Lookups
import Montage.Media.Probe
import Montage.Options.Audio
import Montage.Options.Category
import Montage.Options.Merge
import Montage.Options.Position
import Montage.Options.Text
import Montage.Options.Video
import Montage.Path
import Montage.Project
import Montage.Proofs.Assignments
import Montage.Proofs.Blocks
import Montage.Proofs.Build
import Montage.Proofs.Capture
import Montage.Proofs.Chain
import Montage.Proofs.Code
import Montage.Proofs.Flow
import Montage.Proofs.Bindings
import Montage.Proofs.Interpreter
import Montage.Proofs.Running
import Montage.Proofs.Composition
import Montage.Proofs.Debouncing
import Montage.Proofs.Decoding
import Montage.Proofs.Documents
import Montage.Proofs.Doubles
import Montage.Proofs.Envelope
import Montage.Proofs.Equations
import Montage.Proofs.Execution
import Montage.Proofs.Groups
import Montage.Proofs.Independence
import Montage.Proofs.JsonText
import Montage.Proofs.Layers
import Montage.Proofs.Layout
import Montage.Proofs.Lines
import Montage.Proofs.Lookups
import Montage.Proofs.Merging
import Montage.Proofs.Names
import Montage.Proofs.Numerals
import Montage.Proofs.Ranges
import Montage.Proofs.Resolution
import Montage.Proofs.Rounding
import Montage.Proofs.Runs
import Montage.Proofs.Schedule
import Montage.Proofs.Scope
import Montage.Proofs.Starts
import Montage.Proofs.Timing
import Montage.Proofs.Tokens
import Montage.Proofs.Traversal
import Montage.Proofs.Usable
import Montage.Proofs.Wording
import Montage.Proofs.Written
import Montage.Resolution
import Montage.Rule
import Montage.Rule.Naming
import Montage.Rule.Ranges
import Montage.Rule.References
import Montage.Rule.Timeline
import Montage.Schedule
import Montage.Script.Clip
import Montage.Script.Effect
import Montage.Script.Literal
import Montage.Script.Name
import Montage.Script.Program
import Montage.Script.Statement
import Montage.Script.Writer
import Montage.Settings
import Montage.Settings.File
import Montage.Text.Blank
import Montage.Text.Printable
import Montage.Text.Quoted
import Montage.Time.Offset
import Montage.Time.Scale
import Montage.Time.Timestamp
import Montage.Timeline
import Montage.TimelineRecord
import Montage.Toml.Reader
import Montage.Toml.Scalar
import Montage.Toml.Tree
import Montage.Toml.Writer
import Montage.Proofs.Literals
import Montage.Proofs.Alignment
import Montage.Proofs.Fitting
import Montage.Proofs.Sources
import Montage.Proofs.Times
import Montage.Proofs.Animation
import Montage.Proofs.Platforms
