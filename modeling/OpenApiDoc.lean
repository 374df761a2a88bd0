import OpenApiDoc.Main
import OpenApiDoc.Proofs.Data
import OpenApiDoc.Proofs.Copying
import OpenApiDoc.Proofs.Copies
import OpenApiDoc.Proofs.Detached
import OpenApiDoc.Proofs.Plain
import OpenApiDoc.Proofs.Fields
import OpenApiDoc.Proofs.Nodes
import OpenApiDoc.Proofs.Kinds
import OpenApiDoc.Proofs.Terms
import OpenApiDoc.Proofs.Objects
import OpenApiDoc.Proofs.Denotation
import OpenApiDoc.Proofs.Frames
import OpenApiDoc.Proofs.Operations
import OpenApiDoc.Proofs.Gathering
import OpenApiDoc.Proofs.Outcomes
import OpenApiDoc.Proofs.Ways
import OpenApiDoc.Proofs.Enclosures
import OpenApiDoc.Proofs.Outside
import OpenApiDoc.Proofs.Inputs
import OpenApiDoc.Proofs.Composition
import OpenApiDoc.Proofs.Separation
import OpenApiDoc.Proofs.Assembly
import OpenApiDoc.Proofs.Calls
import OpenApiDoc.Proofs.Schematic
import OpenApiDoc.Proofs.Documents
import OpenApiDoc.Proofs.Writing
import OpenApiDoc.Proofs.Sessions
import OpenApiDoc.Proofs.Lasting
import OpenApiDoc.Proofs.Isolation
import OpenApiDoc.Proofs.Fresh
import OpenApiDoc.Proofs.Views
import OpenApiDoc.Proofs.Renditions
import OpenApiDoc.Proofs.Detachment
import OpenApiDoc.Proofs.Places
import OpenApiDoc.Proofs.Carriage
import OpenApiDoc.Proofs.Embedding
import OpenApiDoc.Proofs.Embedded
import OpenApiDoc.Proofs.Yaml.Folding
import OpenApiDoc.Proofs.Yaml.Escapes
import OpenApiDoc.Proofs.Yaml.Scalars
import OpenApiDoc.Proofs.Yaml.Layout
import OpenApiDoc.Proofs.Yaml.Aliases
import OpenApiDoc.Proofs.Yaml.Unmarked
import OpenApiDoc.Proofs.Emission
import OpenApiDoc.Proofs.Rendering
import OpenApiDoc.Proofs.Purposes
import OpenApiDoc.Proofs.Assembled
import OpenApiDoc.Proofs.Commands
import OpenApiDoc.Proofs.Output
import OpenApiDoc.Proofs.Loading
import OpenApiDoc.Proofs.Json
import OpenApiDoc.Proofs.Responses
import OpenApiDoc.Proofs.Modifiers
import OpenApiDoc.Proofs.Yaml.Reading
import OpenApiDoc.Proofs.Yaml.Quoting
import OpenApiDoc.Proofs.Yaml.Sites
import OpenApiDoc.Proofs.Texts
import OpenApiDoc.Proofs.Controls
import OpenApiDoc.Proofs.Agreement
import OpenApiDoc.Proofs.Properties
import OpenApiDoc.Proofs.Parameters
import OpenApiDoc.Proofs.Flags
import OpenApiDoc.Proofs.Requirements
import OpenApiDoc.Proofs.Optionality
import OpenApiDoc.Proofs.Choices
import OpenApiDoc.Proofs.Alike
import OpenApiDoc.Proofs.Records
import OpenApiDoc.Proofs.Readings
import OpenApiDoc.Proofs.Settled
import OpenApiDoc.Proofs.Stored
import OpenApiDoc.Proofs.Rebuilding
import OpenApiDoc.Proofs.Overlays
import OpenApiDoc.Proofs.Passing
import OpenApiDoc.Proofs.Supplied
import OpenApiDoc.Proofs.Overlaid
import OpenApiDoc.Proofs.Checks
import OpenApiDoc.Proofs.OperationObjects
import OpenApiDoc.Proofs.Presence
