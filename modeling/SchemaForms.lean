import SchemaForms.CommandLine.Run
import SchemaForms.Main
import SchemaForms.Proofs.Expansion.Addresses
import SchemaForms.Proofs.Expansion.Completes
import SchemaForms.Proofs.Expansion.Expanded
import SchemaForms.Proofs.Expansion.Frames
import SchemaForms.Proofs.Expansion.Nesting
import SchemaForms.Proofs.Expansion.ReferenceFree
import SchemaForms.Proofs.Expansion.References
import SchemaForms.Proofs.Expansion.SelfContained
import SchemaForms.Proofs.Expansion.Siblings
import SchemaForms.Proofs.Expansion.Stricter
import SchemaForms.Proofs.Expansion.Walk
import SchemaForms.Proofs.Json.Data
import SchemaForms.Proofs.Json.Objects
import SchemaForms.Proofs.Path.Names
import SchemaForms.Proofs.Path.Normal
import SchemaForms.Proofs.Path.Sandbox
import SchemaForms.Proofs.Pointer.Written
import SchemaForms.Proofs.Schema.Accepted
import SchemaForms.Proofs.Schema.Assembled
import SchemaForms.Proofs.Schema.Grammar
import SchemaForms.Proofs.Schema.NodeErrors
import SchemaForms.Proofs.Schema.Positions
import SchemaForms.Proofs.Schema.Readers
import SchemaForms.Proofs.Schema.Resolved
import SchemaForms.Proofs.Schema.Sorted
import SchemaForms.Proofs.Session.Anchors
import SchemaForms.Proofs.Session.Cache
import SchemaForms.Proofs.Session.CycleCheck
import SchemaForms.Proofs.Session.Declared
import SchemaForms.Proofs.Session.Effect
import SchemaForms.Proofs.Session.Fetched
import SchemaForms.Proofs.Session.Limits
import SchemaForms.Proofs.Session.Load
import SchemaForms.Proofs.Session.Locate
import SchemaForms.Proofs.Session.Log
import SchemaForms.Proofs.Session.RefObjects
import SchemaForms.Proofs.Session.Refused
import SchemaForms.Proofs.Session.Root
import SchemaForms.Proofs.Session.Sandboxed
import SchemaForms.Proofs.Session.Stack
import SchemaForms.Proofs.Session.Stricter
import SchemaForms.Proofs.Session.Targets
import SchemaForms.Proofs.Session.Trails
import SchemaForms.Proofs.Schema.WellFormed
import SchemaForms.Proofs.Schema.Plain
import SchemaForms.Proofs.Overlay.Extensions
import SchemaForms.Proofs.Expansion.Replay
import SchemaForms.Proofs.Session.Transparency
import SchemaForms.Proofs.Session.FixedPoint
import SchemaForms.Proofs.Expansion.Inert
import SchemaForms.Proofs.Session.Followed
import SchemaForms.Proofs.Session.Images
import SchemaForms.Proofs.Session.Inert
import SchemaForms.Proofs.Session.Lifted
import SchemaForms.Proofs.Json.Reordered
import SchemaForms.Proofs.Expansion.Reordered
import SchemaForms.Proofs.Session.Ahead
import SchemaForms.Proofs.Session.Counterparts
import SchemaForms.Proofs.Session.Reordered
import SchemaForms.Proofs.Schema.Reordered
import SchemaForms.Proofs.Form.Catalog
import SchemaForms.Proofs.Form.Selection
import SchemaForms.Proofs.Path.Containment
import SchemaForms.Proofs.Expansion.Overlaid
import SchemaForms.Proofs.Form.Identifiers
import SchemaForms.Proofs.Path.Spellings
import SchemaForms.Proofs.Session.Chains
import SchemaForms.Proofs.Session.OneDocument
import SchemaForms.Proofs.Json.Members
import SchemaForms.Proofs.Schema.Discriminator
import SchemaForms.Proofs.Schema.Revised
import SchemaForms.Proofs.Schema.Nullable
import SchemaForms.Proofs.Decimal.Nearest
import SchemaForms.Proofs.Schema.Bounds
import SchemaForms.Proofs.Overlay.Patched
import SchemaForms.Proofs.Overlay.Effect
import SchemaForms.Proofs.Session.Restored
import SchemaForms.Proofs.Json.Distinct
import SchemaForms.Proofs.Pointer.Addressed
import SchemaForms.Proofs.Schema.Offending
import SchemaForms.Proofs.Expansion.Paths
import SchemaForms.Proofs.Session.Places
import SchemaForms.Proofs.Form.Detected
import SchemaForms.Proofs.Json.Steps
import SchemaForms.Proofs.Text.Percent
import SchemaForms.Proofs.Pointer.Tokens
import SchemaForms.Proofs.Pointer.Positions
import SchemaForms.Proofs.Overlay.Targets
import SchemaForms.Proofs.Overlay.Stored
import SchemaForms.Proofs.Overlay.Outside
import SchemaForms.Proofs.Overlay.Levels
import SchemaForms.Proofs.Form.Use
import SchemaForms.Proofs.Session.Ambiguity
import SchemaForms.Proofs.Session.Bearers
import SchemaForms.Proofs.Loader.Directory
