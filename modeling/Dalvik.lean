import Dalvik.Draft.Read
import Dalvik.Registry
import Dalvik.Proofs.Code.Address
import Dalvik.Proofs.Listing.Edits
import Dalvik.Proofs.Listing.Labels
import Dalvik.Proofs.Code.Reach
import Dalvik.Proofs.Listing.Coherence
import Dalvik.Proofs.Relaxation.Binding
import Dalvik.Proofs.Relaxation.Repair
import Dalvik.Proofs.Relaxation.Settling
import Dalvik.Proofs.Instruction.Shape
import Dalvik.Proofs.Draft.Soundness
import Dalvik.Proofs.Draft.Steps
import Dalvik.Proofs.Draft.Assembling
import Dalvik.Proofs.Draft.Import
import Dalvik.Proofs.Outline.Coverage
import Dalvik.Proofs.Outline.Reading
import Dalvik.Proofs.Draft.Reachability
import Dalvik.Proofs.Draft.Relaxed
import Dalvik.Proofs.Method.WellFormed
import Dalvik.Proofs.Outline.Spelling
import Dalvik.Proofs.Outline.Handlers
import Dalvik.Proofs.Method.Lookup
import Dalvik.Proofs.Draft.RoundTrip
import Dalvik.Proofs.Draft.Export
import Dalvik.Proofs.Code.Fields
import Dalvik.Proofs.Code.Codec
import Dalvik.Proofs.Draft.NormalForm
import Dalvik.Proofs.Relaxation.Rounds
import Dalvik.Proofs.Code.RoundTrip
import Dalvik.Proofs.Code.Reencoding
import Dalvik.Store.Arena
import Dalvik.Store.Basic
import Dalvik.Store.Edit
import Dalvik.Store.Relaxation
import Dalvik.Store.Read
import Dalvik.Store.OfOutline
import Dalvik.Store.Assembler
import Dalvik.Proofs.Store.Layout
import Dalvik.Proofs.Store.Cells
import Dalvik.Proofs.Store.Tracking
import Dalvik.Proofs.Store.Attaching
import Dalvik.Proofs.Store.Simulation
import Dalvik.Proofs.Store.Relaxing
import Dalvik.Proofs.Store.Reading
import Dalvik.Proofs.Store.Import
import Dalvik.Proofs.Store.Assembling
import Dalvik.Proofs.Store.Consistency
import Dalvik.Proofs.Store.Reachability
import Dalvik.Proofs.Store.Page
import Dalvik.Proofs.Store.Editing
import Dalvik.Proofs.Draft.Faults
import Dalvik.Proofs.Relaxation.Order
import Dalvik.Proofs.Store.Faults
import Dalvik.Proofs.Store.Idempotence
import Dalvik.Proofs.Store.Exporting
import Dalvik.Proofs.Store.Failing
import Dalvik.Proofs.Relaxation.Widening
import Dalvik.Proofs.Store.Widening
import Dalvik.Proofs.Relaxation.Likeness
import Dalvik.Proofs.Draft.Likeness
import Dalvik.Proofs.Store.SameView
import Dalvik.Proofs.Strict.Cells
import Dalvik.Proofs.Strict.Editing
import Dalvik.Proofs.Strict.Relaxing
import Dalvik.Proofs.Instruction.Conversion
import Dalvik.Proofs.Strict.Reading
import Dalvik.Proofs.Strict.Assembling
import Dalvik.Proofs.Outline.Overflow
import Dalvik.Proofs.Store.Labels
import Dalvik.Proofs.Store.Session
import Dalvik.Proofs.Code.Overflow
import Dalvik.Proofs.Outline.Refusal
import Dalvik.Proofs.Store.Refusal
import Dalvik.Proofs.Outline.Covering
import Dalvik.Proofs.Method.Switches
import Dalvik.Proofs.Method.Meaning
import Dalvik.Proofs.Store.Importing
import Dalvik.Proofs.Method.Ownership
import Dalvik.Proofs.Store.Ownership
import Dalvik.Proofs.Store.Remains
import Dalvik.Proofs.Store.Stages
import Dalvik.Proofs.Store.Shrinking
import Dalvik.Proofs.Layout
import Dalvik.Proofs.Code.Prefix
import Dalvik.Proofs.Code.Concatenation
import Dalvik.Proofs.Code.Failure
import Dalvik.Proofs.Store.Locating
import Dalvik.Layout.Cursor
import Dalvik.Proofs.Strict.Layout
import Dalvik.Proofs.Outline.Grouping
import Dalvik.Proofs.Store.Grouping
import Dalvik.Proofs.Method.Ranges
import Dalvik.Proofs.Store.Ranging
import Dalvik.Proofs.Draft.Calls
import Dalvik.Proofs.Draft.Logging
import Dalvik.Proofs.Store.Logging
import Dalvik.Proofs.Instruction.Targets
import Dalvik.Proofs.Attached
import Dalvik.Proofs.Store.Representation
import Dalvik.Proofs.Relaxation.Visible
import Dalvik.Proofs.Store.Dirty
import Dalvik.Proofs.Store.Sweeping
