import TidyTree.Label.Cache
import TidyTree.Label.Digest
import TidyTree.Outline.Printer
import TidyTree.Outline.Reader
import TidyTree.Plane.Distance
import TidyTree.Proofs.Layout.Disjoint
import TidyTree.Proofs.View.Redraw
import TidyTree.Scalar.Exact
import TidyTree.Settings.Environment
import TidyTree.View.Events
import TidyTree.Proofs.Outline.Ownership
import TidyTree.Proofs.Relayout.Partition
import TidyTree.Proofs.Motion.Departure
import TidyTree.Proofs.View.Coherence
import TidyTree.Proofs.View.Shelter
import TidyTree.Proofs.View.Scenes
import TidyTree.Proofs.View.Batch
import TidyTree.Proofs.View.Stillness
import TidyTree.Proofs.Outline.Navigation
import TidyTree.Proofs.Outline.Requests
import TidyTree.Proofs.Scalar.Order
import TidyTree.Proofs.Screen.Viewport
import TidyTree.Proofs.View.Window
import TidyTree.Proofs.Layout.Reach
import TidyTree.Proofs.View.Click
import TidyTree.Proofs.Json.Text
import TidyTree.Proofs.Json.Value
import TidyTree.Proofs.Outline.Spelling
import TidyTree.Proofs.Outline.Reading
import TidyTree.Proofs.Outline.Reloading
import TidyTree.Proofs.Label.Recall
import TidyTree.Proofs.View.Lineage
import TidyTree.Proofs.View.Presses
import TidyTree.Proofs.Settings.Overrides
import TidyTree.Proofs.View.Listening
import TidyTree.Proofs.Relayout.Origins
import TidyTree.Proofs.View.Dragging
import TidyTree.Placement.Threads
import TidyTree.Proofs.Placement.Walks
import TidyTree.Proofs.Placement.Rigidity
import TidyTree.Proofs.Outline.Pruning
import TidyTree.Proofs.Label.Recency
import TidyTree.Proofs.Screen.Controls
import TidyTree.Proofs.Plane.Hull
import TidyTree.Proofs.View.Centring
import TidyTree.Layout.Survey
import TidyTree.Proofs.Layout.Surveying
import TidyTree.Proofs.Outline.Ancestors
import TidyTree.Proofs.Layout.Surveyed
import TidyTree.Proofs.Layout.Listing
import TidyTree.Proofs.Layout.Sights
import TidyTree.Proofs.Text.Words
import TidyTree.Proofs.Tooltip.Wrapping
import TidyTree.Proofs.Motion.Course
import TidyTree.Proofs.Motion.Ticks
import TidyTree.Proofs.View.Detachment
import TidyTree.Proofs.View.Timers
import TidyTree.Look.Packed
import TidyTree.Proofs.Look.RoundTrip
import TidyTree.Proofs.Placement.Sharing
import TidyTree.Outline.Walk
import TidyTree.Picture.Painting
import TidyTree.Proofs.Placement.Coordinates
import TidyTree.Proofs.Settings.Readings
