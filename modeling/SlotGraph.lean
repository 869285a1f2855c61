import SlotGraph.Main
import SlotGraph.Proofs.Config.Entries
import SlotGraph.Proofs.Config.KeyedReferences
import SlotGraph.Proofs.Config.References
import SlotGraph.Proofs.Config.RoundTrip
import SlotGraph.Proofs.Config.Stepwise
import SlotGraph.Proofs.Config.TopLevel
import SlotGraph.Proofs.Config.Typed
import SlotGraph.Proofs.Graph.Allocation
import SlotGraph.Proofs.Graph.Connecting
import SlotGraph.Proofs.Graph.Counters
import SlotGraph.Proofs.Graph.History
import SlotGraph.Proofs.Graph.KeyedSlots
import SlotGraph.Proofs.Import.Additions
import SlotGraph.Proofs.Import.Answers
import SlotGraph.Proofs.Import.Collections
import SlotGraph.Proofs.Import.Displaced
import SlotGraph.Proofs.Import.KeptIndices
import SlotGraph.Proofs.Import.LinkGate
import SlotGraph.Proofs.Schema.Composition
import SlotGraph.Proofs.Schema.FieldNames
import SlotGraph.Proofs.Schema.Layout
import SlotGraph.Proofs.Schema.RootKeys
import SlotGraph.Proofs.Session.Alignment
import SlotGraph.Proofs.Session.Failure
import SlotGraph.Proofs.Session.Gate
import SlotGraph.Proofs.Session.Reload
import SlotGraph.Proofs.Session.Removals
import SlotGraph.Proofs.Session.Replacing
import SlotGraph.Proofs.Template.References
import SlotGraph.Proofs.Text.Bodies
import SlotGraph.Proofs.Text.Joining
import SlotGraph.Proofs.TypeExpr.Brackets
import SlotGraph.Proofs.TypeExpr.SlotReading
import SlotGraph.Proofs.TypeExpr.Spacing
