import ServiceUnits.FileSystem.NodeTable
import ServiceUnits.Main
import ServiceUnits.Session.InTree
import ServiceUnits.Proofs.Config.Overlay
import ServiceUnits.Proofs.Resolver.Dependencies
import ServiceUnits.Proofs.Resolver.Aliases
import ServiceUnits.Proofs.Config.LineEnds
import ServiceUnits.Proofs.Config.Writing
import ServiceUnits.Proofs.Dropin.Overlays
import ServiceUnits.Proofs.Resolver.ListingOrder
import ServiceUnits.Proofs.Resolver.Inquiry
import ServiceUnits.Proofs.Resolver.Listings
import ServiceUnits.Proofs.Resolver.Failures
import ServiceUnits.Proofs.Resolver.Outcome
import ServiceUnits.Proofs.Session.Batch
import ServiceUnits.Proofs.Delta.Reverse
import ServiceUnits.Proofs.Dropin.Layers
import ServiceUnits.Proofs.FileSystem.Chain
import ServiceUnits.Proofs.Dropin.Appending
import ServiceUnits.Proofs.FileSystem.Follow
import ServiceUnits.Proofs.AliasSet.Templates
import ServiceUnits.Proofs.Path.NormalForm
import ServiceUnits.Proofs.Config.Continuation
import ServiceUnits.Proofs.Config.Concatenation
import ServiceUnits.Proofs.Name.Grammar
import ServiceUnits.Proofs.Name.Instances
import ServiceUnits.Proofs.Config.WellKept
import ServiceUnits.Proofs.Config.Assignment
import ServiceUnits.Proofs.Resolver.ComposedNames
import ServiceUnits.Proofs.Resolver.Nameless
import ServiceUnits.Proofs.FileSystem.Contract
import ServiceUnits.Proofs.Report.Digraph
import ServiceUnits.Proofs.Lookup.Directories
