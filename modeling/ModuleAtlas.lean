import ModuleAtlas.Main
import ModuleAtlas.Decimal.Fixed
import ModuleAtlas.Proofs.Graph.Marking
import ModuleAtlas.Proofs.Layout.Rows
import ModuleAtlas.Proofs.Layout.Acyclic
import ModuleAtlas.Proofs.Graph.Order
import ModuleAtlas.Proofs.Graph.Assembly
import ModuleAtlas.Proofs.Graph.Stages
import ModuleAtlas.Proofs.Analysis.Edges
import ModuleAtlas.Proofs.Analysis.Isolation
import ModuleAtlas.Proofs.FileSystem.Candidates
import ModuleAtlas.Proofs.Layout.OuterZones
import ModuleAtlas.Proofs.Analysis.Coverage
import ModuleAtlas.Proofs.Layout.RowSpacing
import ModuleAtlas.Proofs.Layout.CoreSpacing
import ModuleAtlas.Proofs.Metrics.Names
import ModuleAtlas.Proofs.Graph.Notes
import ModuleAtlas.Proofs.Graph.Spelling
import ModuleAtlas.Proofs.Graph.Presentation
import ModuleAtlas.Proofs.CommandLine.Endings
import ModuleAtlas.Proofs.Layout.Turns
import ModuleAtlas.Proofs.Analysis.Arrival
import ModuleAtlas.Proofs.Analysis.EdgeNames
import ModuleAtlas.Proofs.Layout.LeastPlacement
import ModuleAtlas.Proofs.Layout.Extent
import ModuleAtlas.Proofs.Graph.EdgeAnswers
import ModuleAtlas.Proofs.Graph.FileRoles
import ModuleAtlas.Proofs.Graph.Markers
import ModuleAtlas.Proofs.Graph.RoleOrder
import ModuleAtlas.Proofs.Source.Specifiers
import ModuleAtlas.Proofs.Source.Addresses
import ModuleAtlas.Proofs.Metrics.Agreement
import ModuleAtlas.Proofs.CommandLine.Focus
import ModuleAtlas.Proofs.Layout.Confinement
import ModuleAtlas.Proofs.Graph.Visits
import ModuleAtlas.Proofs.Layout.Accounts
import ModuleAtlas.Proofs.Layout.Chance
import ModuleAtlas.Proofs.CommandLine.Layers
import ModuleAtlas.Proofs.Layout.Momentum
import ModuleAtlas.Proofs.Metrics.LineCount
