import ProjectSetup.Main
import ProjectSetup.Proofs.Catalog.Complaints
import ProjectSetup.Proofs.Catalog.InPlace
import ProjectSetup.Proofs.Catalog.Linking
import ProjectSetup.Proofs.Catalog.Lookup
import ProjectSetup.Proofs.Catalog.Multiplicity
import ProjectSetup.Proofs.Catalog.Naming
import ProjectSetup.Proofs.Catalog.Selectability
import ProjectSetup.Proofs.Import.Canonical
import ProjectSetup.Proofs.Import.Completeness
import ProjectSetup.Proofs.Import.Listing
import ProjectSetup.Proofs.Import.RoundTrip
import ProjectSetup.Proofs.Import.Wrapping
import ProjectSetup.Proofs.Layout.Brackets
import ProjectSetup.Proofs.Layout.FaultLines
import ProjectSetup.Proofs.Layout.Hazards
import ProjectSetup.Proofs.Layout.LookAhead
import ProjectSetup.Proofs.Layout.Loss
import ProjectSetup.Proofs.Layout.Stability
import ProjectSetup.Proofs.Layout.Tokens
import ProjectSetup.Proofs.Layout.TypeLiteral
import ProjectSetup.Proofs.Layout.Verbatim
import ProjectSetup.Proofs.Project.TreeFormatting
import ProjectSetup.Proofs.Recipe.Prettier
import ProjectSetup.Proofs.Recipe.Stylesheets
