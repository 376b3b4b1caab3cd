import Overpass.CommandLine.Response
import Overpass.GeoJson.Reader
import Overpass.Json.Printer
import Overpass.Main
import Overpass.Program.Kind
import Overpass.Program.Merge
import Overpass.Query.Draft
import Overpass.Query.Dump
import Overpass.Query.Script
import Overpass.Region.Reading
import Overpass.Request
import Overpass.Proofs.Except
import Overpass.Proofs.Program.Names
import Overpass.Proofs.Program.Merge
import Overpass.Proofs.Program.WellFormed
import Overpass.Proofs.Program.Compatible
import Overpass.Proofs.Program.Join
import Overpass.Proofs.Program.Kind
import Overpass.Proofs.Query.Expression
import Overpass.Proofs.Query.Formed
import Overpass.Proofs.Query.Merging
import Overpass.Proofs.Query.Representation
import Overpass.Proofs.Query.Statement
import Overpass.Proofs.Query.Lines
import Overpass.Proofs.Query.Interpretation
import Overpass.Proofs.Query.Meaning
import Overpass.Proofs.Query.Order
import Overpass.Proofs.SetName.Generated
import Overpass.Proofs.Query.Call
import Overpass.Proofs.Query.Minimal
import Overpass.Proofs.Query.Outcome
import Overpass.Proofs.Query.Coherent
import Overpass.Proofs.Query.Conflict
import Overpass.Proofs.Query.Symmetry
import Overpass.Proofs.Query.AreaKind
import Overpass.Proofs.Query.Kind
import Overpass.Proofs.Query.KindSoundness
import Overpass.Proofs.Text.Words
import Overpass.Proofs.Region.Resolved
import Overpass.Proofs.Request.Assembly
import Overpass.Proofs.Numeric.Text
import Overpass.Proofs.Region.Text
import Overpass.Proofs.Region.Reading
import Overpass.Proofs.Region.Shown
import Overpass.Proofs.Tag.Reading
import Overpass.Proofs.Query.Reading
import Overpass.Proofs.Numeric.Decimal
import Overpass.Proofs.Numeric.Reading
import Overpass.Proofs.Json.Pretty
import Overpass.Proofs.Query.Dump
import Overpass.Proofs.Query.Parts
import Overpass.Proofs.Region.Box
import Overpass.Proofs.Region.Shape
import Overpass.Proofs.Query.Derived
import Overpass.Proofs.Region.Extent
import Overpass.Proofs.Region.Naming
import Overpass.Proofs.Text.Pattern
import Overpass.Proofs.Tag.Token
import Overpass.Proofs.Tag.Spelling
import Overpass.Proofs.Tag.Pair
import Overpass.Proofs.Query.AreaOrder
import Overpass.Proofs.SetName.Spaces
import Overpass.Proofs.GeoJson.Candidates
import Overpass.Proofs.Query.LineEnds
import Overpass.Proofs.Query.Accounting
import Overpass.Proofs.Program.KindSearch
import Overpass.Proofs.Query.Acyclic
import Overpass.Proofs.Region.Key
