import ScanAlign.Json
import ScanAlign.Main
import ScanAlign.Map
import ScanAlign.Matcher
import ScanAlign.Number.Decimal
import ScanAlign.Number.Functions
import ScanAlign.Number.Single
import ScanAlign.Plane
import ScanAlign.Proofs.Candidate.BestFirst
import ScanAlign.Proofs.Candidate.ScoreOrder
import ScanAlign.Proofs.Json.NumberTexts
import ScanAlign.Proofs.Json.Reading
import ScanAlign.Proofs.Map.Centers
import ScanAlign.Proofs.Map.Filling
import ScanAlign.Proofs.Map.Indexing
import ScanAlign.Proofs.Map.Numbering
import ScanAlign.Proofs.Match.Displacement
import ScanAlign.Proofs.Match.Failures
import ScanAlign.Proofs.Match.Headings
import ScanAlign.Proofs.Match.Optimum
import ScanAlign.Proofs.Match.Outcome
import ScanAlign.Proofs.Match.RawScore
import ScanAlign.Proofs.Match.ReachedCells
import ScanAlign.Proofs.Match.Schedules
import ScanAlign.Proofs.Match.ScoreRange
import ScanAlign.Proofs.Match.Scoring
import ScanAlign.Proofs.Match.Start
import ScanAlign.Proofs.Match.Widening
import ScanAlign.Proofs.Number.Arithmetic
import ScanAlign.Proofs.Number.Dyadic
import ScanAlign.Proofs.Number.Errors
import ScanAlign.Proofs.Number.Nearest
import ScanAlign.Proofs.Number.ShortestDigits
import ScanAlign.Proofs.Number.Sums
import ScanAlign.Proofs.Number.Wrapping
import ScanAlign.Proofs.Run.MapBuilding
import ScanAlign.Proofs.Run.MapTables
import ScanAlign.Proofs.Run.MarkedCells
import ScanAlign.Proofs.Run.NearestPoints
import ScanAlign.Proofs.Run.Program
import ScanAlign.Proofs.Search.Clipping
import ScanAlign.Proofs.Search.Covering
import ScanAlign.Proofs.Search.Hypotheses
import ScanAlign.Proofs.Search.Listing
import ScanAlign.Proofs.Search.Projection
import ScanAlign.Proofs.Search.Windows
import ScanAlign.Run.CommandLine
import ScanAlign.Run.Plan
import ScanAlign.Search
