import Hetnet.Files.Tree
import Hetnet.Main
import Hetnet.Network.Listed
import Hetnet.Proofs.Lengths
import Hetnet.Proofs.RequestModes
import Hetnet.Proofs.SchemaPaths
import Hetnet.Proofs.TargetCounts
import Hetnet.Proofs.Thinning
import Hetnet.Proofs.RefusedCalls
import Hetnet.Proofs.Scans
import Hetnet.Proofs.TwoAnswers
import Hetnet.Proofs.Refusals
import Hetnet.Proofs.ReadBack
import Hetnet.Proofs.Dumps
import Hetnet.Proofs.GraphTexts
import Hetnet.Proofs.RenamedGraphs
import Hetnet.Proofs.LinkedPaths
import Hetnet.Proofs.Orientation
import Hetnet.Proofs.OneHop
import Hetnet.Proofs.Expansions
import Hetnet.Proofs.TaskFailures
import Hetnet.Proofs.Gatherings
import Hetnet.Proofs.SchemaRuns
import Hetnet.Proofs.Neighborhoods
import Hetnet.Proofs.Saturation
import Hetnet.Proofs.Seeds
import Hetnet.Proofs.SchemaRecords
import Hetnet.Proofs.KeyOrigins
import Hetnet.Proofs.Rendering
import Hetnet.Proofs.CountedRows
import Hetnet.Proofs.Tilings
import Hetnet.Proofs.NumberingRuns
import Hetnet.Proofs.DumpTexts
