import Concordance.Proofs.Block.RoundTrip
import Concordance.Proofs.Session.Scans
import Concordance.Query.Json
import Concordance.Proofs.Block.Scanning
import Concordance.Proofs.Window.Chain
import Concordance.Proofs.Compile.Proximity
import Concordance.Proofs.Compile.Legible
import Concordance.Proofs.Compile.Sharing
import Concordance.Proofs.Block.Parsing
import Concordance.Proofs.Index.Protocol
import Concordance.Proofs.Compile.Presence
import Concordance.Proofs.Session.Consistency
import Concordance.Proofs.Compile.Onward
import Concordance.Proofs.Compile.Siblings
import Concordance.Proofs.Session.History
import Concordance.Proofs.Index.Aggregate
import Concordance.Proofs.Session.Desk
import Concordance.Proofs.Compile.Backward
import Concordance.Proofs.Compile.Widening
import Concordance.Proofs.Window.Choice
import Concordance.Proofs.Window.Restart
import Concordance.Proofs.Window.Rearranged
import Concordance.Proofs.Compile.Rearranged
import Concordance.Proofs.Session.Rearranged
import Concordance.Proofs.Block.Trail
import Concordance.Proofs.Block.Decoding
import Concordance.Proofs.Block.Counting
import Concordance.Proofs.Index.Floor
import Concordance.Proofs.Index.Regions
import Concordance.Proofs.Session.Usable
import Concordance.Proofs.Checksum
import Concordance.Proofs.Index.Damage
import Concordance.Proofs.Block.Boundary
import Concordance.Proofs.Index.Boundary
import Concordance.Proofs.Block.StoredCount
import Concordance.Proofs.Block.Ending
import Concordance.Proofs.Compile.Arena
import Concordance.Proofs.Statistics.CountTable
import Concordance.Proofs.Block.Interruption
import Concordance.Proofs.Cursor.Leapfrog
import Concordance.Proofs.Varint.Format
import Concordance.Proofs.GapList.Resuming
import Concordance.Proofs.Block.SkipTable
