import Oberon.Main
import Oberon.Proofs.Hiding
import Oberon.Proofs.Skipping
import Oberon.Proofs.Bounds
import Oberon.Proofs.Balance
import Oberon.Proofs.Returning
import Oberon.Proofs.Resolved
import Oberon.Proofs.Locations
import Oberon.Proofs.Evaluating
import Oberon.Proofs.Sessions
import Oberon.Proofs.Preserving
import Oberon.Proofs.Buffering
import Oberon.Proofs.Mangling
import Oberon.Proofs.Folding
import Oberon.Proofs.Stopping
import Oberon.Proofs.Arms
import Oberon.Proofs.Fields
import Oberon.Proofs.Compatible
import Oberon.Proofs.Headings
import Oberon.Proofs.Aliases
import Oberon.Proofs.Indexing
import Oberon.Proofs.Sets
import Oberon.Proofs.Numerals
import Oberon.Proofs.Shadowing
import Oberon.Proofs.Sizes
import Oberon.Proofs.Comments
import Oberon.Proofs.WriteBacks
