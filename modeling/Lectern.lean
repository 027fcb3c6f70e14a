import Lectern.Main
import Lectern.Session
import Lectern.Proofs.Segmentation
import Lectern.Proofs.Building
import Lectern.Proofs.RoundTrip
import Lectern.Proofs.FailedRun
import Lectern.Proofs.ControlWords
import Lectern.Proofs.Environments
import Lectern.Proofs.RecordGrammar
import Lectern.Proofs.Canonical
import Lectern.Proofs.RawBlocks
import Lectern.Proofs.LongNumbers
import Lectern.Proofs.Refusals
import Lectern.Proofs.LeafTexts
import Lectern.Proofs.Concatenation
import Lectern.Proofs.Capitals
import Lectern.Proofs.Groups
import Lectern.Proofs.Marks
import Lectern.Proofs.Frames
import Lectern.Proofs.SameDeck
import Lectern.Proofs.Encoding
import Lectern.Proofs.Routes
import Lectern.Proofs.Changes
import Lectern.Proofs.InPlace
import Lectern.Proofs.SharedTokens
import Lectern.Proofs.FirstFault
import Lectern.Proofs.VerbatimCode
import Lectern.Proofs.Completion
import Lectern.Proofs.LineEnds
import Lectern.Proofs.Language
import Lectern.Proofs.Traversal
import Lectern.Proofs.Drafts
