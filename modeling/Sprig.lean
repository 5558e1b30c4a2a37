import Sprig.Main
import Sprig.Proofs.CallLimit
import Sprig.Proofs.CanonicalText
import Sprig.Proofs.ErrorValues
import Sprig.Proofs.Pieces
import Sprig.Proofs.Respacing
import Sprig.Proofs.ScopeGraph
import Sprig.Proofs.Spacing
import Sprig.Proofs.UnreadNames
import Sprig.Proofs.CallDepth
import Sprig.Proofs.Conversation
import Sprig.Proofs.Arithmetic
import Sprig.Proofs.ReaderMachine
import Sprig.Proofs.ReaderProgress
import Sprig.Proofs.ByteOrder
import Sprig.Proofs.SharedScopes
import Sprig.Proofs.ErrorOrder
import Sprig.Proofs.ParsedTrees
import Sprig.Proofs.Pointing
import Sprig.Proofs.OpenBlocks
import Sprig.Proofs.DumpReading
import Sprig.Proofs.FunctionIdentity
