import Pegwork.Cursor.Slice
import Pegwork.FileTree
import Pegwork.Main
import Pegwork.Session
import Pegwork.Proofs.Contract
import Pegwork.Proofs.Hitting.RoundTrip
import Pegwork.Proofs.Repetition
import Pegwork.Proofs.Cursor.Steps
import Pegwork.Proofs.Cursor.Laws
import Pegwork.Proofs.Pairing
import Pegwork.Proofs.Twin.Terminal
import Pegwork.Proofs.Twin.Composite
import Pegwork.Proofs.Twin.Rule
import Pegwork.Proofs.Range
import Pegwork.Proofs.Termination
import Pegwork.Proofs.Agreement
import Pegwork.Proofs.Expansion
import Pegwork.Proofs.Decorators
import Pegwork.Proofs.CellLife
import Pegwork.Proofs.Hitting.FirstFault
import Pegwork.Proofs.Variables
import Pegwork.Proofs.Hitting.Sizes
import Pegwork.Proofs.Hitting.SyntaxErrors
import Pegwork.Proofs.Hitting.Alternatives
import Pegwork.Proofs.Hitting.Interleaving
import Pegwork.Proofs.Hitting.Graph
import Pegwork.Proofs.Hitting.Hits
import Pegwork.Proofs.Search
import Pegwork.Proofs.Stepwise
import Pegwork.Proofs.Announced
