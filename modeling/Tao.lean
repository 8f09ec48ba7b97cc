import Tao.Main
import Tao.Proofs.Accepted
import Tao.Proofs.Anchored
import Tao.Proofs.Arithmetic
import Tao.Proofs.Callbacks.Methods
import Tao.Proofs.Choices.Switch
import Tao.Proofs.Control.Stacks
import Tao.Proofs.Heap.Chains
import Tao.Proofs.Lexical
import Tao.Proofs.Nesting.Limit
import Tao.Proofs.Nesting.Raised
import Tao.Proofs.Parser.Climbing.Chain
import Tao.Proofs.Parser.Concat
import Tao.Proofs.Parser.Count.Calls
import Tao.Proofs.Parser.Ends
import Tao.Proofs.Parser.Lookahead
import Tao.Proofs.Places
import Tao.Proofs.Scanner.HandedBack
import Tao.Proofs.Scanner.Munch
import Tao.Proofs.Scanner.Separated
import Tao.Proofs.Signals.Discipline
import Tao.Proofs.Stepping
import Tao.Proofs.Unobservable
import Tao.Proofs.Writes
