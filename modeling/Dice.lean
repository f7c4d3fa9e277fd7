import Dice.Main
import Dice.Roller
import Dice.Proofs.Expr.Exact
import Dice.Proofs.Expr.Expansion
import Dice.Proofs.Expr.Places
import Dice.Proofs.Expr.RoundTrip
import Dice.Proofs.Pool.Ten
import Dice.Proofs.Replay
import Dice.Proofs.Tally
import Dice.Proofs.Widening
import Dice.Proofs.Pool.Six
import Dice.Proofs.Pool.Text
import Dice.Proofs.Expr.Columns
import Dice.Proofs.Expr.Canonical
import Dice.Proofs.Expr.Spacing
import Dice.Proofs.Expr.Contexts
import Dice.Proofs.Pool.Request
import Dice.Proofs.Pool.Threshold
import Dice.Proofs.Expr.Lossless
import Dice.Proofs.Expr.Expected
import Dice.Proofs.Stored
import Dice.Proofs.Refusals
import Dice.Proofs.Documents
import Dice.Proofs.Expr.Insertions
import Dice.Proofs.Totals
import Dice.Proofs.Endings
