import SmallLisp.Main
import SmallLisp.Proofs.Console.Session
import SmallLisp.Proofs.Eval.CallPaths
import SmallLisp.Proofs.Eval.Clone
import SmallLisp.Proofs.Eval.Expansion
import SmallLisp.Proofs.Eval.LastWrite
import SmallLisp.Proofs.Eval.Lookup
import SmallLisp.Proofs.Eval.Malformed
import SmallLisp.Proofs.Eval.MapLiteral
import SmallLisp.Proofs.Eval.Progression
import SmallLisp.Proofs.Eval.Raise
import SmallLisp.Proofs.Eval.Refusal
import SmallLisp.Proofs.Interpreter.Host
import SmallLisp.Proofs.Interpreter.Keying
import SmallLisp.Proofs.Interpreter.Literal
import SmallLisp.Proofs.Interpreter.Printing
import SmallLisp.Proofs.Interpreter.Reachable
import SmallLisp.Proofs.Interpreter.ScopeTree
import SmallLisp.Proofs.Interpreter.Sequence
import SmallLisp.Proofs.Interpreter.SideBySide
import SmallLisp.Proofs.Interpreter.TailLoop
import SmallLisp.Proofs.Reader.Layout
import SmallLisp.Proofs.Reader.Stream
import SmallLisp.Proofs.Reader.Truncated
import SmallLisp.Proofs.Template.Code
import SmallLisp.Proofs.Value.RoundTrip
