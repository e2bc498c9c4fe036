import Lox.Main
import Lox.Syntax.Printer
import Lox.Proofs.Ancestry.Session
import Lox.Proofs.Ending.Program
import Lox.Proofs.Environment.Writes
import Lox.Proofs.Grammar.Acceptance
import Lox.Proofs.Grammar.Proper
import Lox.Proofs.Identity.Session
import Lox.Proofs.Local.Session
import Lox.Proofs.Log.Names
import Lox.Proofs.Direct.Session
import Lox.Proofs.Receiver.Session
import Lox.Proofs.Scope.Bound
import Lox.Proofs.Scope.Breaches
import Lox.Proofs.Session.Append
import Lox.Proofs.Session.ByName
import Lox.Proofs.Session.Prompt
import Lox.Proofs.Token.Cover
import Lox.Proofs.Token.OnePass
import Lox.Proofs.Token.Respace
import Lox.Proofs.Trace.Output
import Lox.Proofs.Trace.Sound
import Lox.Proofs.Watch.Erasure
import Lox.Proofs.Watch.Session
import Lox.Proofs.Session.Lasting
import Lox.Proofs.Recovery.Total
import Lox.Proofs.Printed.Program
