import Abacus.Json.Fault
import Abacus.Json.Program
import Abacus.Program.Parser
import Abacus.Program.Printer
import Abacus.Proofs.Breaks
import Abacus.Proofs.ChildWalk
import Abacus.Proofs.Composition
import Abacus.Proofs.DecidingTexts
import Abacus.Proofs.DefinedNames
import Abacus.Proofs.Embedding
import Abacus.Proofs.Extras
import Abacus.Proofs.HandBack
import Abacus.Proofs.JsonInverse
import Abacus.Proofs.Messages
import Abacus.Proofs.PrintedTree
import Abacus.Proofs.RoundTrip
import Abacus.Proofs.Signs
import Abacus.Proofs.Survival
import Abacus.Proofs.Threshold
import Abacus.Proofs.WayBack
import Abacus.Script
