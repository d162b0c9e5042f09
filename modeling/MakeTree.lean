import MakeTree.Main
import MakeTree.Statement.Literal
import MakeTree.Proofs.Expansion
import MakeTree.Proofs.HollowLines
import MakeTree.Proofs.Progress
import MakeTree.Proofs.Replay
import MakeTree.Proofs.Assignments
import MakeTree.Proofs.CargoDirectories
import MakeTree.Proofs.Shapes
import MakeTree.Proofs.Failures
import MakeTree.Proofs.Attribution
import MakeTree.Proofs.Appending
import MakeTree.Proofs.ExitCodes
import MakeTree.Proofs.Spellings
import MakeTree.Proofs.LineRules
import MakeTree.Proofs.Directives
import MakeTree.Proofs.NameRecords
import MakeTree.Proofs.Continuations
import MakeTree.Proofs.Containment
import MakeTree.Proofs.RecipeDirectories
import MakeTree.Proofs.NameReplays
import MakeTree.Proofs.Literals
import MakeTree.Proofs.Outlines
import MakeTree.Proofs.ChainReading
