import ClosureML.Main
import ClosureML.Table
import ClosureML.Proofs.ErrorExcerpts
import ClosureML.Proofs.Independence
import ClosureML.Proofs.IntegerPrograms
import ClosureML.Proofs.KeptNames
import ClosureML.Proofs.Machine.Rendered
import ClosureML.Proofs.Machine.StackDiscipline
import ClosureML.Proofs.Names.RenamingSound
import ClosureML.Proofs.Names.ScopingChecked
import ClosureML.Proofs.Names.SupplyAnswers
import ClosureML.Proofs.Semantics.Operation
import ClosureML.Proofs.Syntax.Accepted
import ClosureML.Proofs.Syntax.NamedFields
import ClosureML.Proofs.Syntax.ParserEnds
import ClosureML.Proofs.Syntax.PrintedTrees
import ClosureML.Proofs.Syntax.RoundTrip
import ClosureML.Proofs.Syntax.TypeTexts
import ClosureML.Proofs.Tokens.Placement
import ClosureML.Proofs.Types.FirstConflict
import ClosureML.Proofs.Types.IncrementalSolving
import ClosureML.Proofs.Types.MostGeneralUnifier
import ClosureML.Proofs.Types.Principal
import ClosureML.Proofs.Types.StampedTree
import ClosureML.Proofs.Types.WholeSchemas
import ClosureML.Proofs.Types.WrittenTypes
