import Bennu.TupleUnwinding
import Bennu.KernelExactness
import Bennu.PrimitiveTable
import Bennu.ValueFormatting
import Bennu.ContentsAcceptance
import Bennu.ResourceLimits
import Bennu.ReleaseAtomicity
import Bennu.ArenaVisits
import Bennu.ArenaDestruction
import Bennu.Detachment
import Bennu.ParserCompleteness
import Bennu.TableLayout
import Bennu.SharedContext
import Bennu.Binary64Grid
import Bennu.DecimalEstimate
import Bennu.DoubleSpelling
import Bennu.ArgumentAgreement
import Bennu.DoublePrinting
import Bennu.ParserSimulation
import Bennu.Rendering
import Bennu.ParserLanguage
import Bennu.ScalarKernel
import Bennu.RuntimeKernel
import Bennu.TreeTable
import Bennu.TypeArena
import Bennu.TypeValidation
import Bennu.TypeTree
import Bennu.TypeComposition
import Bennu.TypeFormatting
import Bennu.Renumbering
import Bennu.ValueTyping
import Bennu.TokenTiling
import Bennu.WindowsCommandLine
import Bennu.HostArray
import Bennu.AtomicOutput
import Bennu.ParserSpans
import Bennu.ParserTotality
import Bennu.EvaluationEnd
import Bennu.ApplicationAccounting
