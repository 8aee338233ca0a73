import Stepwise.Main
import Stepwise.Source.Region
import Stepwise.Proofs.Trail
import Stepwise.Proofs.Delivery
import Stepwise.Proofs.Effect
import Stepwise.Proofs.Meaning
import Stepwise.Proofs.Refinement
import Stepwise.Proofs.Grammar
import Stepwise.Proofs.GrammarSpan
import Stepwise.Proofs.ExprReading
import Stepwise.Proofs.ProgramReading
import Stepwise.Proofs.Unambiguous
import Stepwise.Proofs.Points
import Stepwise.Proofs.Outline
import Stepwise.Proofs.LexicalRun
import Stepwise.Proofs.TokenOrder
import Stepwise.Proofs.Anchors
import Stepwise.Proofs.LexicalScoping
import Stepwise.Proofs.Commitment
import Stepwise.Proofs.Transition
import Stepwise.Proofs.Productivity
import Stepwise.Proofs.Spelling
import Stepwise.Proofs.Gap
import Stepwise.Proofs.Tokenization
import Stepwise.Proofs.Relocation
import Stepwise.Proofs.Excerpt
import Stepwise.Proofs.Reparsing
import Stepwise.Proofs.Erasure
import Stepwise.Proofs.Lockstep
import Stepwise.Proofs.Substitution
import Stepwise.Proofs.Unwinding
import Stepwise.Proofs.Descent
import Stepwise.Proofs.DescentExpr
import Stepwise.Proofs.DescentProgram
import Stepwise.Proofs.ViablePrefix
import Stepwise.Proofs.DescentGrammar
import Stepwise.Proofs.Placement
import Stepwise.Proofs.Reformatting
import Stepwise.Proofs.Sessions
import Stepwise.Proofs.Holes
import Stepwise.Proofs.LimitOption
import Stepwise.Proofs.StepLimit
import Stepwise.Proofs.Tracing
import Stepwise.Proofs.Concatenation
import Stepwise.Proofs.Restriction
import Stepwise.Proofs.PostOrder
import Stepwise.Proofs.DecimalText
import Stepwise.Proofs.Arising
import Stepwise.Proofs.ReadBack
import Stepwise.Proofs.Sequencing
import Stepwise.Proofs.Unrolling
import Stepwise.Proofs.LastRecord
import Stepwise.Proofs.Typing
import Stepwise.Proofs.Latching
import Stepwise.Proofs.Limits
import Stepwise.Proofs.LoopFree
import Stepwise.Proofs.NameStacks
import Stepwise.Proofs.Lookups
import Stepwise.Proofs.Positions
import Stepwise.Proofs.Numerals
import Stepwise.Proofs.OperatorGuards
