import JaiTree.Main
import JaiTree.Proofs.Lexer.Lossless
import JaiTree.Proofs.Tree.Spans
import JaiTree.Proofs.Tree.Regions
import JaiTree.Proofs.Grammar.Progress
import JaiTree.Proofs.Conflict.Settled
import JaiTree.Proofs.Tree.Precedence
import JaiTree.Proofs.Grammar.Restored
import JaiTree.Proofs.Tree.Boundaries
import JaiTree.Proofs.Tree.Nesting
import JaiTree.Proofs.Tree.Bare
import JaiTree.Proofs.Tree.Braced
import JaiTree.Proofs.Tree.Origins
import JaiTree.Proofs.Tree.Fences
import JaiTree.Proofs.Lexer.Comments
import JaiTree.Proofs.Tree.HereStrings
import JaiTree.Proofs.Grammar.Contexts
import JaiTree.Proofs.Grammar.Declared
import JaiTree.Proofs.Tree.Produced
import JaiTree.Proofs.Tree.Whole
import JaiTree.Proofs.Grammar.Chains
import JaiTree.Proofs.Grammar.Arms
import JaiTree.Proofs.Tree.Containment
import JaiTree.Proofs.Grammar.Limit
import JaiTree.Proofs.Grammar.Recovered
import JaiTree.Proofs.Lexer.Enclosed
import JaiTree.Proofs.Grammar.Starts
import JaiTree.Proofs.Grammar.Assigned
import JaiTree.Proofs.Lexer.Strings
import JaiTree.Proofs.Tree.Skeletons
import JaiTree.Proofs.Text.Positions
import JaiTree.Proofs.Lexer.Alone
import JaiTree.Proofs.Diagnostic.Report
import JaiTree.Proofs.Lookahead.Lists
import JaiTree.Proofs.Token.Gaps
