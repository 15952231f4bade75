import QueryTree.Build.Continuation
import QueryTree.Build.Leaf
import QueryTree.Build.Operator
import QueryTree.Equality
import QueryTree.Proofs.Build.Validity
import QueryTree.Proofs.Text.Quoted
import QueryTree.Proofs.Text.Reader
import QueryTree.Proofs.Text.Closed
import QueryTree.Proofs.Text.Written
import QueryTree.Proofs.Number.Whole
import QueryTree.Proofs.Number.Exact
import QueryTree.Proofs.Text.Shapes
import QueryTree.Proofs.Text.Words
import QueryTree.Proofs.Text.Determined
import QueryTree.Proofs.Text.Clauses
import QueryTree.Proofs.Text.Unambiguous
import QueryTree.Proofs.Tree.Same
import QueryTree.Proofs.Text.Plain
import QueryTree.Proofs.Data.Nested
import QueryTree.Proofs.Data.Objects
import QueryTree.Proofs.Text.BareWords
import QueryTree.Proofs.Text.ClauseCount
import QueryTree.Proofs.Number.Rounded
import QueryTree.Proofs.Text.Zeros
import QueryTree.Proofs.Build.Chain
import QueryTree.Proofs.Name.Reading
import QueryTree.Proofs.Text.Token
import QueryTree.Proofs.Text.Escaped
import QueryTree.Proofs.Data.Strings
import QueryTree.Proofs.Build.Collections
import QueryTree.Proofs.Build.Options
import QueryTree.Proofs.Tree.Equivalence
import QueryTree.Proofs.Text.Operands
import QueryTree.Proofs.Text.Delimited
import QueryTree.Proofs.Name.Namespaces
import QueryTree.Proofs.Build.Invocation
