import RuleOrder.Datum.Codec
import RuleOrder.Graph.Call
import RuleOrder.Table.Render
import RuleOrder.Proofs.Reach
import RuleOrder.Proofs.Record
import RuleOrder.Proofs.Careful
import RuleOrder.Proofs.Refusal
import RuleOrder.Proofs.Search
import RuleOrder.Proofs.Merge
import RuleOrder.Proofs.Ordering
import RuleOrder.Proofs.Places
import RuleOrder.Proofs.Steps
import RuleOrder.Proofs.Chain
import RuleOrder.Proofs.Backwards
import RuleOrder.Proofs.Heredity
import RuleOrder.Proofs.Reached
import RuleOrder.Proofs.Consistent
import RuleOrder.Proofs.Settling
import RuleOrder.Proofs.Limit
import RuleOrder.Proofs.Precedence
import RuleOrder.Proofs.Said
import RuleOrder.Proofs.Store.Basic
import RuleOrder.Proofs.Store.Change
import RuleOrder.Proofs.Store.Query
import RuleOrder.Proofs.Store.Sound
import RuleOrder.Proofs.Queue.Basic
import RuleOrder.Proofs.Queue.Search
import RuleOrder.Proofs.Queue.Linear
import RuleOrder.Proofs.Sight
import RuleOrder.Proofs.Journal
import RuleOrder.Proofs.Lines
import RuleOrder.Proofs.Account
import RuleOrder.Proofs.Inference
import RuleOrder.Proofs.Ranking
import RuleOrder.Proofs.Forwards
import RuleOrder.Proofs.Weights
import RuleOrder.Proofs.Hops
import RuleOrder.Proofs.Rendering
import RuleOrder.Proofs.Admission
import RuleOrder.Proofs.Spelling
import RuleOrder.Proofs.Extent
import RuleOrder.Proofs.ByStart
