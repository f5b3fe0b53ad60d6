import ConfigTree.Main
import ConfigTree.Multimap.Operation
import ConfigTree.Proofs.CommandLine.Writing
import ConfigTree.Proofs.ConfigText
import ConfigTree.Proofs.ConfigText.Number
import ConfigTree.Proofs.Edit.Atomicity
import ConfigTree.Proofs.Edit.Cap
import ConfigTree.Proofs.Edit.Commutation
import ConfigTree.Proofs.Edit.Depth
import ConfigTree.Proofs.Edit.Frame
import ConfigTree.Proofs.Edit.Idempotence
import ConfigTree.Proofs.Edit.Kinds
import ConfigTree.Proofs.Edit.Placement
import ConfigTree.Proofs.Edit.Refusal
import ConfigTree.Proofs.Edit.Reload
import ConfigTree.Proofs.Edit.Removal
import ConfigTree.Proofs.Edit.Resolution
import ConfigTree.Proofs.Edit.Session
import ConfigTree.Proofs.Json.RoundTrip
import ConfigTree.Proofs.Literal.Prefixed
import ConfigTree.Proofs.MessagePack.Answer
import ConfigTree.Proofs.MessagePack.Records
import ConfigTree.Proofs.Multimap.Listing
import ConfigTree.Proofs.Query.Children
import ConfigTree.Proofs.Query.Equivalence
import ConfigTree.Proofs.Query.Labels
import ConfigTree.Proofs.Query.Layout
import ConfigTree.Proofs.Query.Limit
import ConfigTree.Proofs.Query.SubPath
import ConfigTree.Proofs.Query.Validation
import ConfigTree.Proofs.Query.Walk
import ConfigTree.Proofs.Repeats
