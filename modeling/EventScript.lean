import EventScript.Main
import EventScript.Node.Equality
import EventScript.Proofs.Fixpoint
import EventScript.Proofs.Liveness
import EventScript.Proofs.Minimal
import EventScript.Proofs.Offence
import EventScript.Proofs.Preservation
import EventScript.Proofs.Relabel
import EventScript.Proofs.Safety
import EventScript.Proofs.Scan
import EventScript.Proofs.Layout
import EventScript.Proofs.Record
import EventScript.Proofs.Nesting
import EventScript.Proofs.Limit
import EventScript.Proofs.Session
import EventScript.Proofs.Files
import EventScript.Proofs.RoundTrip
import EventScript.Proofs.Command
import EventScript.Proofs.Quotient
import EventScript.Proofs.Folding
import EventScript.Proofs.Account
import EventScript.Proofs.Silence
import EventScript.Proofs.Provenance
import EventScript.Proofs.Caret
import EventScript.Proofs.Unambiguous
import EventScript.Proofs.Grammar
import EventScript.Proofs.Spelling
import EventScript.Proofs.Tolerance
import EventScript.Proofs.Integer
import EventScript.Proofs.Size
