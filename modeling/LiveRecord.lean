import LiveRecord.Config.Text
import LiveRecord.Record.Bindings
import LiveRecord.Session.Commit
import LiveRecord.Script.Run
import LiveRecord.Proofs.Flow.Announcement
import LiveRecord.Proofs.Flow.Performance
import LiveRecord.Proofs.Flow.Scene
import LiveRecord.Proofs.Flow.Plugging
import LiveRecord.Proofs.Flow.Reentry
import LiveRecord.Proofs.Flow.Nesting
import LiveRecord.Proofs.Flow.Promptness
import LiveRecord.Proofs.Flow.Currency
import LiveRecord.Proofs.Flow.Coalescing
import LiveRecord.Proofs.Flow.Disposal
import LiveRecord.Proofs.Flow.Recovery
import LiveRecord.Proofs.Flow.Delivery
import LiveRecord.Proofs.Flow.Newcomer
import LiveRecord.Proofs.Flow.Census
import LiveRecord.Proofs.Flow.Novelty
import LiveRecord.Proofs.Flow.Batches
import LiveRecord.Proofs.Flow.Notification
import LiveRecord.Proofs.Flow.Interference
import LiveRecord.Proofs.Flow.Interleaving
import LiveRecord.Proofs.Record.Frame
import LiveRecord.Proofs.Record.Independence
import LiveRecord.Proofs.Record.Obstruction
import LiveRecord.Proofs.Session.Restoration
import LiveRecord.Proofs.Path.Grammar
import LiveRecord.Proofs.Path.Printing
import LiveRecord.Proofs.Path.NormalForm
import LiveRecord.Proofs.Path.Numbering
import LiveRecord.Proofs.Path.Order
import LiveRecord.Proofs.Record.Naming
import LiveRecord.Proofs.Record.Bindings
import LiveRecord.Proofs.Session.Atomicity
import LiveRecord.Proofs.Session.Naming
