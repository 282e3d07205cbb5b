import ObjectStore.Catalog.Shape
import ObjectStore.Store.Display
import ObjectStore.Workload.Draws
import ObjectStore.Workload.Stress
import ObjectStore.Workload.Tracked
import ObjectStore.Proofs.Cbor.Shapes
import ObjectStore.Proofs.Engine.FreshIds
import ObjectStore.Proofs.Engine.Isolation
import ObjectStore.Proofs.Engine.SerialHistory
import ObjectStore.Proofs.Events.Lossless
import ObjectStore.Proofs.Notes.FailedWrites
import ObjectStore.Proofs.Store.Deferral
import ObjectStore.Proofs.Store.Retained
import ObjectStore.Proofs.Store.Retuned
import ObjectStore.Proofs.Store.Strategies
import ObjectStore.Proofs.Engine.Holdings
import ObjectStore.Proofs.Engine.Validity
import ObjectStore.Proofs.Engine.WriterSlot
import ObjectStore.Proofs.Store.Lasting
import ObjectStore.Proofs.Keys.Written
import ObjectStore.Proofs.Keys.Reading
import ObjectStore.Proofs.Keys.Runs
import ObjectStore.Proofs.Notes.Relinking
import ObjectStore.Proofs.Notes.DeferredFanOut
import ObjectStore.Proofs.Notes.Batches
import ObjectStore.Proofs.Notes.RoundTrip
import ObjectStore.Proofs.Engine.FailedCalls
import ObjectStore.Proofs.Links.DesiredLinks
import ObjectStore.Proofs.Links.WriteCount
import ObjectStore.Proofs.Notes.NewNotes
import ObjectStore.Proofs.Engine.PutMany
import ObjectStore.Proofs.Engine.Removal
import ObjectStore.Proofs.Bulk.Assignment
import ObjectStore.Proofs.Bulk.Failures
import ObjectStore.Proofs.Cbor.Nesting
import ObjectStore.Proofs.Store.Models
import ObjectStore.Proofs.Reads.Pointwise
import ObjectStore.Proofs.Errors.Boxes
import ObjectStore.Proofs.Cbor.Truncation
import ObjectStore.Proofs.Cbor.Peeking
import ObjectStore.Proofs.Store.Encoders
import ObjectStore.Proofs.Workload.DeferredPuts
import ObjectStore.Proofs.Engine.WellFormed
import ObjectStore.Proofs.Workload.BulkPuts
