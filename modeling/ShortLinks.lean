import ShortLinks.Database.Failure
import ShortLinks.Main
import ShortLinks.Session
import ShortLinks.Proofs.FileSystem.Around
import ShortLinks.Proofs.FileSystem.Effects
import ShortLinks.Proofs.Json.Quoting
import ShortLinks.Proofs.RecordLine
import ShortLinks.Proofs.Journal.Lines
import ShortLinks.Proofs.Journal.Writing
import ShortLinks.Proofs.Journal.ReadBack
import ShortLinks.Proofs.Store.Owners
import ShortLinks.Proofs.Store.Memory
import ShortLinks.Proofs.Store.Backup
import ShortLinks.Proofs.Session.Durability
import ShortLinks.Proofs.Store.Relational
import ShortLinks.Proofs.Service
import ShortLinks.Proofs.Store.Either
import ShortLinks.Proofs.Session.Calls
import ShortLinks.Proofs.Session.Truth
import ShortLinks.Proofs.Session.Agreement
import ShortLinks.Proofs.Store.Atomicity
import ShortLinks.Proofs.Deletion.Accounting
import ShortLinks.Proofs.Session.RoundTrip
import ShortLinks.Proofs.Deletion.Scheduling
import ShortLinks.Proofs.Json.Joined
import ShortLinks.Proofs.Json.Written
import ShortLinks.Proofs.Journal.Unended
import ShortLinks.Proofs.Session.Unended
import ShortLinks.Proofs.Store.Skipping
import ShortLinks.Proofs.Session.Refinement
import ShortLinks.Proofs.Session.Permanence
import ShortLinks.Proofs.Command.Separate
import ShortLinks.Proofs.Session.Isolation
import ShortLinks.Proofs.Session.FailedBackup
import ShortLinks.Proofs.Clients.Order
import ShortLinks.Proofs.Deletion.Progress
import ShortLinks.Proofs.Store.Buried
import ShortLinks.Proofs.Deletion.Effect
import ShortLinks.Proofs.Store.Unlogged
import ShortLinks.Proofs.Store.Added
import ShortLinks.Proofs.Store.OneByOne
import ShortLinks.Proofs.Code.Tail
import ShortLinks.Proofs.Store.LastWrite
import ShortLinks.Proofs.Store.Inserted
import ShortLinks.Proofs.Store.Retried
import ShortLinks.Proofs.Database.Kind
import ShortLinks.Proofs.Url
import ShortLinks.Proofs.Store.Canonical
import ShortLinks.Proofs.Json.Grammar
import ShortLinks.Proofs.Json.Spelling
import ShortLinks.Proofs.Json.Passing
import ShortLinks.Proofs.Json.Cells
import ShortLinks.Proofs.Json.Layout
import ShortLinks.Proofs.RecordObject
import ShortLinks.Proofs.Code.Shape
import ShortLinks.Proofs.Batch
import ShortLinks.Proofs.Settings.Words
import ShortLinks.Proofs.Settings.Precedence
