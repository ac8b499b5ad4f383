import SyncEngine.Outbox.HandOver
import SyncEngine.Outbox.Purge
import SyncEngine.Outbox.Refinement
import SyncEngine.Threading.TwoStores
import SyncEngine.People.History
import SyncEngine.Mail.TwoDrivers
import SyncEngine.Imap.Passes
import SyncEngine.Outbox.Order
import SyncEngine.Outbox.DraftsKept
import SyncEngine.Drivers.Released
import SyncEngine.Filing.Delivered
import SyncEngine.Dav.Truncated
import SyncEngine.Graph.RoundTrip
import SyncEngine.Pool.Watches
import SyncEngine.Watch.Reported
import SyncEngine.Content.Reads
import SyncEngine.Content.ReadsBack
import SyncEngine.Clock.RoundTrip
import SyncEngine.Outbox.MailboxForest
import SyncEngine.Rrule.UntilInstant
import SyncEngine.Recurrence.Returns
import SyncEngine.Ical.Exclusion
import SyncEngine.Ical.DateTimeLines
import SyncEngine.Imap.Framing
import SyncEngine.Imap.Keywords
import SyncEngine.Imap.Vanished
import SyncEngine.Imap.Envelopes
import SyncEngine.Http.Pace
import SyncEngine.Google.Cursors
import SyncEngine.Google.Labels
import SyncEngine.Jmap.Rule
import SyncEngine.Jmap.Endings
import SyncEngine.Google.Instants
import SyncEngine.Rfc5322.Parts
import SyncEngine.Search.Mail
import SyncEngine.Filing.Drafts
import SyncEngine.Imap.Utf7
import SyncEngine.Mail.KeywordEdits
