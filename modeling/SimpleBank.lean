import SimpleBank.Audit
import SimpleBank.Deadlock
import SimpleBank.Blocking
import SimpleBank.Settlement
import SimpleBank.Agreement
import SimpleBank.Failures
import SimpleBank.Privacy
import SimpleBank.Makers
import SimpleBank.Exits
import SimpleBank.Pagination
import SimpleBank.Bookings
import SimpleBank.Mailboxes
import SimpleBank.Edits
import SimpleBank.Links
import SimpleBank.Hashes
import SimpleBank.Rollbacks
import SimpleBank.Deployment
import SimpleBank.Origins
import SimpleBank.Holdings
import SimpleBank.Liveness
import SimpleBank.Operations
import SimpleBank.Acceptance
import SimpleBank.Snapshots
