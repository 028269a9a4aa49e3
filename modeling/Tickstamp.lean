import Tickstamp.Issuer.Operation
import Tickstamp.Issuer.Sharing
import Tickstamp.Issue.Tally
import Tickstamp.Issue.History
import Tickstamp.Issue.Interleaving
import Tickstamp.Json.Codec
import Tickstamp.Main
import Tickstamp.Proofs.Packing
import Tickstamp.Proofs.Coding
import Tickstamp.Proofs.Numeral
import Tickstamp.Proofs.Keys
import Tickstamp.Proofs.Issue.Commit
import Tickstamp.Proofs.Issue.Ascent
import Tickstamp.Proofs.Issue.Image
import Tickstamp.Proofs.Issue.Mirror
import Tickstamp.Proofs.Issue.Response
import Tickstamp.Proofs.Issue.Agreement
import Tickstamp.Proofs.Issue.Linearization
import Tickstamp.Proofs.Issue.SteadyClock
import Tickstamp.Proofs.Issue.Calls
import Tickstamp.Proofs.Issue.Contest
import Tickstamp.Proofs.Issue.Omission
import Tickstamp.Issuer.Chronicle
import Tickstamp.Proofs.Issuer.Rebinding
import Tickstamp.Proofs.Issuer.Schedules
import Tickstamp.Proofs.Issuer.Solitude
import Tickstamp.Proofs.Issue.Restart
import Tickstamp.Issue.Request
import Tickstamp.Proofs.Cluster
import Tickstamp.Proofs.Issuer.Poisoning
import Tickstamp.Proofs.Issue.Lag
import Tickstamp.Proofs.Issue.Service
import Tickstamp.Issue.Queue
import Tickstamp.Proofs.Issue.Turns
import Tickstamp.Proofs.Issuer.Timeline
import Tickstamp.Proofs.Issuer.Origins
import Tickstamp.Proofs.Moment
import Tickstamp.Proofs.Text.Integer
import Tickstamp.Proofs.CommandLine.RoundTrip
import Tickstamp.Proofs.Issue.Threshold
import Tickstamp.Proofs.Issue.Outcome
import Tickstamp.Proofs.Issue.Races
import Tickstamp.Proofs.Issuer.Standing
import Tickstamp.Proofs.Issuer.Reachable
import Tickstamp.Proofs.Waiting
import Tickstamp.Proofs.Conclusion
import Tickstamp.Proofs.Capacity
import Tickstamp.Proofs.Spread
import Tickstamp.Proofs.Issuer.Idling
import Tickstamp.Proofs.Issuer.Batches
import Tickstamp.Proofs.Issuer.Handover
import Tickstamp.Proofs.Json.RoundTrip
import Tickstamp.Proofs.Trapping
import Tickstamp.Proofs.Json.Layouts
import Tickstamp.Proofs.Issue.Likeness
import Tickstamp.Proofs.Interchange
import Tickstamp.Proofs.Order
import Tickstamp.Proofs.Verdict
import Tickstamp.Proofs.Radix
import Tickstamp.Proofs.Json.Overrides
import Tickstamp.Proofs.Readability
import Tickstamp.Proofs.CommandLine.Decoding
import Tickstamp.Proofs.CommandLine.Precedence
