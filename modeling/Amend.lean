import Amend.Main
import Amend.Host.Machine
import Amend.Review.Approval
import Amend.Tool.Description
import Amend.Tool.Execute
import Amend.Tool.Site
import Amend.Proofs.Search
import Amend.Proofs.Tolerance
import Amend.Proofs.Backtracking
import Amend.Proofs.Strategies
import Amend.Proofs.Ambiguity
import Amend.Proofs.Locating
import Amend.Proofs.Patching
import Amend.Proofs.Interruption
import Amend.Proofs.Reordering
import Amend.Proofs.Returns
import Amend.Proofs.Coupling
import Amend.Proofs.Calls
import Amend.Proofs.Encoding
import Amend.Proofs.Stores
import Amend.Proofs.Framing
import Amend.Proofs.Footprint
import Amend.Proofs.Staging
import Amend.Proofs.Transparency
import Amend.Proofs.LineNumbers
import Amend.Proofs.Cancelling
import Amend.Proofs.Disks
import Amend.Proofs.Answers
import Amend.Proofs.Questions
import Amend.Proofs.Machines
import Amend.Proofs.Reviewing
import Amend.Proofs.Agreement
import Amend.Proofs.Overlays
import Amend.Proofs.Reapplying
import Amend.Proofs.Joining
import Amend.Proofs.Hinting
import Amend.Proofs.Paths
import Amend.Proofs.Replacing
import Amend.Proofs.Serializing
import Amend.Proofs.Streams
import Amend.Proofs.Logs
import Amend.Proofs.Figures
import Amend.Proofs.Metrics
import Amend.Proofs.Windows
import Amend.Proofs.Tokens
import Amend.Proofs.Excerpts
import Amend.Proofs.Rejection
import Amend.Proofs.Retrying
import Amend.Proofs.Stretches
import Amend.Proofs.Scripts
import Amend.Proofs.Boundaries
import Amend.Proofs.Counting
import Amend.Proofs.Decoding
import Amend.Proofs.Rankings
import Amend.Proofs.Skipping
import Amend.Proofs.Spellings
import Amend.Proofs.Recent
import Amend.Proofs.Tearing
import Amend.Proofs.Appending
import Amend.Proofs.Numerals
import Amend.Proofs.Resolving
import Amend.Proofs.Restoring
