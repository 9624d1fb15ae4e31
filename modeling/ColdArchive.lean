import ColdArchive.Main
import ColdArchive.Proofs.Files.Canonical
import ColdArchive.Proofs.Files.Crash
import ColdArchive.Proofs.Files.Live
import ColdArchive.Proofs.Files.Refinement
import ColdArchive.Proofs.Files.Restart
import ColdArchive.Proofs.Files.Truncation
import ColdArchive.Proofs.RecordLog
import ColdArchive.Proofs.Files.Exclusion
import ColdArchive.Proofs.Files.Tails
import ColdArchive.Proofs.Files.Locking
import ColdArchive.Proofs.Files.Cutoff
import ColdArchive.Proofs.Files.Failures
import ColdArchive.Proofs.Files.Arithmetic
import ColdArchive.Proofs.Message.Stream
import ColdArchive.Proofs.Remote.Closing
import ColdArchive.Proofs.Remote.Acceptance
import ColdArchive.Proofs.Remote.Quiescence
import ColdArchive.Proofs.Remote.Sizes
import ColdArchive.Proofs.Remote.Blame
import ColdArchive.Proofs.Remote.Behind
import ColdArchive.Proofs.Service.Connection
import ColdArchive.Proofs.Frame.Splitting
import ColdArchive.Proofs.Service.FrameSizes
import ColdArchive.Proofs.Envelope.Texts
import ColdArchive.Proofs.Deadlines
import ColdArchive.Proofs.Service.Arguments
