import ProjectReview.Main
import ProjectReview.Proofs.Sessions
import ProjectReview.Proofs.FixLoop
import ProjectReview.Proofs.Excluding
import ProjectReview.Proofs.LoadFaults
import ProjectReview.Proofs.Encoding
import ProjectReview.Proofs.Splicing
import ProjectReview.Proofs.Writing
import ProjectReview.Proofs.Rewriting
import ProjectReview.Proofs.Checking
import ProjectReview.Proofs.Ignoring
import ProjectReview.Proofs.Settings
import ProjectReview.Proofs.Documents
import ProjectReview.Proofs.Storing
import ProjectReview.Proofs.Saving
import ProjectReview.Proofs.Batches
import ProjectReview.Proofs.Patching
import ProjectReview.Proofs.Configuring
import ProjectReview.Proofs.Leftovers
import ProjectReview.Proofs.Warnings
import ProjectReview.Proofs.Tolerating
import ProjectReview.Proofs.Validating
import ProjectReview.Proofs.Arranging
import ProjectReview.Proofs.Inspecting
import ProjectReview.Proofs.Folding
import ProjectReview.Proofs.Discovering
import ProjectReview.Proofs.Reordering
import ProjectReview.Proofs.Merging
import ProjectReview.Proofs.PassLimit
import ProjectReview.Proofs.DryRun
import ProjectReview.Proofs.AllOrNothing
import ProjectReview.Proofs.FoldOrder
import ProjectReview.Proofs.Matching
import ProjectReview.Proofs.Removing
import ProjectReview.Proofs.Separating
