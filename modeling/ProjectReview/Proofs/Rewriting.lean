import ProjectReview.Proofs.Encoding
import ProjectReview.Proofs.FixLoop
import ProjectReview.Proofs.Splicing
import ProjectReview.Proofs.Writing

set_option autoImplicit false

/-! # What fixes do to files

An iteration of the loop of fixes changes the file of one finding, and no other file or link
(`Patched`). The bytes of the file are those of a text, and afterwards those of the text with the
ranges of the fixes replaced. But the text is read with all its line ends as line feeds, and that is
how it is written. A file whose lines end with line feeds is patched and nothing else; one with
other line ends loses them with the first fix, also on lines that no fix touches
(`fix_rewrites_line_ends`).

The main result, `fixes_patch_files`, says this of every iteration and of the whole command. -/

namespace ProjectReview

/-- The files that an iteration leaves are those before it, with the file of a finding patched: its
    text, with line feeds at the ends of lines, has the ranges of the fixes replaced. -/
structure Patched (files left : Node) (root : List String) (finding : Finding)
    (target : List String) (text fixed : String) : Prop where
  place : files.entryPlace? (finding.file root).parts = some target
  before : files.bytesAt (finding.file root).parts = .ok (encodeUtf8 text)
  fixes : applyFixes finding.fixes (withLineFeeds text) = .ok fixed
  after : left.bytesAt (finding.file root).parts = .ok (encodeUtf8 fixed)
  patched : StopInside finding.fixes (linesOf (withLineFeeds text)) →
    fixed = patch finding.fixes (withLineFeeds text)
  exact : '\r' ∉ text.toList → StopInside finding.fixes (linesOf text) →
    fixed = patch finding.fixes text
  others : ∀ other, other ≠ target → left.get? other = files.get? other ∨
    (∃ entries, files.get? other = some (.directory entries)) ∧
      ∃ entries, left.get? other = some (.directory entries)

theorem readTextAt_eq_ok {files : Node} {parts : List String} {path : Path} {read : String}
    (h : files.readTextAt parts path = .ok read) :
    ∃ text, files.bytesAt parts = .ok (encodeUtf8 text) ∧ read = withLineFeeds text := by
  rw [Node.readTextAt] at h
  split at h
  · cases h
  · next bytes hbytes =>
    obtain ⟨text, rfl, rfl⟩ := readText_eq_ok (mapError_eq_ok.1 h)
    exact ⟨text, hbytes, rfl⟩

/-- The text after fixes comes from that of a file that can be read. -/
theorem fixedText_eq_ok {files : Node} {root : List String} {finding : Finding} {fixed : String}
    (h : (fixedText files root finding).outcome = .ok fixed) :
    ∃ text, files.bytesAt (finding.file root).parts = .ok (encodeUtf8 text) ∧
      applyFixes finding.fixes (withLineFeeds text) = .ok fixed := by
  rw [fixedText] at h
  split at h
  · cases h
  · next source hsource =>
    split at h
    · cases h
    · next text htext =>
      obtain rfl : text = fixed := Except.ok.inj h
      obtain ⟨original, hbytes, rfl⟩ := readTextAt_eq_ok hsource
      exact ⟨original, hbytes, htext⟩

/-- **Writing the text after fixes patches the file.** At the root there is no file to be written,
    and everywhere else the write succeeds. -/
theorem patched_of_fixedText {files : Node} {root : List String} {finding : Finding}
    {fixed : String} (h : (fixedText files root finding).outcome = .ok fixed) :
    let written := files.safeWrite {} (finding.file root).parts (encodeUtf8 fixed)
    (∃ fault, written = (files, .error fault)) ∨
      ∃ left target text, written = (left, .ok ()) ∧
        Patched files left root finding target text fixed := by
  intro written
  obtain ⟨text, hbefore, hfixes⟩ := fixedText_eq_ok h
  by_cases hparts : (finding.file root).parts = []
  · -- The root has no name under which it could be replaced.
    left
    rw [show written = files.safeWrite {} [] (encodeUtf8 fixed) from by rw [← hparts]]
    exact ⟨_, rfl⟩
  · right
    obtain ⟨target, node, hplace, hnode, hdirectory, hwritten, hafter⟩ :=
      Node.safeWrite_eq_put hparts hbefore (encodeUtf8 fixed)
    obtain ⟨hnone, haddresses, rfl⟩ := applyFixes_eq_ok hfixes
    have hpatched := ofLines_spliceAll hnone haddresses
    refine ⟨_, target, text, hwritten, hplace, hbefore, hfixes, hafter, hpatched, ?_, ?_⟩
    · intro hfeeds hinside
      rw [withLineFeeds_eq_self hfeeds] at hpatched ⊢
      exact hpatched hinside
    · exact fun other hother => Node.get?_put_of_ne hnode hdirectory _ hother

/-- Files that result from others by that many patches, one after the other. -/
inductive PatchedTimes (root : List String) (files : Node) : ℕ → Node → Prop
  | none : PatchedTimes root files 0 files
  | more {count : ℕ} {between left : Node} {finding : Finding} {target : List String}
      {text fixed : String} (before : PatchedTimes root files count between)
      (patched : Patched between left root finding target text fixed) :
      PatchedTimes root files (count + 1) left

namespace FixHead

variable {ι : Type} {K : ι → Type}

/-- The file of the first pending finding has been patched. -/
def PatchesFirst (head : FixHead K) (left : Node) : Prop :=
  ∃ finding target text fixed, head.state.pending.head? = some finding ∧
    Patched head.files left head.state.session.root finding target text fixed

/-- An iteration leaves the files as they are or patches one of them. If it writes, it has patched
    the file of the first pending finding. -/
theorem iterate_patches (environment : Environment) (dryRun : Bool) (limit : Int)
    (head : FixHead K) :
    match head.iterate environment dryRun limit with
    | .stops => True
    | .skips next => next.files = head.files
    | .writes next => dryRun = false ∧ head.PatchesFirst next.files
    | .fails _ left => left = head.files ∨ dryRun = false ∧ head.PatchesFirst left := by
  cases hstep : head.iterate environment dryRun limit with
  | stops => trivial
  | skips next =>
    obtain ⟨finding, others, -, rfl⟩ := iterate_eq_skips hstep
    rfl
  | writes next =>
    obtain ⟨finding, fixed, hwrote⟩ := iterate_eq_writes hstep
    rcases patched_of_fixedText hwrote.fixed with
      ⟨_, hrefused⟩ | ⟨left, target, text, hleft, hpatched⟩
    · rw [hwrote.write] at hrefused
      exact nomatch (Prod.mk.inj hrefused).2
    · rw [hwrote.write] at hleft
      obtain ⟨rfl, -⟩ := Prod.mk.inj hleft
      exact ⟨hwrote.wet, finding, target, text, fixed, hwrote.first, hpatched⟩
  | fails fault left =>
    obtain ⟨finding, others, -, hpending, htry⟩ := iterate_ne_stops (by rw [hstep]; exact nofun)
    rw [hstep, tryFinding] at htry
    split at htry
    · split at htry
      · cases htry
      · exact Or.inl (FixStep.fails.inj htry).2
    · next fixed hfixed =>
      split at htry
      · cases htry
      · next hwet =>
        rcases patched_of_fixedText hfixed with
          ⟨_, hrefused⟩ | ⟨written, target, text, hwritten, hpatched⟩
        · rw [hrefused] at htry
          exact Or.inl (FixStep.fails.inj htry).2
        · -- The file was written, and the refresh failed.
          rw [hwritten] at htry
          dsimp only at htry
          split at htry
          · obtain ⟨-, rfl⟩ := FixStep.fails.inj htry
            exact Or.inr ⟨Bool.eq_false_iff.2 hwet, finding, target, text, fixed,
              by rw [hpending]; rfl, hpatched⟩
          · cases htry

theorem root_of_refresh {session next : Session K} {host : Host} {result : SessionResult}
    (h : (session.refresh host).outcome = .ok (result, next)) : next.root = session.root := by
  obtain ⟨-, rfl⟩ := refresh_eq_ok h
  have hrefreshed := Session.refreshed host session
  generalize (Session.refreshInPlace host session).1.outcome = outcome at hrefreshed
  generalize (Session.refreshInPlace host session).2 = left at hrefreshed ⊢
  cases hrefreshed <;> rfl

section Runs

variable {environment : Environment} {dryRun : Bool} {limit : Int} {start head : FixHead K}

/-- Every write of the loop is a patch, and a dry run writes nothing. -/
theorem Reaches.patchedTimes {writes : ℕ} (h : Reaches environment dryRun limit start writes head) :
    head.state.session.root = start.state.session.root ∧ (dryRun = true → writes = 0) ∧
      PatchedTimes start.state.session.root start.files writes head.files := by
  induction h with
  | refl => exact ⟨rfl, fun _ => rfl, .none⟩
  | skip _ hstep ih =>
    obtain ⟨finding, others, -, rfl⟩ := iterate_eq_skips hstep
    exact ih
  | @write _ before next _ hstep ih =>
    obtain ⟨hroot, -, htimes⟩ := ih
    obtain ⟨_, _, hwrote⟩ := iterate_eq_writes hstep
    have hpatches := iterate_patches environment dryRun limit before
    rw [hstep] at hpatches
    obtain ⟨hwet, finding, target, text, fixed, -, hpatched⟩ := hpatches
    rw [hroot] at hpatched
    refine ⟨(root_of_refresh hwrote.refresh).trans hroot, ?_, .more htimes hpatched⟩
    rw [hwet]
    exact nofun

/-- **The command leaves files that are patched**, at most as often as passes are allowed. Where a
    fault ends the loop behind a write, that write is a patch, too. -/
theorem fixFindings_patchedTimes (environment : Environment) (dryRun : Bool) (limit : Int)
    (opened : Session K) (files : Node) :
    ∃ count, count ≤ limit.toNat ∧ (dryRun = true → count = 0) ∧
      PatchedTimes opened.root files count
        (opened.fixFindings environment dryRun limit files).2 := by
  cases hrefresh : (opened.refresh (environment.host files)).outcome with
  | error fault =>
    -- Nothing has been written yet.
    have hresult : (opened.fixFindings environment dryRun limit).result files
        = (.error fault, files) := by
      rw [Session.fixFindings, Action.result_bind, Action.result_look, hrefresh]
    have hleft : (opened.fixFindings environment dryRun limit files).2 = files :=
      congrArg Prod.snd hresult
    rw [hleft]
    exact ⟨0, Nat.zero_le _, fun _ => rfl, .none⟩
  | ok refreshed =>
    obtain ⟨result, session⟩ := refreshed
    have hfirst : opened.firstHead? environment files = some ⟨files, { session, result }⟩ :=
      Session.firstHead?_eq_some_iff.2 ⟨result, session, hrefresh, rfl⟩
    obtain ⟨writes, head, hreaches, hends⟩ := fixFindings_ends hfirst dryRun limit
    obtain ⟨happlied, hwrites⟩ := hreaches.writes_le rfl
    obtain ⟨hroot, hdry, htimes⟩ := hreaches.patchedTimes
    rw [show session.root = opened.root from root_of_refresh hrefresh] at hroot htimes
    cases hends with
    | stops _ hleft =>
      rw [hleft]
      exact ⟨writes, hwrites, hdry, htimes⟩
    | fails hfail =>
      have hpatches := iterate_patches environment dryRun limit head
      rw [hfail] at hpatches
      rcases hpatches with hsame | ⟨hwet, finding, target, text, fixed, -, hpatched⟩
      · rw [hsame]
        exact ⟨writes, hwrites, hdry, htimes⟩
      · have hstops : head.iterate environment dryRun limit ≠ .stops := by simp [hfail]
        obtain ⟨_, _, hbelow, -, -⟩ := iterate_ne_stops hstops
        rw [hroot] at hpatched
        refine ⟨writes + 1, by omega, fun hdry => ?_, .more htimes hpatched⟩
        exact absurd (hwet.symm.trans hdry) Bool.false_ne_true

end Runs

/-- **What the loop of fixes does to files.** Every iteration leaves the files as they are or
    patches the file of the first pending finding, and it does patch it if it writes. So the command
    leaves the files it was given, patched one after the other and at most as often as passes are
    allowed, and a dry run leaves them as they are. -/
theorem fixes_patch_files (environment : Environment) (dryRun : Bool) (limit : Int) :
    (∀ head : FixHead K,
      match head.iterate environment dryRun limit with
      | .stops => True
      | .skips next => next.files = head.files
      | .writes next => dryRun = false ∧ head.PatchesFirst next.files
      | .fails _ left => left = head.files ∨ dryRun = false ∧ head.PatchesFirst left) ∧
    ∀ (opened : Session K) (files : Node), ∃ count, count ≤ limit.toNat ∧
      (dryRun = true → count = 0) ∧
      PatchedTimes opened.root files count (opened.fixFindings environment dryRun limit files).2 :=
  ⟨iterate_patches environment dryRun limit, fixFindings_patchedTimes environment dryRun limit⟩

/-- A file whose lines end with carriage returns and line feeds: the fix replaces a word of the
    first line, and the line ends change in the second one, too. -/
theorem fix_rewrites_line_ends :
    let reviews : List (AnyReview Fault fun _ : Unit => List Mark) := [⟨(), unfinishedReview⟩]
    let config : Config := [("extra_file_patterns", .texts ["*.txt"])]
    let environment : Environment := { directory := [], root := [] }
    let before := (Host.singleFile "a.txt" "TODO\r\nkeep\r\n").files
    let after := (Host.singleFile "a.txt" "DONE\nkeep\n").files
    ∃ opened start next finding, Session.start [] reviews config = .ok opened ∧
      opened.firstHead? environment before = some start ∧
      start.state.pending.head? = some finding ∧
      start.iterate environment false 5 = .writes next ∧ next.files = after ∧
      before.bytesAt ["a.txt"] = .ok (encodeUtf8 "TODO\r\nkeep\r\n") ∧
      patch finding.fixes "TODO\r\nkeep\r\n" = "DONE\r\nkeep\r\n" ∧
      after.bytesAt ["a.txt"] ≠ .ok (encodeUtf8 (patch finding.fixes "TODO\r\nkeep\r\n")) := by
  intro reviews config environment before after
  have hrun : ((Session.start [] reviews config).toOption.bind fun opened =>
      (opened.firstHead? environment before).bind fun start =>
        start.state.pending.head?.bind fun finding =>
          match start.iterate environment false 5 with
          | .writes next =>
            some (next.files.onlyFile?, patch finding.fixes "TODO\r\nkeep\r\n")
          | _ => none)
      = some (some ("a.txt", encodeUtf8 "DONE\nkeep\n"), "DONE\r\nkeep\r\n") := by
    decide +kernel
  obtain ⟨opened, hopened, hrun⟩ := Option.bind_eq_some_iff.1 hrun
  obtain ⟨start, hstart, hrun⟩ := Option.bind_eq_some_iff.1 hrun
  obtain ⟨finding, hfinding, hrun⟩ := Option.bind_eq_some_iff.1 hrun
  split at hrun
  · next next hstep =>
    obtain ⟨honly, hpatch⟩ := Prod.mk.inj (Option.some.inj hrun)
    refine ⟨opened, start, next, finding, toOption_eq_some.1 hopened, hstart, hfinding, hstep,
      Node.eq_of_onlyFile? honly, rfl, hpatch, ?_⟩
    rw [hpatch]
    intro hsame
    have hbytes : encodeUtf8 "DONE\nkeep\n" = encodeUtf8 "DONE\r\nkeep\r\n" :=
      Except.ok.inj hsame
    exact absurd hbytes (by decide +kernel)
  · cases hrun

end FixHead

end ProjectReview
