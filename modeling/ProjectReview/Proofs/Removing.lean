import ProjectReview.Module.Parse
import ProjectReview.Proofs.Arranging
import ProjectReview.Proofs.Layouts
import ProjectReview.Proofs.Statements

set_option autoImplicit false

/-! # Removing unused bindings

The fix of an unused binding is to remove its assignment. Every binding comes from a stretch of the
module's tokens, which stand in the text from the binding's name on to the end of its value
(`exists_shows`), so what the fix takes away is known from the layout of that stretch, and the fix
always succeeds.

It takes nothing of another statement away just if the assignment is laid out tidily
(`Shows.removesOnly_iff`): nothing in front of it on its line, and no statement where the rest of
its last line is reached. `unused_fix_removes_layout` is the main result, and
`unused_fix_removes_other_statements` has modules where another statement is lost: one that stands
in front, one that stands behind on the first line, and one that stands behind characters of more
than one byte. -/

namespace ProjectReview

/-! ## The other statements -/

namespace Token

/-- The token belongs to no statement: it separates statements, or it is a mark. -/
def separates (token : Token) : Bool :=
  decide (token.kind = .symbol ';') || token.kind.isMark

/-- The token starts in a text that follows some characters. -/
def StartsIn (token : Token) (before text : List Char) : Prop :=
  ∃ front rest, text = front ++ rest ∧ rest ≠ [] ∧ spotBehind (before ++ front) = token.startSpot

/-- A token that starts in a part of a text is where that part has its first character. -/
theorem StartsIn.eq_append {token : Token} {text before part rest front word more : List Char}
    (h : token.StartsIn before part) (hspans : token.Spans front word)
    (hpart : text = before ++ (part ++ rest)) (hword : text = front ++ (word ++ more)) :
    ∃ ahead left, part = ahead ++ left ∧ left ≠ [] ∧ front = before ++ ahead := by
  obtain ⟨ahead, left, rfl, hleft, hspot⟩ := h
  have hall : front ++ (word ++ more) = (before ++ ahead) ++ (left ++ rest) := by
    rw [← hword, hpart]
    simp
  exact ⟨ahead, left, rfl, hleft, eq_of_spotBehind_eq hall (hspans.start.trans hspot.symm)⟩

end Token

namespace Layout

/-- The layout is that of an assignment of a module, which is made of some of its tokens. -/
structure Shows (layout : Layout) (source : String) (binding : Binding) (own : List Token) :
    Prop where
  whole : source.toList = layout.before ++ (layout.text ++ layout.after)
  range : layout.range = binding.statement
  assigns : ∃ target equals value, own = target :: equals :: value ∧
    target.kind = .name binding.name ∧ equals.kind = .symbol '='
  tokens : ∃ ahead behind, Token.scan source = ahead ++ (own ++ behind) ∧
    Laid [] layout.before ahead ∧ Laid layout.before layout.text own ∧
    Laid (layout.before ++ layout.text) layout.after behind

/-- What is removed is the stretch and no part of another statement: every token that starts in it
    is one of the stretch's own or separates statements, and besides the stretch it is at most the
    line break in front, or else the rest of the last line with the line break behind. -/
structure RemovesOnly (layout : Layout) (source : String) (own : List Token) : Prop where
  spares : ∀ token ∈ Token.scan source, token.StartsIn layout.keptFront layout.removed →
    token ∈ own ∨ token.separates = true
  around : (layout.keptFront ++ ['\n'] = layout.before ∧ layout.keptBack = layout.after) ∨
    (layout.keptFront = layout.before ∧
      ∃ reach, reach <+: layout.behind ++ ['\n'] ∧ reach ++ layout.keptBack = layout.after)

/-- Nothing stands in front of the stretch on its line; below the first line, nothing behind it is
    reached; and no other statement starts in what is reached. -/
structure Tidy (layout : Layout) (source : String) : Prop where
  first : layout.inFront = []
  exact : layout.above ≠ [] → layout.reached = []
  clear : ∀ token ∈ Token.scan source,
    token.StartsIn (layout.before ++ layout.text) layout.reached → token.separates = true

variable {layout : Layout} {source : String} {binding : Binding} {own : List Token} {token : Token}

theorem lead_eq_nil_or (layout : Layout) : layout.lead = [] ∨ layout.lead = ['\n'] := by
  rw [lead]
  split
  · exact .inl rfl
  · exact .inr rfl

theorem trail_eq_nil_or (layout : Layout) : layout.trail = [] ∨ layout.trail = ['\n'] := by
  rw [trail]
  split
  · exact .inr rfl
  · exact .inl rfl

/-- What is reached and the line break behind it are at most the rest of the line with its break. -/
theorem reached_trail_isPrefix (layout : Layout) :
    layout.reached ++ layout.trail <+: layout.behind ++ ['\n'] := by
  rw [reached, trail]
  split
  · exact List.prefix_rfl
  · rw [List.append_nil]
    exact (List.take_prefix _ _).trans (List.prefix_append _ _)

/-- What is kept is as the statement's removal should have it just if nothing stands in front and,
    below the first line, nothing is reached behind. -/
theorem around_iff (layout : Layout) :
    ((layout.keptFront ++ ['\n'] = layout.before ∧ layout.keptBack = layout.after) ∨
      (layout.keptFront = layout.before ∧
        ∃ reach, reach <+: layout.behind ++ ['\n'] ∧ reach ++ layout.keptBack = layout.after)) ↔
    layout.inFront = [] ∧ (layout.above ≠ [] → layout.reached = []) := by
  have hbefore := layout.keptFront_append
  have hafter := layout.append_keptBack
  by_cases habove : layout.above = []
  · -- On the first line there is no break in front.
    have hlead : layout.lead = [] := if_pos habove
    rw [hlead, List.nil_append] at hbefore
    rw [← hbefore, List.append_cancel_left_eq, List.self_eq_append_right]
    constructor
    · rintro (⟨hbreak, -⟩ | ⟨hfirst, -⟩)
      · exact absurd (hbreak ▸ List.mem_cons_self) layout.plain_inFront
      · exact ⟨hfirst, fun h => absurd habove h⟩
    · rintro ⟨hfirst, -⟩
      exact .inr ⟨hfirst, _, layout.reached_trail_isPrefix, hafter⟩
  · have hlead : layout.lead = ['\n'] := if_neg habove
    have htrail : layout.trail = [] := if_neg fun h => habove h.1
    rw [hlead] at hbefore
    rw [htrail, List.append_nil] at hafter
    rw [← hbefore, ← hafter, List.append_cancel_left_eq, List.self_eq_append_right]
    simp [habove]

theorem isMark_of_not_separates (h : ¬ token.separates = true) : token.kind.isMark = false := by
  rw [Token.separates, Bool.or_eq_true, not_or] at h
  exact Bool.eq_false_iff.2 h.2

/-- A token that starts behind the stretch, where it is reached, starts in what is removed. -/
theorem startsIn_removed (h : token.StartsIn (layout.before ++ layout.text) layout.reached) :
    token.StartsIn layout.keptFront layout.removed := by
  obtain ⟨front, rest, hreached, hrest, hspot⟩ := h
  refine ⟨layout.lead ++ (layout.inFront ++ (layout.text ++ front)), rest ++ layout.trail, ?_, ?_,
    ?_⟩
  · rw [removed, hreached]
    simp
  · simp [hrest]
  · rw [← hspot, ← keptFront_append]
    simp

/-- A token of the stretch does not start behind it. -/
theorem Shows.not_startsIn_of_mem (h : layout.Shows source binding own) (hown : token ∈ own)
    (hword : token.kind.isMark = false) :
    ¬ token.StartsIn (layout.before ++ layout.text) layout.reached := by
  intro hstarts
  obtain ⟨-, -, -, -, hlaid, -⟩ := h.tokens
  obtain ⟨front, word, rest, htext, hspans⟩ := hlaid.exists_spans hown hword
  have hpart : source.toList = (layout.before ++ layout.text)
      ++ (layout.reached ++ (layout.trail ++ layout.keptBack)) := by
    rw [h.whole, ← append_keptBack]
    simp
  have hat : source.toList = (layout.before ++ front) ++ (word ++ (rest ++ layout.after)) := by
    rw [h.whole, htext]
    simp
  obtain ⟨ahead, -, -, -, hfront⟩ := hstarts.eq_append hspans hpart hat
  -- The word would stand both in the stretch and behind all of it.
  have hlength := congrArg List.length hfront
  have hword := List.length_pos_of_ne_nil hspans.nonempty
  rw [htext] at hlength
  simp only [List.length_append] at hlength
  omega

/-- With nothing in front of the stretch, no token in front of it starts in what is removed. -/
theorem not_startsIn_of_spans {front word rest : List Char} (hfirst : layout.inFront = [])
    (hwhole : source.toList = layout.before ++ (layout.text ++ layout.after))
    (hbefore : layout.before = front ++ (word ++ rest)) (hspans : token.Spans front word) :
    ¬ token.StartsIn layout.keptFront layout.removed := by
  intro hstarts
  have hat : source.toList = front ++ (word ++ (rest ++ (layout.text ++ layout.after))) := by
    rw [hwhole, hbefore]
    simp
  obtain ⟨ahead, left, -, -, rfl⟩ :=
    hstarts.eq_append hspans (hwhole.trans layout.eq_kept_append) hat
  rw [← keptFront_append, hfirst, List.append_nil, List.append_assoc,
    List.append_cancel_left_eq] at hbefore
  obtain ⟨c, hc⟩ := List.exists_mem_of_ne_nil word hspans.nonempty
  have hlead : c ∈ layout.lead := by
    rw [hbefore]
    simp [hc]
  rcases layout.lead_eq_nil_or with hnil | hbreak
  · rw [hnil] at hlead
    cases hlead
  · rw [hbreak, List.mem_singleton] at hlead
    exact hspans.plain (hlead ▸ hc)

/-- With nothing in front of the stretch, a token behind it that starts in what is removed starts
    where the rest of the line is reached: no token starts with the line break. -/
theorem startsIn_reached {front word rest : List Char} (hfirst : layout.inFront = [])
    (hwhole : source.toList = layout.before ++ (layout.text ++ layout.after))
    (hafter : layout.after = front ++ (word ++ rest))
    (hspans : token.Spans (layout.before ++ layout.text ++ front) word)
    (hstarts : token.StartsIn layout.keptFront layout.removed) :
    token.StartsIn (layout.before ++ layout.text) layout.reached := by
  have hat : source.toList = (layout.before ++ layout.text ++ front) ++ (word ++ rest) := by
    rw [hwhole, hafter]
    simp
  obtain ⟨ahead, left, hremoved, hleft, hahead⟩ :=
    hstarts.eq_append hspans (hwhole.trans layout.eq_kept_append) hat
  have hbehind : layout.reached ++ layout.trail = front ++ left := by
    rw [← keptFront_append, hfirst, List.append_nil, List.append_assoc, List.append_assoc,
      List.append_cancel_left_eq] at hahead
    rw [removed, hfirst, ← hahead, List.nil_append, List.append_assoc, List.append_cancel_left_eq,
      List.append_assoc, List.append_cancel_left_eq] at hremoved
    exact hremoved
  -- The token's word starts with what is left, which is no line break.
  have hword : word ++ rest = left ++ layout.keptBack := by
    have hall := layout.append_keptBack
    rw [hbehind, hafter, List.append_assoc, List.append_cancel_left_eq] at hall
    exact hall.symm
  have hbreak : ¬ left <:+ layout.trail := by
    intro hsuffix
    obtain ⟨c, others, rfl⟩ := List.exists_cons_of_ne_nil hspans.nonempty
    obtain ⟨d, others', rfl⟩ := List.exists_cons_of_ne_nil hleft
    obtain ⟨rfl, -⟩ := List.cons.inj hword
    have hmem : c ∈ layout.trail := hsuffix.subset List.mem_cons_self
    rcases layout.trail_eq_nil_or with hnil | hline
    · rw [hnil] at hmem
      cases hmem
    · rw [hline, List.mem_singleton] at hmem
      exact hspans.plain (hmem ▸ List.mem_cons_self)
  rcases List.append_eq_append_iff.1 hbehind with ⟨more, -, htrail⟩ | ⟨more, hreached, hmore⟩
  · exact absurd ⟨more, htrail.symm⟩ hbreak
  · refine ⟨front, more, hreached, ?_, hspans.start⟩
    rintro rfl
    exact hbreak (hmore ▸ List.suffix_rfl)

/-- A stretch that stands alone on its lines is laid out tidily. -/
theorem tidy_of_alone (hfirst : layout.inFront = []) (hbehind : layout.behind = []) :
    layout.Tidy source := by
  have hreached : layout.reached = [] := by
    rw [reached, hbehind, List.take_nil, ite_self]
  refine ⟨hfirst, fun _ => hreached, ?_⟩
  rintro token - ⟨front, rest, hparts, hrest, -⟩
  rw [hreached] at hparts
  exact absurd (List.append_eq_nil_iff.1 hparts.symm).2 hrest

/-- **A statement's removal takes nothing else away just if the statement is laid out tidily.** -/
theorem Shows.removesOnly_iff (h : layout.Shows source binding own) :
    layout.RemovesOnly source own ↔ layout.Tidy source := by
  constructor
  · intro honly
    obtain ⟨hfirst, hexact⟩ := (around_iff layout).1 honly.around
    refine ⟨hfirst, hexact, fun token htoken hstarts => ?_⟩
    rcases honly.spares token htoken (startsIn_removed hstarts) with hown | hseparates
    · by_contra hseparates
      exact h.not_startsIn_of_mem hown (isMark_of_not_separates hseparates) hstarts
    · exact hseparates
  · intro htidy
    refine ⟨fun token htoken hstarts => ?_, (around_iff layout).2 ⟨htidy.first, htidy.exact⟩⟩
    obtain ⟨ahead, behind, htokens, hahead, -, hbehind⟩ := h.tokens
    by_contra hother
    rw [not_or] at hother
    have hword : token.kind.isMark = false := isMark_of_not_separates hother.2
    rw [htokens, List.mem_append, List.mem_append] at htoken
    rcases htoken with hmem | hmem | hmem
    · obtain ⟨front, word, rest, hbefore, hspans⟩ := hahead.exists_spans hmem hword
      exact not_startsIn_of_spans htidy.first h.whole hbefore hspans hstarts
    · exact hother.1 hmem
    · obtain ⟨front, word, rest, hafter, hspans⟩ := hbehind.exists_spans hmem hword
      have hreached := startsIn_reached htidy.first h.whole hafter hspans hstarts
      exact hother.2 (htidy.clear token (by simp [htokens, hmem]) hreached)

end Layout

/-! ## Bindings and what is reported of them -/

/-- **A binding comes from an assignment that stands in the text**, from the binding's name on. -/
theorem exists_shows {source : String} {outline : ModuleOutline} (hplain : '\r' ∉ source.toList)
    (houtline : Outline.ofSource source = .ok outline) {binding : Binding}
    (hmem : binding ∈ outline.bindings) :
    ∃ layout own, Layout.Shows layout source binding own ∧ layout.text ≠ [] := by
  obtain ⟨ahead, target, equals, value, behind, last, htokens, hlast, hwords, hname, hequals, -,
    hrange⟩ := Outline.exists_assignment_of_mem_bindings houtline hmem
  have hlaid := Token.laid_scan hplain
  rw [htokens] at hlaid
  obtain ⟨front, others, hsource, hahead, hothers⟩ := hlaid.split
  obtain ⟨middle, back, rfl, hmiddle, hbehind⟩ := hothers.split
  obtain ⟨gap, core, tail, rfl, hcore, hgap, hown, htail, hstart, hstop⟩ :=
    hmiddle.trim hlast hwords
  refine ⟨.between (front ++ gap) core (tail ++ back), target :: equals :: value, ?_, hcore⟩
  have hbefore := Layout.before_between (front ++ gap) core (tail ++ back)
  have hafter := Layout.after_between (front ++ gap) core (tail ++ back)
  rw [List.nil_append] at hgap hown htail hstart hstop hbehind
  refine ⟨?_, ?_, ⟨target, equals, value, rfl, hname, hequals⟩, ahead, behind, htokens, ?_, ?_, ?_⟩
  · rw [hbefore, hafter, hsource]
    simp [Layout.between]
  · rw [hrange, Layout.range, hbefore]
    show Range.mk (spotBehind (front ++ gap)).position (spotBehind (front ++ gap ++ core)).position
      = _
    rw [hstart, hstop]
    rfl
  · rw [hbefore]
    simpa using hahead.append hgap
  · rw [hbefore]
    exact hown
  · rw [hbefore, hafter]
    show Laid (front ++ gap ++ core) (tail ++ back) behind
    exact htail.append (by simpa using hbehind)

/-- What is known of a module that is the whole project. -/
def bindingsAlone (path source : String) (outline : ModuleOutline) : Bindings :=
  ⟨outline.bindings.map fun b =>
    ⟨path, b.name, b.nameRange, removalRange (linesOf source) b.statement⟩, outline.used⟩

/-- The review of unused bindings reports on what is known of the one module. -/
theorem outcome_runOnce_alone {path source : String} {outline : ModuleOutline} {report : Report}
    (h : unusedBindingReview.reportOn (some (bindingsAlone path source outline)) = .ok report) :
    (unusedBindingReview.runOnce { modules := [⟨path, source, some outline⟩] }).outcome
      = .ok report := by
  have hupdate : (Cache.empty.update unusedBindingReview false
      { modules := [⟨path, source, some outline⟩] }).outcome
        = .ok ⟨none, none, [(path, bindingsAlone path source outline)], []⟩ := rfl
  have haggregate : Cache.aggregate unusedBindingReview
      ⟨none, none, [(path, bindingsAlone path source outline)], []⟩
        = .ok (some (bindingsAlone path source outline)) := rfl
  rw [Engine.outcome_runOnce, Engine.outcome_run, map_eq_ok]
  exact ⟨⟨report, _⟩, bind_eq_ok.2 ⟨_, hupdate, bind_eq_ok.2 ⟨_, haggregate,
    map_eq_ok.2 ⟨report, h, rfl⟩⟩⟩, rfl⟩

/-- What the review of unused bindings reports of a module that is the whole project comes from the
    module's bindings. -/
theorem exists_binding_of_mem_report (path source : String) (outline : ModuleOutline) :
    ∃ report, (unusedBindingReview.runOnce
        { modules := [⟨path, source, some outline⟩] }).outcome = .ok report ∧
      ∀ finding ∈ report.toList, ∃ binding ∈ outline.bindings, finding.range = binding.nameRange ∧
        finding.fixes = [Fix.removal (removalRange (linesOf source) binding.statement)] := by
  obtain ⟨report, hreport⟩ : ∃ report, unusedBindingReview.reportOn
      (some (bindingsAlone path source outline)) = .ok report :=
    ⟨_, Review.outcome_buildReport unusedBindingReview (bindingsAlone path source outline)⟩
  refine ⟨report, outcome_runOnce_alone hreport, fun finding hfinding => ?_⟩
  obtain ⟨findings, hfindings, harranges⟩ := Review.arranges_reportOn hreport
  obtain rfl := Except.ok.inj hfindings
  obtain ⟨given, hgiven, rfl⟩ := List.mem_map.1 (harranges.listed.perm.mem_iff.1 hfinding)
  obtain ⟨bound, hbound, rfl⟩ := List.mem_map.1 (List.mem_filter.1 hgiven).1
  obtain ⟨binding, hbinding, rfl⟩ := List.mem_map.1 (List.mem_filter.1 hbound).1
  exact ⟨binding, hbinding, rfl, rfl⟩

/-- **What the fix of an unused binding removes.** Every module that can be parsed can be reviewed
    by itself, and every finding is about a binding whose assignment stands in the text. The
    finding's fixes can be applied, and what they take away is known from how the assignment is laid
    out: itself, what stands in front of it on its line, at most one line break, and what is reached
    behind it. They take nothing of another statement away just if the assignment is laid out
    tidily, and so they do whenever it stands alone on its lines. -/
theorem unused_fix_removes_layout {path source : String} {parsed : Module}
    (hplain : '\r' ∉ source.toList) (hparsed : Module.parse path source = .ok parsed) :
    ∃ outline report, parsed.outline = some outline ∧
      (unusedBindingReview.runOnce { modules := [parsed] }).outcome = .ok report ∧
      ∀ finding ∈ report.toList, ∃ binding ∈ outline.bindings, ∃ layout own,
        finding.range = binding.nameRange ∧ Layout.Shows layout source binding own ∧
        source.toList = layout.keptFront ++ (layout.removed ++ layout.keptBack) ∧
        applyFixes finding.fixes source
          = .ok (String.ofList (layout.keptFront ++ layout.keptBack)) ∧
        (layout.RemovesOnly source own ↔ layout.Tidy source) ∧
        (layout.inFront = [] → layout.behind = [] → layout.RemovesOnly source own) := by
  rw [Module.parse] at hparsed
  split at hparsed
  · split at hparsed
    · next outline houtline =>
      obtain rfl := Except.ok.inj hparsed
      obtain ⟨report, hreport, hfindings⟩ := exists_binding_of_mem_report path source outline
      refine ⟨outline, report, rfl, hreport, fun finding hfinding => ?_⟩
      obtain ⟨binding, hbinding, hrange, hfixes⟩ := hfindings finding hfinding
      obtain ⟨layout, own, hshows, htext⟩ := exists_shows hplain houtline hbinding
      refine ⟨binding, hbinding, layout, own, hrange, hshows, ?_, ?_, hshows.removesOnly_iff, ?_⟩
      · rw [hshows.whole, layout.eq_kept_append]
      · rw [hfixes, ← hshows.range]
        exact Layout.applyFixes_removalRange hshows.whole htext
      · intro hfirst hbehind
        exact hshows.removesOnly_iff.2 (Layout.tidy_of_alone hfirst hbehind)
    · cases hparsed
  · split at hparsed
    · cases hparsed
    · cases hparsed

/-- The texts that come of fixing each finding on a module that is the whole project. -/
def fixedAlone (path source : String) : Option (List (Option String)) :=
  (Module.parse path source).toOption.bind fun parsed =>
    (unusedBindingReview.runOnce { modules := [parsed] }).outcome.toOption.map fun report =>
      report.toList.map fun finding => (applyFixes finding.fixes source).toOption

/-- An assignment over two lines, with a character of two bytes, is removed with the line break in
    front of it. -/
theorem unused_fix_removes_layout_two_lines :
    let source := "f = print\nx = f(\"é\",\n  2)\nprint(f)\n"
    '\r' ∉ source.toList ∧ ∃ parsed report finding binding layout own,
      Module.parse "m.py" source = .ok parsed ∧
      (unusedBindingReview.runOnce { modules := [parsed] }).outcome = .ok report ∧
      report.toList = [finding] ∧ Layout.Shows layout source binding own ∧
      applyFixes finding.fixes source = .ok "f = print\nprint(f)\n" ∧
      String.ofList (layout.keptFront ++ layout.keptBack) = "f = print\nprint(f)\n" := by
  intro source
  have hplain : '\r' ∉ source.toList := by decide +kernel
  have hfixed : fixedAlone "m.py" source = some [some "f = print\nprint(f)\n"] := by
    decide +kernel
  obtain ⟨parsed, hparsed, hreports⟩ := Option.bind_eq_some_iff.1 hfixed
  obtain ⟨report, hreport, hlist⟩ := Option.map_eq_some_iff.1 hreports
  obtain ⟨finding, hsingle, happlied⟩ := List.map_eq_singleton_iff.1 hlist
  rw [toOption_eq_some] at hparsed hreport happlied
  obtain ⟨outline, report', -, hreport', hall⟩ := unused_fix_removes_layout hplain hparsed
  obtain rfl := Except.ok.inj (hreport.symm.trans hreport')
  obtain ⟨binding, -, layout, own, -, hshows, -, hfixes, -⟩ := hall finding (by simp [hsingle])
  exact ⟨hplain, parsed, report, finding, binding, layout, own, hparsed, hreport, hsingle, hshows,
    happlied, Except.ok.inj (hfixes.symm.trans happlied)⟩

/-- **The fix takes other statements away.** One that stands in front of the assignment below the
    first line, one that stands behind it on the first line, and the start of one that stands behind
    characters of two bytes. -/
theorem unused_fix_removes_other_statements :
    fixedAlone "m.py" "print(1)\nprint(2); x = 3\n" = some [some "print(1)\n"] ∧
    fixedAlone "m.py" "x = 1; print(2)\n" = some [some ""] ∧
    fixedAlone "m.py" "print(1)\nx = \"ééé\"; print(2)\n" = some [some "print(1)rint(2)\n"] := by
  decide +kernel

end ProjectReview
