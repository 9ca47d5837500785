import ProjectReview.Proofs.Outcomes
import ProjectReview.Proofs.Tokens

set_option autoImplicit false

/-! # Statements as stretches of tokens

The readers of the grammar take tokens from the front and never a mark, and the last token that they
note is the last one that they took (`readersTake`, by induction on the fuel for all of them
together). So every statement of an outline is a stretch of the module's tokens, from its start to
its stop (`hasStatement_of_linesAt`), and a binding comes from a stretch that starts with its name
and an equals sign (`exists_assignment_of_mem_bindings`). -/

namespace ProjectReview

namespace Outline

/-! ## Expressions -/

/-- From the front of the tokens a stretch without marks is taken, up to a last token; the rest is
    left. -/
def Takes (tokens : List Token) (last : Token) (rest : List Token) : Prop :=
  ∃ own, tokens = own ++ rest ∧ own.getLast? = some last ∧
    ∀ token ∈ own, token.kind.isMark = false

section Takes

variable {tokens rest more : List Token} {token last next : Token}

theorem Takes.one (h : token.kind.isMark = false) : Takes (token :: rest) token rest :=
  ⟨[token], rfl, rfl, by simpa using h⟩

/-- What is taken from the rest comes behind what was taken before. -/
theorem Takes.trans (h : Takes tokens last rest) (hmore : Takes rest next more) :
    Takes tokens next more := by
  obtain ⟨own, rfl, -, hwords⟩ := h
  obtain ⟨behind, rfl, hlast, hwords'⟩ := hmore
  refine ⟨own ++ behind, (List.append_assoc _ _ _).symm, ?_, ?_⟩
  · rw [List.getLast?_append, hlast]
    rfl
  · intro token htoken
    exact (List.mem_append.1 htoken).elim (hwords token) (hwords' token)

/-- One more token is taken from the rest. -/
theorem Takes.concat (h : Takes tokens last (token :: rest)) (hword : token.kind.isMark = false) :
    Takes tokens token rest :=
  h.trans (.one hword)

/-- One more token is taken in front. -/
theorem Takes.cons (h : Takes tokens last rest) (hword : token.kind.isMark = false) :
    Takes (token :: tokens) last rest :=
  Takes.trans (.one hword) h

theorem isMark_of_symbol {c : Char} (h : token.kind = .symbol c) : token.kind.isMark = false := by
  rw [h]
  rfl

theorem expect_eq_ok {c : Char} (h : expect c tokens = .ok (token, rest)) :
    tokens = token :: rest ∧ token.kind = .symbol c := by
  cases tokens with
  | nil => cases h
  | cons first others =>
    rw [expect] at h
    split at h
    · next hkind =>
      obtain ⟨rfl, rfl⟩ := Prod.mk.inj (Except.ok.inj h)
      exact ⟨rfl, hkind⟩
    · cases h

theorem eq_cons_of_at? {c : Char} (h : at? c tokens = true) :
    ∃ token rest, tokens = token :: rest ∧ token.kind = .symbol c := by
  cases tokens with
  | nil => cases h
  | cons token rest => exact ⟨token, rest, rfl, by simpa [at?] using h⟩

end Takes

/-- With that much fuel, the readers of expressions take stretches: from the front of the tokens, or
    behind what has been read already. -/
structure ReadersTake (fuel : Nat) : Prop where
  sum : ∀ {tokens : List Token} {read : Read}, sumAt fuel tokens = .ok read →
    Takes tokens read.last read.rest
  atom : ∀ {tokens : List Token} {read : Read}, atomAt fuel tokens = .ok read →
    Takes tokens read.last read.rest
  calls : ∀ {tokens : List Token} {read result : Read}, callsAt fuel read = .ok result →
    Takes tokens read.last read.rest → Takes tokens result.last result.rest
  arguments : ∀ {tokens : List Token} {read : Read}, argumentsAt fuel tokens = .ok read →
    Takes tokens read.last read.rest

namespace ReadersTake

variable {fuel : Nat} {tokens : List Token} {read result : Read}

theorem zero : ReadersTake 0 where
  sum h := by rw [sumAt] at h; cases h
  atom h := by rw [atomAt] at h; cases h
  calls h := by rw [callsAt] at h; cases h
  arguments h := by rw [argumentsAt] at h; cases h

theorem sum_succ (ih : ReadersTake fuel) (h : sumAt (fuel + 1) tokens = .ok read) :
    Takes tokens read.last read.rest := by
  rw [sumAt] at h
  split at h
  · cases h
  · next first hfirst =>
    have htakes := ih.atom hfirst
    split at h
    · next plus rest hrest =>
      split at h
      · next hplus =>
        split at h
        · cases h
        · next others hothers =>
          obtain rfl := Except.ok.inj h
          have hbehind := ih.sum hothers
          rw [hrest] at htakes
          exact (htakes.concat (isMark_of_symbol hplus)).trans hbehind
      · obtain rfl := Except.ok.inj h
        exact htakes
    · obtain rfl := Except.ok.inj h
      exact htakes

theorem atom_succ (ih : ReadersTake fuel) (h : atomAt (fuel + 1) tokens = .ok read) :
    Takes tokens read.last read.rest := by
  cases tokens with
  | nil =>
    rw [atomAt] at h
    cases h
  | cons token rest =>
    rw [atomAt] at h
    split at h
    · next text hkind =>
      split at h
      · cases h
      · exact ih.calls h (.one (by rw [hkind]; rfl))
    · next hkind => exact ih.calls h (.one (by rw [hkind]; rfl))
    · next hkind => exact ih.calls h (.one (by rw [hkind]; rfl))
    · next hopen =>
      split at h
      · cases h
      · next inner hinner =>
        split at h
        · cases h
        · next close behind hclose =>
          obtain ⟨hrest, hkind⟩ := expect_eq_ok hclose
          have htakes := (ih.sum hinner).cons (isMark_of_symbol hopen)
          rw [hrest] at htakes
          exact ih.calls h (htakes.concat (isMark_of_symbol hkind))
    · cases h

theorem calls_succ (ih : ReadersTake fuel) (h : callsAt (fuel + 1) read = .ok result)
    (htakes : Takes tokens read.last read.rest) : Takes tokens result.last result.rest := by
  rw [callsAt] at h
  split at h
  · next hat =>
    obtain ⟨opening, arguments, hrest, hopen⟩ := eq_cons_of_at? hat
    rw [hrest] at h htakes
    have hcalled := htakes.concat (isMark_of_symbol hopen)
    simp only [List.drop_one, List.tail_cons] at h
    split at h
    · next hclosed =>
      obtain ⟨close, behind, rfl, hclose⟩ := eq_cons_of_at? hclosed
      exact ih.calls h (hcalled.concat (isMark_of_symbol hclose))
    · split at h
      · cases h
      · next given hgiven =>
        have hbehind := ih.arguments hgiven
        exact ih.calls h (hcalled.trans hbehind)
  · obtain rfl := Except.ok.inj h
    exact htakes

theorem arguments_succ (ih : ReadersTake fuel) (h : argumentsAt (fuel + 1) tokens = .ok read) :
    Takes tokens read.last read.rest := by
  rw [argumentsAt] at h
  split at h
  · cases h
  · next first hfirst =>
    have htakes := ih.sum hfirst
    split at h
    · next hat =>
      obtain ⟨comma, rest, hrest, hcomma⟩ := eq_cons_of_at? hat
      rw [hrest] at h htakes
      split at h
      · cases h
      · next others hothers =>
        obtain rfl := Except.ok.inj h
        have hbehind := ih.arguments hothers
        exact (htakes.concat (isMark_of_symbol hcomma)).trans hbehind
    · split at h
      · cases h
      · next close behind hclose =>
        obtain rfl := Except.ok.inj h
        obtain ⟨hrest, hkind⟩ := expect_eq_ok hclose
        rw [hrest] at htakes
        exact htakes.concat (isMark_of_symbol hkind)

end ReadersTake

/-- **The readers of expressions take stretches of tokens.** -/
theorem readersTake (fuel : Nat) : ReadersTake fuel := by
  induction fuel with
  | zero => exact .zero
  | succ fuel ih => exact ⟨ih.sum_succ, ih.atom_succ, ih.calls_succ, ih.arguments_succ⟩

/-! ## Statements -/

/-- The statement is made of these tokens. -/
structure Statement.Of (statement : Statement) (own : List Token) : Prop where
  first : own.head? = some statement.start
  last : own.getLast? = some statement.stop
  words : ∀ token ∈ own, token.kind.isMark = false
  assigns : ∀ target, statement.targets = [target] →
    ∃ equals value, own = target :: equals :: value ∧ equals.kind = .symbol '='

/-- The targets of an assignment are names, each with an equals sign behind it, in front of its
    value. -/
theorem targetsAt_eq {tokens targets value : List Token} (h : targetsAt tokens = (targets, value)) :
    ∃ pairs : List (Token × Token), targets = pairs.map Prod.fst ∧
      tokens = (pairs.flatMap fun pair => [pair.1, pair.2]) ++ value ∧
      ∀ pair ∈ pairs, (∃ text, pair.1.kind = .name text) ∧ pair.2.kind = .symbol '=' := by
  fun_induction targetsAt tokens generalizing targets value with
  | case1 token equals rest text hkind hassign others behind hrest ih =>
    obtain ⟨rfl, rfl⟩ := Prod.mk.inj h
    obtain ⟨pairs, rfl, rfl, hpairs⟩ := ih hrest
    exact ⟨(token, equals) :: pairs, rfl, rfl,
      List.forall_mem_cons.2 ⟨⟨⟨text, hkind⟩, hassign.2⟩, hpairs⟩⟩
  | case2 =>
    obtain ⟨rfl, rfl⟩ := Prod.mk.inj h
    exact ⟨[], rfl, rfl, by simp⟩
  | case3 =>
    obtain ⟨rfl, rfl⟩ := Prod.mk.inj h
    exact ⟨[], rfl, rfl, by simp⟩
  | case4 =>
    obtain ⟨rfl, rfl⟩ := Prod.mk.inj h
    exact ⟨[], rfl, rfl, by simp⟩

/-- The front of a statement, up to its value: any targets, each with its sign. -/
structure Front (taken targets : List Token) : Prop where
  words : ∀ token ∈ taken, token.kind.isMark = false
  assigns : ∀ target, targets = [target] →
    ∃ equals, taken = [target, equals] ∧ equals.kind = .symbol '='

theorem Front.nil : Front [] [] :=
  ⟨by simp, by simp⟩

theorem front_of_targetsAt {tokens targets value : List Token}
    (h : targetsAt tokens = (targets, value)) :
    ∃ taken, tokens = taken ++ value ∧ Front taken targets := by
  obtain ⟨pairs, rfl, rfl, hpairs⟩ := targetsAt_eq h
  refine ⟨_, rfl, ?_, ?_⟩
  · intro token htoken
    obtain ⟨pair, hpair, htoken⟩ := List.mem_flatMap.1 htoken
    obtain ⟨⟨text, hname⟩, hequals⟩ := hpairs pair hpair
    simp only [List.mem_cons, List.not_mem_nil, or_false] at htoken
    rcases htoken with rfl | rfl
    · rw [hname]
      rfl
    · exact isMark_of_symbol hequals
  · intro target htarget
    obtain ⟨pair, rfl, rfl⟩ := List.map_eq_singleton_iff.1 htarget
    exact ⟨pair.2, rfl, (hpairs pair List.mem_cons_self).2⟩

/-- The targets of the statement at the front, and the tokens from its value on. -/
def frontAt (tokens : List Token) : List Token × List Token :=
  match tokens with
  | token :: operator :: rest =>
    match token.kind with
    | .name text =>
      if text ≠ "def" ∧ operator.kind = .addAssign then ([], rest) else targetsAt tokens
    | _ => ([], tokens)
  | _ => ([], tokens)

theorem statementAt_eq (fuel : Nat) (tokens : List Token) :
    statementAt fuel tokens = match sumAt fuel (frontAt tokens).2 with
      | .error line => .error line
      | .ok read => .ok (⟨(frontAt tokens).1, read.used, tokens.headD ⟨.fileEnd, 1, 0, 0⟩,
          read.last⟩, read.rest) :=
  rfl

theorem front_of_frontAt (tokens : List Token) :
    ∃ taken, tokens = taken ++ (frontAt tokens).2 ∧ Front taken (frontAt tokens).1 := by
  rw [frontAt.eq_def]
  split
  · next token operator rest =>
    split
    · next text hname =>
      split
      · next hadd =>
        refine ⟨[token, operator], rfl, ?_, by simp⟩
        simp [hname, hadd.2, TokenKind.isMark]
      · exact front_of_targetsAt rfl
    · exact ⟨[], rfl, .nil⟩
  · exact ⟨[], rfl, .nil⟩

/-- **A statement is made of the tokens that are read for it.** -/
theorem statementAt_eq_ok {fuel : Nat} {tokens rest : List Token} {statement : Statement}
    (h : statementAt fuel tokens = .ok (statement, rest)) :
    ∃ own, tokens = own ++ rest ∧ statement.Of own := by
  obtain ⟨taken, htokens, hfront⟩ := front_of_frontAt tokens
  rw [statementAt_eq] at h
  split at h
  · cases h
  · next read hsum =>
    obtain ⟨rfl, rfl⟩ := Prod.mk.inj (Except.ok.inj h)
    obtain ⟨own, hvalue, hlast, hwords⟩ := (readersTake fuel).sum hsum
    have hall : tokens = taken ++ own ++ read.rest := by
      rw [htokens, hvalue, List.append_assoc]
    refine ⟨taken ++ own, hall, ?_, ?_, ?_, ?_⟩
    · cases hown : taken ++ own with
      | nil =>
        rw [(List.append_eq_nil_iff.1 hown).2] at hlast
        cases hlast
      | cons first others =>
        rw [hall, hown]
        rfl
    · rw [List.getLast?_append, hlast]
      rfl
    · intro token htoken
      exact (List.mem_append.1 htoken).elim (hfront.words token) (hwords token)
    · intro target htarget
      obtain ⟨equals, rfl, hequals⟩ := hfront.assigns target htarget
      exact ⟨equals, own, rfl, hequals⟩

/-! ## Lines of statements -/

/-- The statement is made of a stretch of the tokens. -/
def HasStatement (tokens : List Token) (statement : Statement) : Prop :=
  ∃ ahead own behind, tokens = ahead ++ (own ++ behind) ∧ statement.Of own

theorem HasStatement.of_suffix {tokens rest : List Token} {statement : Statement}
    (h : HasStatement rest statement) (hrest : rest <:+ tokens) :
    HasStatement tokens statement := by
  obtain ⟨ahead, own, behind, rfl, hof⟩ := h
  obtain ⟨front, rfl⟩ := hrest
  exact ⟨front ++ ahead, own, behind, by rw [List.append_assoc], hof⟩

/-- The statements of a line are stretches of its tokens, and the line is read from the front. -/
theorem hasStatement_of_statementsAt {fuel : Nat} {tokens rest : List Token}
    {statements : List Statement} (h : statementsAt fuel tokens = .ok (statements, rest)) :
    rest <:+ tokens ∧ ∀ statement ∈ statements, HasStatement tokens statement := by
  induction fuel generalizing tokens rest statements with
  | zero =>
    rw [statementsAt] at h
    cases h
  | succ fuel ih =>
    rw [statementsAt] at h
    split at h
    · cases h
    · next statement behind hstatement =>
      obtain ⟨own, rfl, hof⟩ := statementAt_eq_ok hstatement
      have hfirst : HasStatement (own ++ behind) statement := ⟨[], own, behind, rfl, hof⟩
      have hsuffix : behind <:+ own ++ behind := List.suffix_append _ _
      split at h
      · next separator rest' =>
        have hafter : rest' <:+ own ++ separator :: rest' :=
          (List.suffix_cons separator rest').trans hsuffix
        split at h
        · obtain ⟨rfl, rfl⟩ := Prod.mk.inj (Except.ok.inj h)
          exact ⟨hafter, by simpa using hfirst⟩
        · split at h
          · split at h
            · next close rest'' =>
              split at h
              · obtain ⟨rfl, rfl⟩ := Prod.mk.inj (Except.ok.inj h)
                exact ⟨(List.suffix_cons close rest'').trans hafter, by simpa using hfirst⟩
              · split at h
                · cases h
                · next others behind hothers =>
                  obtain ⟨rfl, rfl⟩ := Prod.mk.inj (Except.ok.inj h)
                  obtain ⟨hrest, hall⟩ := ih hothers
                  refine ⟨hrest.trans hafter, List.forall_mem_cons.2 ⟨hfirst, ?_⟩⟩
                  exact fun other hother => (hall other hother).of_suffix hafter
            · cases h
          · cases h
      · cases h

theorem suffix_of_expect {c : Char} {tokens rest : List Token} {token : Token}
    (h : expect c tokens = .ok (token, rest)) : rest <:+ tokens := by
  rw [(expect_eq_ok h).1]
  exact List.suffix_cons token rest

theorem suffix_of_headAt {tokens rest : List Token} (h : headAt tokens = .ok rest) :
    rest <:+ tokens := by
  unfold headAt at h
  split at h
  · next name behind =>
    split at h
    · split at h
      · cases h
      · obtain ⟨⟨_, afterOpen⟩, hopen, h⟩ := bind_eq_ok.1 h
        obtain ⟨⟨_, afterClose⟩, hclose, h⟩ := bind_eq_ok.1 h
        obtain ⟨⟨_, body⟩, hcolon, h⟩ := bind_eq_ok.1 h
        obtain rfl : body = rest := Except.ok.inj h
        exact (suffix_of_expect hcolon).trans ((suffix_of_expect hclose).trans
          ((suffix_of_expect hopen).trans (List.suffix_cons name behind)))
    · cases h
  · cases h

/-- **The statements of an outline are stretches of its tokens.** -/
theorem hasStatement_of_linesAt {fuel : Nat} {tokens : List Token}
    {lines : List (Bool × List Statement)} (h : linesAt fuel tokens = .ok lines) :
    ∀ line ∈ lines, ∀ statement ∈ line.2, HasStatement tokens statement := by
  induction fuel generalizing tokens lines with
  | zero =>
    rw [linesAt] at h
    cases h
  | succ fuel ih =>
    -- A line of statements, at the front or behind the head of a function, and the lines below it.
    have hline {body : List Token} {inFunction : Bool} (hbody : body <:+ tokens)
        (h : ((statementsAt fuel body).bind fun read => (linesAt fuel read.2).bind fun others =>
          .ok ((inFunction, read.1) :: others)) = .ok lines) :
        ∀ line ∈ lines, ∀ statement ∈ line.2, HasStatement tokens statement := by
      obtain ⟨⟨statements, behind⟩, hstatements, h⟩ := bind_eq_ok.1 h
      obtain ⟨others, hothers, h⟩ := bind_eq_ok.1 h
      obtain rfl := Except.ok.inj h
      obtain ⟨hbehind, hall⟩ := hasStatement_of_statementsAt hstatements
      refine List.forall_mem_cons.2 ⟨fun statement hmem => ?_, fun line hmem statement hmem' => ?_⟩
      · exact (hall statement hmem).of_suffix hbody
      · exact (ih hothers line hmem statement hmem').of_suffix (hbehind.trans hbody)
    unfold linesAt at h
    split at h
    · obtain rfl := Except.ok.inj h
      simp
    · next token rest =>
      split at h
      · obtain rfl := Except.ok.inj h
        simp
      · intro line hmem statement hmem'
        exact (ih h line hmem statement hmem').of_suffix (List.suffix_cons token rest)
      · obtain ⟨body, hbody, h⟩ := bind_eq_ok.1 h
        exact hline ((suffix_of_headAt hbody).trans (List.suffix_cons token rest)) h
      · exact hline List.suffix_rfl h

/-- **A binding of an outline comes from a stretch of tokens that assigns to its name**; its ranges
    are those of the name and of the stretch. -/
theorem exists_assignment_of_mem_bindings {source : String} {outline : ModuleOutline}
    (h : ofSource source = .ok outline) {binding : Binding} (hmem : binding ∈ outline.bindings) :
    ∃ ahead target equals value behind last,
      Token.scan source = ahead ++ (target :: equals :: value ++ behind) ∧
      (target :: equals :: value).getLast? = some last ∧
      (∀ token ∈ target :: equals :: value, token.kind.isMark = false) ∧
      target.kind = .name binding.name ∧ equals.kind = .symbol '=' ∧
      binding.nameRange = span target target ∧ binding.statement = span target last := by
  rw [ofSource] at h
  obtain ⟨lines, hlines, rfl⟩ := map_eq_ok.1 h
  obtain ⟨line, hline, hmem⟩ := List.mem_flatMap.1 hmem
  obtain ⟨statement, hstatement, hbinding⟩ := List.mem_filterMap.1 hmem
  obtain ⟨ahead, own, behind, htokens, hof⟩ :=
    hasStatement_of_linesAt hlines line (List.mem_filter.1 hline).1 statement hstatement
  unfold bindingOf at hbinding
  split at hbinding
  · next target htarget =>
    split at hbinding
    · next text hname =>
      obtain rfl := Option.some.inj hbinding
      obtain ⟨equals, value, rfl, hequals⟩ := hof.assigns target htarget
      obtain rfl : target = statement.start := Option.some.inj hof.first
      exact ⟨ahead, _, equals, value, behind, statement.stop, htokens, hof.last, hof.words, hname,
        hequals, rfl, rfl⟩
    · cases hbinding
  · cases hbinding

end Outline

end ProjectReview
