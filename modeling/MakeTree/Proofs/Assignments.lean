import MakeTree.Proofs.LineEffects

/-! A line that is an assignment at top level is the same assignment inside a conditional, and behind
`else`. Only a variable with the name of a keyword makes a difference: a block looks for its keywords
before it reads a line as a statement, and so takes such an assignment for the keyword. -/
namespace MakeTree
open Text MakeTree.Action LineStream

def Outcome.unpeeked {σ α : Type} (o : Outcome σ α) : Outcome σ α :=
  { o with events := o.events.filter (· != .peeked) }

theorem unpeekedBehind {σ α : Type} (o : Outcome σ α) (events : List Event) :
    (o.behind events).unpeeked = (o.unpeeked).behind (events.filter (· != .peeked)) := by
  simp [Outcome.unpeeked, Outcome.behind]

namespace Action
variable {α : Type}

def ActsAs (x y : Action LineStream α) (s : LineStream) : Prop :=
  (x none s).unpeeked = (y none s).unpeeked

theorem actsSame {x y : Action LineStream α} {s : LineStream} (same : x none s = y none s) :
    x.ActsAs y s := congrArg Outcome.unpeeked same

theorem actsAtEnd {f : Bool → Action LineStream α} {y : Action LineStream α} {s : LineStream}
    (rest : (f s.eof).ActsAs y s) : (atEnd >>= f).ActsAs y s := by
  have asked : atEnd none s = ⟨[.peeked], s, .ok s.eof⟩ := rfl
  rw [ActsAs, bindReturned asked, unpeekedBehind]
  exact rest

theorem actsPeek {f : Text → Action LineStream α} {y : Action LineStream α} {s : LineStream}
    (rest : (f s.next).ActsAs y s) : (peek >>= f).ActsAs y s := by
  have asked : peek none s = ⟨[.peeked], s, .ok s.next⟩ := rfl
  rw [ActsAs, bindReturned asked, unpeekedBehind]
  exact rest

theorem actsBind {β : Type} {x y : Action LineStream α} {s : LineStream} (alike : x.ActsAs y s)
    (f : α → Action LineStream β) : (x >>= f).ActsAs (y >>= f) s := by
  unfold ActsAs at alike ⊢
  cases left : x none s with
  | mk before t result =>
    cases right : y none s with
    | mk after u other =>
      rw [left, right] at alike
      simp only [Outcome.unpeeked, Outcome.mk.injEq] at alike
      obtain ⟨same, rfl, rfl⟩ := alike
      cases result with
      | error failure =>
        rw [bindFailed left, bindFailed right]
        simp [Outcome.unpeeked, same]
      | ok a =>
        rw [bindReturned left, bindReturned right, unpeekedBehind, unpeekedBehind, same]

end Action

def assignIn (vars : Variables) (line : Text) (block : Block) :
    Action LineStream (Change × Variables) := do
  let _ ← LineStream.take false
  let vars ← assignLine vars line
  return (.stay block, vars)

variable {setting : Setting} {vars : Variables} {s : LineStream} {line : Text}

theorem assignmentPlain (assigns : LineKind.of (trim line) = .assignment) :
    isInclude line = false := by
  rw [Bool.eq_false_iff]
  intro directive
  rw [(inclusionKind line).mpr directive] at assigns
  cases assigns

theorem beginAssignment (assigns : LineKind.of (trim line) = .assignment) (block : Block) :
    readWithin setting vars block line none s =
      (do let vars ← assignLine vars (trim line); return (.stay block, vars) :
        Action LineStream (Change × Variables)) none s := by
  unfold readWithin
  unfold beginStatement
  simp only [assigns]
  rfl

theorem takeCongr {α : Type} {f g : Text → Action LineStream α}
    (same : ∀ text t, f text none t = g text none t) (s : LineStream) :
    (take false >>= f) none s = (take false >>= g) none s := by
  cases taken : take false none s with
  | mk events t result =>
    cases result with
    | error failure => rw [bindFailed taken, bindFailed taken]
    | ok text => rw [bindReturned taken, bindReturned taken, same]

theorem takeLinePlain {α : Type} (plain : isInclude s.next = false)
    (f : Text → Action LineStream α) :
    (takeLine >>= f) none s = (take false >>= f) none s := by
  have apply : takeLine none s = take (isInclude s.next) none s := rfl
  rw [bindApply, bindApply, apply, plain]

theorem takeAssigns (assigns : LineKind.of (trim s.next) = .assignment) (block : Block) :
    (takeLine >>= readWithin setting vars block) none s =
      assignIn vars (trim s.next) block none s := by
  rw [takeLinePlain (assignmentPlain assigns), takeThen]
  exact takeCongr (fun _ _ => beginAssignment assigns block) s

theorem bodyAssigns (more : s.eof = false) (assigns : LineKind.of (trim s.next) = .assignment)
    {block : Block} {stops : List Keyword} (inside : block.stops = some stops)
    (passes : ∀ keyword, Keyword.ofLine? s.next = some keyword → keyword ∉ stops) :
    (block.step setting vars).ActsAs (assignIn vars (trim s.next) block) s := by
  unfold Block.step
  cases block with
  | makefile statements =>
    refine actsAtEnd ?_
    rw [more]
    exact actsSame (takeAssigns assigns _)
  | rule header directory recipe => cases inside
  | link before current start =>
    cases Option.some.inj inside
    refine actsAtEnd ?_
    rw [more]
    refine actsPeek ?_
    simp only [keywordTrim]
    split
    · rename_i keyword
      exact absurd (List.mem_cons_self ..) (passes _ keyword)
    · rename_i keyword
      exact absurd (List.mem_cons_of_mem _ (List.mem_cons_self ..)) (passes _ keyword)
    · exact actsSame (takeAssigns assigns _)
  | otherwise before current start statements =>
    cases Option.some.inj inside
    refine actsAtEnd ?_
    rw [more]
    refine actsPeek ?_
    simp only [keywordTrim]
    split
    · rename_i keyword
      exact absurd (List.mem_cons_self ..) (passes _ keyword)
    · exact actsSame (takeAssigns assigns _)

theorem assignOnward {α : Type} (vars : Variables) (line : Text) (block : Block)
    (f : Change × Variables → Action LineStream α) (s : LineStream) :
    (assignIn vars line block >>= f) none s = (do
      let _ ← LineStream.take false
      let vars ← assignLine vars line
      f (.stay block, vars) : Action LineStream α) none s := by
  cases taken : take false none s with
  | mk events t result =>
    cases result with
    | error failure =>
      have failed : assignIn vars line block none s = ⟨events, t, .error failure⟩ :=
        bindFailed taken
      rw [bindFailed taken, bindFailed failed]
    | ok text =>
      obtain ⟨told, performs⟩ := assignLineApply vars line t
      have assigned : assignIn vars line block none s =
          ⟨events ++ [.told told, assignment line], t,
            .ok (.stay block, Event.apply vars (assignment line))⟩ := by
        rw [assignIn, bindReturned taken, bindReturned performs]
        rfl
      rw [bindReturned taken, bindReturned assigned, bindReturned performs]
      simp [Outcome.behind]

theorem runAssigns (more : s.eof = false) (assigns : LineKind.of (trim s.next) = .assignment)
    {block : Block} {stops : List Keyword} (inside : block.stops = some stops)
    (passes : ∀ keyword, Keyword.ofLine? s.next = some keyword → keyword ∉ stops) (fuel : Nat)
    (outer : List Block) :
    (block.run setting (fuel + 1) vars outer).ActsAs
      (do
        let _ ← LineStream.take false
        let vars ← assignLine vars (trim s.next)
        block.run setting fuel vars outer) s := by
  rw [Block.run]
  exact Eq.trans (actsBind (bodyAssigns more assigns inside passes) _)
    (actsSame (assignOnward vars _ block _ s))

theorem endStops (more : s.eof = false) (keyword : Keyword.ofLine? s.next = some .endif)
    {block : Block} {stops : List Keyword} (inside : block.stops = some stops)
    (stop : .endif ∈ stops) :
    ∃ statements, (block.step setting vars).ActsAs
      (do let _ ← take false; return (.close statements, vars)) s := by
  have plain := keywordPlain keyword
  unfold Block.step
  cases block with
  | makefile statements =>
    cases Option.some.inj inside
    cases stop
  | rule header directory recipe => cases inside
  | link before current start =>
    refine ⟨[.conditional (Link.conditional before current none)], actsAtEnd ?_⟩
    rw [more]
    refine actsPeek ?_
    simp only [keywordTrim, keyword]
    exact actsSame (takeLinePlain plain _)
  | otherwise before current start statements =>
    refine ⟨[.conditional (Link.conditional before current (some statements))], actsAtEnd ?_⟩
    rw [more]
    refine actsPeek ?_
    simp only [keywordTrim, keyword]
    exact actsSame (takeLinePlain plain _)

theorem elseTurns (more : s.eof = false) (keyword : Keyword.ofLine? s.next = some .otherwise)
    (before : List Link) (current : Link) (start : Option Location) :
    ((Block.link before current start).step setting vars).ActsAs
      (readElse setting vars before current start (afterFirstWord (trim s.next))) s := by
  unfold Block.step
  refine actsAtEnd ?_
  rw [more]
  refine actsPeek ?_
  simp only [keywordTrim, keyword]
  exact rfl

theorem hashTrim {t : Text} (comment : startsWith ['#'] t = true) :
    startsWith ['#'] (trim t) = true := by
  obtain ⟨more, rfl⟩ := List.isPrefixOf_iff_prefix.mp comment
  obtain ⟨behind, blank, split⟩ := trimSplit (['#'] ++ more)
  have whole : trimLeft (['#'] ++ more) = '#' :: more := rfl
  rw [whole] at split
  cases trimmed : trim (['#'] ++ more) with
  | nil =>
    rw [trimmed, List.nil_append] at split
    rw [← split] at blank
    cases blank
  | cons c rest =>
    rw [trimmed] at split
    cases split
    rfl

theorem remainderAssigns {rest : Text} (assigns : LineKind.of (trim rest) = .assignment)
    (noIfeq : Keyword.ofLine? rest ≠ some .ifeq) (noIfneq : Keyword.ofLine? rest ≠ some .ifneq)
    (before : List Link) (current : Link) (start : Option Location) :
    readElse setting vars before current start rest none s =
      assignIn vars (trim rest) (.otherwise before current start []) none s := by
  have solid : ¬(rest = [] ∨ startsWith ['#'] rest) := by
    rintro (rfl | comment)
    · cases assigns
    · simp [LineKind.of, hashTrim comment] at assigns
  unfold readElse
  rw [assignmentPlain assigns]
  refine takeCongr (fun _ t => ?_) s
  simp only [if_neg solid]
  exact beginAssignment assigns _

theorem remainderChains {rest : Text}
    (keyword : Keyword.ofLine? rest = some .ifeq ∨ Keyword.ofLine? rest = some .ifneq)
    (before : List Link) (current : Link) (start : Option Location) :
    readElse setting vars before current start rest none s =
      (do
        let _ ← take false
        let (link, start) ← openLink rest
        return (.stay (.link (current :: before) link start), vars) :
        Action LineStream (Change × Variables)) none s := by
  unfold readElse
  rw [keyword.elim keywordPlain keywordPlain]
  refine takeCongr (fun _ t => ?_) s
  rcases keyword with keyword | keyword
  · rw [keyword]
  · rw [keyword]

/-- What blocks make of the next line where it, or what stands behind its `else`, is an assignment at
top level. At top level and in a body the block stays as it is and a run goes on with the same blocks;
a rule before the line leaves it to the block around; behind `else` it starts a last branch with no
statement yet. A line whose first word a block stops at is never read as an assignment there. -/
structure StandsAlike (setting : Setting) (vars : Variables) (s : LineStream) : Prop where
  body : LineKind.of (trim s.next) = .assignment →
    ∀ (block : Block) stops, block.stops = some stops →
      (∀ keyword, Keyword.ofLine? s.next = some keyword → keyword ∉ stops) →
      (block.step setting vars).ActsAs (assignIn vars (trim s.next) block) s
  onward : LineKind.of (trim s.next) = .assignment →
    ∀ (block : Block) stops, block.stops = some stops →
      (∀ keyword, Keyword.ofLine? s.next = some keyword → keyword ∉ stops) →
      ∀ fuel outer, (block.run setting (fuel + 1) vars outer).ActsAs
        (do
          let _ ← LineStream.take false
          let vars ← assignLine vars (trim s.next)
          block.run setting fuel vars outer) s
  leaves : startsWith ['\t'] s.next = false → ∀ header directory recipe,
    ((Block.rule header directory recipe).step setting vars).ActsAs
      (return (.close [header.statement recipe], vars)) s
  remainder : ∀ rest, Keyword.ofLine? s.next = some .otherwise →
    rest = afterFirstWord (trim s.next) → LineKind.of (trim rest) = .assignment →
    Keyword.ofLine? rest ≠ some .ifeq → Keyword.ofLine? rest ≠ some .ifneq →
    ∀ before current start, ((Block.link before current start).step setting vars).ActsAs
      (assignIn vars (trim rest) (.otherwise before current start [])) s
  ends : Keyword.ofLine? s.next = some .endif →
    ∀ (block : Block) stops, block.stops = some stops → .endif ∈ stops →
    ∃ statements, (block.step setting vars).ActsAs
      (do let _ ← LineStream.take false; return (.close statements, vars)) s
  turns : Keyword.ofLine? s.next = some .otherwise → ∀ before current start,
    ((Block.link before current start).step setting vars).ActsAs
      (readElse setting vars before current start (afterFirstWord (trim s.next))) s
  chains : ∀ rest, Keyword.ofLine? s.next = some .otherwise →
    rest = afterFirstWord (trim s.next) →
    (Keyword.ofLine? rest = some .ifeq ∨ Keyword.ofLine? rest = some .ifneq) →
    ∀ before current start, ((Block.link before current start).step setting vars).ActsAs
      (do
        let _ ← LineStream.take false
        let (link, start) ← openLink rest
        return (.stay (.link (current :: before) link start), vars)) s

theorem assignmentsStand (setting : Setting) (vars : Variables) (s : LineStream)
    (more : s.eof = false) : StandsAlike setting vars s where
  body := fun assigns _ _ => bodyAssigns more assigns
  onward := fun assigns _ _ => runAssigns more assigns
  leaves := by
    intro other header directory recipe
    rw [ruleStep]
    refine actsPeek ?_
    rw [other]
    exact rfl
  remainder := by
    rintro rest keyword rfl assigns noIfeq noIfneq before current start
    exact Eq.trans (elseTurns more keyword before current start)
      (actsSame (remainderAssigns assigns noIfeq noIfneq before current start))
  ends := fun keyword _ _ => endStops more keyword
  turns := elseTurns more
  chains := by
    rintro rest keyword rfl conditional before current start
    exact Eq.trans (elseTurns more keyword before current start)
      (actsSame (remainderChains conditional before current start))

theorem linkAssigns : (LineStream.empty []).eof = false ∧
    ((Block.link [] ⟨['c'], true, []⟩ none).step ⟨⟨['/'], []⟩, ['/']⟩ .empty).ActsAs
      (assignIn .empty "A = 1".toList (.link [] ⟨['c'], true, []⟩ none))
      { LineStream.empty [] with next := "\tA = 1 ".toList } :=
  ⟨rfl, (assignmentsStand ⟨⟨['/'], []⟩, ['/']⟩ .empty
    { LineStream.empty [] with next := "\tA = 1 ".toList } rfl).body (by decide +kernel) _ _ rfl
    (by decide +kernel)⟩

/-- A variable called `endif`: an assignment by itself, and the end of the block in a body. -/
theorem endifAssigned :
    LineKind.of "endif = 1".toList = .assignment ∧
    ((Origin.text "Makefile".toList "endif = 1\n".toList).read ⟨['/'], []⟩ none 2).result.map
      (Option.map Makefile.vars) = .ok (some ⟨[("endif".toList, ['1'])], [], []⟩) ∧
    ((Origin.text "Makefile".toList "ifeq a\nendif = 1\nendif\n".toList).read ⟨['/'], []⟩
      none 3).result = .error ⟨.unmatched .endif, some ⟨"Makefile".toList, 3⟩⟩ := by
  decide +kernel

end MakeTree
