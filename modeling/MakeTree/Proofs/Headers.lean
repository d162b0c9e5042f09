import MakeTree.Proofs.Endings
import MakeTree.Proofs.Manifests

/-! The lines that start rules and the links of conditionals, told from the lines alone. A line is the
header of a rule, or starts a link, by the constructs it stands in and by its text. The blocks that are
being read hold exactly the rules and the links that the lines before have started. -/
namespace MakeTree
open Text MakeTree.Action LineStream

def LogicalLine.header (line : LogicalLine) : RuleHeader :=
  let (name, behind) := cutAt ':' (trim line.text)
  let behind := behind.getD []
  let doubleColon := startsWith [':'] behind
  let prerequisites := (cutAt ';' (if doubleColon then behind.drop 1 else behind)).1
  ⟨trim name, words prerequisites, some line.location.path, doubleColon⟩

inductive Mark where
  | rule
  | link (header : Option Location)
  | otherwise (header : Option Location)
  deriving DecidableEq, Repr

structure Turn where
  marks : List Mark
  header : Option RuleHeader
  deriving DecidableEq, Repr

def statementTurn (marks : List Mark) (line : LogicalLine) : Turn :=
  match LineKind.of (trim line.text) with
  | .conditional => ⟨.link (some line.location) :: marks, none⟩
  | .rule => ⟨.rule :: marks, some line.header⟩
  | _ => ⟨marks, none⟩

def elseTurn (outer : List Mark) (start : Option Location) (rest : LogicalLine) : Turn :=
  match Keyword.ofLine? rest.text with
  | some .ifeq | some .ifneq => ⟨.link (some rest.location) :: outer, none⟩
  | _ =>
    if rest.text = [] ∨ startsWith ['#'] rest.text then ⟨.otherwise start :: outer, none⟩
    else statementTurn (.otherwise start :: outer) rest

def lineTurn : List Mark → LogicalLine → Turn
  | [], line => statementTurn [] line
  | .rule :: outer, line =>
    if startsWith ['\t'] line.text then ⟨.rule :: outer, none⟩ else lineTurn outer line
  | .link start :: outer, line => match Keyword.ofLine? line.text with
    | some .endif => ⟨outer, none⟩
    | some .otherwise => elseTurn outer start line.remainder
    | _ => statementTurn (.link start :: outer) line
  | .otherwise start :: outer, line => match Keyword.ofLine? line.text with
    | some .endif => ⟨outer, none⟩
    | _ => statementTurn (.otherwise start :: outer) line

def openMarks (lines : List LogicalLine) : List Mark :=
  lines.foldl (fun marks line => (lineTurn marks line).marks) []

def ruleHeaders : List Mark → List LogicalLine → List RuleHeader
  | _, [] => []
  | marks, line :: lines =>
    (lineTurn marks line).header.toList ++ ruleHeaders (lineTurn marks line).marks lines

def linkHeader? : List Mark → Option (Option Location)
  | [] => none
  | .rule :: outer => linkHeader? outer
  | .link header :: _ | .otherwise header :: _ => some header

theorem openMarksConcat (lines : List LogicalLine) (line : LogicalLine) :
    openMarks (lines ++ [line]) = (lineTurn (openMarks lines) line).marks := by
  simp [openMarks]

theorem ruleHeadersConcat (marks : List Mark) (lines : List LogicalLine) (line : LogicalLine) :
    ruleHeaders marks (lines ++ [line]) = ruleHeaders marks lines ++
      (lineTurn (lines.foldl (fun marks line => (lineTurn marks line).marks) marks) line).header.toList := by
  induction lines generalizing marks with
  | nil => simp [ruleHeaders]
  | cons first rest ih => simp [ruleHeaders, ih]

mutual

def Statement.headers : Statement → List RuleHeader
  | .rule name prerequisites definedIn _ doubleColon =>
    [⟨name, prerequisites, definedIn, doubleColon⟩]
  | .elseBranch statements => headersIn statements
  | .conditional block => block.headers
  | .comment _ | .inclusion _ | .exported .. | .unexported _ | .command _ | .cargo .. => []

def Conditional.headers : Conditional → List RuleHeader
  | .mk _ _ statements chained otherwise =>
    headersIn statements ++
    (match chained with
      | some last => last.headers
      | none => []) ++
    (match otherwise with
      | some statements => headersIn statements
      | none => [])

def headersIn : List Statement → List RuleHeader
  | [] => []
  | statement :: rest => statement.headers ++ headersIn rest

end

theorem headersAppend (first second : List Statement) :
    headersIn (first ++ second) = headersIn first ++ headersIn second := by
  induction first with
  | nil => rfl
  | cons statement rest ih => simp only [List.cons_append, headersIn, ih, List.append_assoc]

theorem headersAlone (statement : Statement) : headersIn [statement] = statement.headers := by
  rw [headersIn, headersIn, List.append_nil]

def linkHeaders (links : List Link) : List RuleHeader :=
  links.reverse.flatMap fun link => headersIn link.statements

def Block.headers : Block → List RuleHeader
  | .makefile statements => headersIn statements
  | .rule header _ _ => [header]
  | .link before current _ => linkHeaders (current :: before)
  | .otherwise before current _ statements =>
    linkHeaders (current :: before) ++ headersIn statements

def Block.marks : Block → List Mark
  | .makefile _ => []
  | .rule .. => [.rule]
  | .link _ _ start => [.link start]
  | .otherwise _ _ start _ => [.otherwise start]

def Begun.headers : Begun → List RuleHeader
  | .nothing => []
  | .whole statement => statement.headers
  | .opened block => block.headers

def Begun.marks : Begun → List Mark
  | .nothing | .whole _ => []
  | .opened block => block.marks

def Change.headers : Change → List RuleHeader
  | .stay block => block.headers
  | .nest block inner => block.headers ++ inner.headers
  | .close statements => headersIn statements

def Change.marks (outer : List Mark) : Change → List Mark
  | .stay block => block.marks ++ outer
  | .nest block inner => inner.marks ++ (block.marks ++ outer)
  | .close _ => outer

theorem linkHeadersCons (link : Link) (before : List Link) :
    linkHeaders (link :: before) = linkHeaders before ++ headersIn link.statements := by
  simp [linkHeaders]

theorem addAllHeaders {block : Block} (inside : block.stops ≠ none) (added : List Statement) :
    (block.addAll added).headers = block.headers ++ headersIn added := by
  cases block with
  | makefile statements => exact headersAppend statements added
  | rule header directory recipe => exact absurd rfl inside
  | link before current start =>
    simp only [Block.addAll, Block.headers, linkHeadersCons, headersAppend, List.append_assoc]
  | otherwise before current start statements =>
    simp only [Block.addAll, Block.headers, headersAppend, List.append_assoc]

theorem addAllMarks (block : Block) (added : List Statement) :
    (block.addAll added).marks = block.marks := by
  cases block <;> rfl

theorem withinHeaders {block : Block} (inside : block.stops ≠ none) (begun : Begun) :
    (begun.within block).headers = block.headers ++ begun.headers := by
  cases begun with
  | nothing => exact (List.append_nil _).symm
  | whole statement =>
    change (block.addAll [statement]).headers = _
    rw [addAllHeaders inside, headersAlone]
    rfl
  | opened inner => rfl

theorem withinMarks (block : Block) (begun : Begun) (outer : List Mark) :
    (begun.within block).marks outer = begun.marks ++ (block.marks ++ outer) := by
  cases begun with
  | nothing => rfl
  | whole statement =>
    change (block.addAll [statement]).marks ++ outer = _
    rw [addAllMarks]
    rfl
  | opened inner => rfl

theorem wrapHeaders (before : List Link) (last : Conditional) :
    (Link.wrap before last).headers = linkHeaders before ++ last.headers := by
  induction before generalizing last with
  | nil => rfl
  | cons link rest ih =>
    rw [wrapCons, ih, linkHeadersCons]
    simp [Conditional.headers]

theorem conditionalHeaders (before : List Link) (current : Link)
    (otherwise : Option (List Statement)) :
    headersIn [.conditional (Link.conditional before current otherwise)] =
      linkHeaders (current :: before) ++ (otherwise.map headersIn).getD [] := by
  rw [headersAlone, Statement.headers, conditionalWrap, wrapHeaders, linkHeadersCons]
  cases otherwise with
  | none => simp [Conditional.headers]
  | some statements => simp [Conditional.headers]

variable {setting : Setting} {block : Block} {line : LogicalLine}

theorem openRuleHeader {vars : Variables} {read : Block × Variables}
    (ok : (openRule setting vars (trim line.text) none (standing line.location)).result = .ok read) :
    ∃ directory recipe, read.1 = .rule line.header directory recipe := by
  unfold openRule at ok
  rw [bindSilent (stateApply none _), trimTrim] at ok
  simp only [LogicalLine.header]
  generalize cutAt ':' (trim line.text) = parts at ok ⊢
  obtain ⟨name, behind⟩ := parts
  cases behind with
  | none => cases ok
  | some behind =>
    refine iteOk (fun nameless => ?_) (iteOk (fun bare => ?_) fun stepped => ?_) ok
    · cases nameless
    · cases bare
      exact ⟨_, _, rfl⟩
    · obtain ⟨_, _, same⟩ := mapOk (returnResult _ _ _ ▸ stepped)
      cases same
      exact ⟨_, _, rfl⟩

theorem begunTurn {begun : Begun} (other : isInclude line.text = false)
    (reads : begun? setting line = .ok begun) (marks : List Mark) :
    begun.headers = (statementTurn marks line).header.toList ∧
      begun.marks ++ marks = (statementTurn marks line).marks := by
  rw [begunKind] at reads
  unfold statementTurn
  cases kind : LineKind.of (trim line.text) with
  | comment | assignment | command =>
    rw [kind] at reads
    cases reads
    exact ⟨rfl, rfl⟩
  | «variable» =>
    rw [kind] at reads
    obtain ⟨read, ok, rfl⟩ := mapOk reads
    obtain ⟨_, _, ⟨name, value, same⟩ | ⟨name, same⟩⟩ := leavesOk (readVariableLeaves _ _ _ _) ok
    · rw [same]
      exact ⟨rfl, rfl⟩
    · rw [same]
      exact ⟨rfl, rfl⟩
  | inclusion =>
    rw [(inclusionKind line.text).mp kind] at other
    cases other
  | conditional =>
    simp only [kind] at reads
    split at reads
    · cases reads
    · cases reads
      exact ⟨rfl, rfl⟩
  | stray keyword =>
    rw [kind] at reads
    cases reads
  | rule =>
    rw [kind] at reads
    obtain ⟨read, ok, rfl⟩ := mapOk reads
    obtain ⟨directory, recipe, same⟩ := openRuleHeader ok
    rw [same]
    exact ⟨rfl, rfl⟩

theorem beginsTurn {workDir : Text} {entered : Prop} {lines rest : List LogicalLine} {begun : Begun}
    (begins : Begins setting workDir entered line lines begun rest) (marks : List Mark) :
    begun.headers = (statementTurn marks line).header.toList ∧
      begun.marks ++ marks = (statementTurn marks line).marks := by
  cases begins with
  | here other reads => exact begunTurn other reads marks
  | inclusion allowed directive named opened =>
    unfold statementTurn
    rw [(inclusionKind line.text).mpr directive]
    exact ⟨rfl, rfl⟩

structure Turned (block : Block) (outer : List Mark) (line : LogicalLine) (change : Change) :
    Prop where
  headers : change.headers =
    block.headers ++ (lineTurn (block.marks ++ outer) line).header.toList
  marks : change.marks outer = (lineTurn (block.marks ++ outer) line).marks

theorem statementTurned {workDir : Text} {entered : Prop} {lines rest : List LogicalLine}
    {begun : Begun} {outer : List Mark} (inside : block.stops ≠ none)
    (begins : Begins setting workDir entered line lines begun rest)
    (turn : lineTurn (block.marks ++ outer) line = statementTurn (block.marks ++ outer) line) :
    Turned block outer line (begun.within block) := by
  obtain ⟨headers, marks⟩ := beginsTurn begins (block.marks ++ outer)
  constructor
  · rw [withinHeaders inside, headers, turn]
  · rw [withinMarks, marks, turn]

theorem passTurn {stops : List Keyword} {outer : List Mark} (inside : block.stops = some stops)
    (top : block.isMakefile = true → outer = []) (passes : line.Passes stops) :
    lineTurn (block.marks ++ outer) line = statementTurn (block.marks ++ outer) line := by
  cases block with
  | makefile statements =>
    rw [top rfl]
    rfl
  | rule header directory recipe => cases inside
  | link before current start =>
    cases Option.some.inj inside
    simp only [Block.marks, List.singleton_append, lineTurn]
    split
    · rename_i keyword
      exact absurd (List.mem_cons_self ..) (passes _ keyword)
    · rename_i keyword
      exact absurd (List.mem_cons_of_mem _ (List.mem_cons_self ..)) (passes _ keyword)
    · rfl
  | otherwise before current start statements =>
    cases Option.some.inj inside
    simp only [Block.marks, List.singleton_append, lineTurn]
    split
    · rename_i keyword
      exact absurd (List.mem_cons_self ..) (passes _ keyword)
    · rfl

theorem recipeTurned {header : RuleHeader} {directory next : Text} {recipe steps : List Statement}
    (tab : startsWith ['\t'] line.text = true) (outer : List Mark) :
    Turned (.rule header directory recipe) outer line (.stay (.rule header next steps)) := by
  constructor
  · simp [Block.marks, lineTurn, tab, Change.headers, Block.headers]
  · simp [Block.marks, lineTurn, tab, Change.marks]

theorem elseKeyword {outer : List Mark} {start : Option Location}
    (keyword : Keyword.ofLine? line.text = some .otherwise) :
    lineTurn (.link start :: outer) line = elseTurn outer start line.remainder := by
  simp only [lineTurn, keyword]

theorem elsePasses {outer : List Mark} {start : Option Location} {rest : LogicalLine}
    (unconditional : rest.Passes [.ifeq, .ifneq]) :
    elseTurn outer start rest =
      if rest.text = [] ∨ startsWith ['#'] rest.text then ⟨.otherwise start :: outer, none⟩
      else statementTurn (.otherwise start :: outer) rest := by
  unfold elseTurn
  split
  · rename_i keyword
    exact absurd (List.mem_cons_self ..) (unconditional _ keyword)
  · rename_i keyword
    exact absurd (List.mem_cons_of_mem _ (List.mem_cons_self ..)) (unconditional _ keyword)
  · rfl

theorem chainTurned {before : List Link} {current link : Link} {start : Option Location}
    (keyword : Keyword.ofLine? line.text = some .otherwise) (opens : line.remainder.Opens link)
    (outer : List Mark) :
    Turned (.link before current start) outer line
      (.stay (.link (current :: before) link (some line.location))) := by
  have turn : elseTurn outer start line.remainder = ⟨.link (some line.location) :: outer, none⟩ := by
    unfold elseTurn
    rcases opens.keyword with keyword | keyword
    · rw [keyword]
      rfl
    · rw [keyword]
      rfl
  have none : headersIn link.statements = [] := by rw [opens.link]; rfl
  constructor
  · simp only [Block.marks, List.singleton_append, elseKeyword keyword, turn]
    simp [Change.headers, Block.headers, linkHeadersCons, none]
  · simp only [Block.marks, List.singleton_append, elseKeyword keyword, turn]
    rfl

theorem bareTurned {before : List Link} {current : Link} {start : Option Location}
    (keyword : Keyword.ofLine? line.text = some .otherwise) (bare : line.remainder.Bare)
    (outer : List Mark) :
    Turned (.link before current start) outer line
      (.stay (.otherwise before current start [])) := by
  have unconditional : line.remainder.Passes [.ifeq, .ifneq] :=
    fun other found => absurd found (bareKeyword bare other)
  have turn : lineTurn ((Block.link before current start).marks ++ outer) line =
      ⟨.otherwise start :: outer, none⟩ := by
    simp only [Block.marks, List.singleton_append, elseKeyword keyword, elsePasses unconditional]
    exact if_pos bare
  constructor
  · rw [turn]
    simp [Change.headers, Block.headers, headersIn]
  · rw [turn]
    rfl

theorem otherwiseTurned {before : List Link} {current : Link} {start : Option Location}
    {workDir : Text} {entered : Prop} {lines rest : List LogicalLine} {begun : Begun}
    (keyword : Keyword.ofLine? line.text = some .otherwise)
    (unconditional : line.remainder.Passes [.ifeq, .ifneq]) (solid : ¬line.remainder.Bare)
    (begins : Begins setting workDir entered line.remainder lines begun rest) (outer : List Mark) :
    Turned (.link before current start) outer line
      (begun.within (.otherwise before current start [])) := by
  have inside : (Block.otherwise before current start []).stops ≠ none := by simp [Block.stops]
  obtain ⟨headers, marks⟩ := beginsTurn begins (.otherwise start :: outer)
  have turn : lineTurn ((Block.link before current start).marks ++ outer) line =
      statementTurn (.otherwise start :: outer) line.remainder := by
    simp only [Block.marks, List.singleton_append, elseKeyword keyword, elsePasses unconditional]
    exact if_neg solid
  constructor
  · rw [withinHeaders inside, headers, turn]
    simp [Block.headers, headersIn]
  · rw [withinMarks, turn]
    exact marks

inductive Block.Turns (block : Block) (outer : List Mark) (lines : List LogicalLine)
    (change : Change) : Prop where
  | takes {line behind} (split : lines = line :: behind) (own : block.takes line.text = true)
      (turned : Turned block outer line change) : Turns block outer lines change
  | leaves {statements} (closed : change = .close statements)
      (whole : headersIn statements = block.headers)
      (passed : ∀ line ∈ lines.head?, block.takes line.text = false ∧
        lineTurn (block.marks ++ outer) line = lineTurn outer line)
      (inside : linkHeader? (block.marks ++ outer) = linkHeader? outer) :
      Turns block outer lines change

theorem movesTurns {workDir : Text} {entered : Prop} {lines rest : List LogicalLine}
    {change : Change} (moves : block.Moves setting workDir entered lines change rest)
    {outer : List Mark} (top : block.isMakefile = true → outer = []) :
    block.Turns outer lines change := by
  cases moves with
  | finish => exact .leaves rfl rfl (by simp) rfl
  | statement inside passes begins =>
    have open' : block.stops ≠ none := by simp [inside]
    refine .takes rfl ?_ (statementTurned open' begins (passTurn inside top passes))
    cases block with
    | rule => cases inside
    | makefile | link | otherwise => rfl
  | step tab solid reads => exact .takes rfl tab (recipeTurned tab outer)
  | blank tab blank => exact .takes rfl tab (recipeTurned tab outer)
  | ended other =>
    -- To a line that is none of its recipe a rule makes no difference.
    refine .leaves rfl (headersAlone _) (fun line head => ⟨other line head, ?_⟩) rfl
    simp [Block.marks, lineTurn, other line head]
  | endLink keyword =>
    refine .takes rfl rfl ⟨?_, ?_⟩
    · simp [Block.marks, lineTurn, keyword, Change.headers, Block.headers, conditionalHeaders]
    · simp [Block.marks, lineTurn, keyword, Change.marks]
  | endOtherwise keyword =>
    refine .takes rfl rfl ⟨?_, ?_⟩
    · simp [Block.marks, lineTurn, keyword, Change.headers, Block.headers, conditionalHeaders]
    · simp [Block.marks, lineTurn, keyword, Change.marks]
  | chain keyword opens => exact .takes rfl rfl (chainTurned keyword opens outer)
  | otherwise keyword bare => exact .takes rfl rfl (bareTurned keyword bare outer)
  | otherwiseWith keyword unconditional solid begins =>
    exact .takes rfl rfl (otherwiseTurned keyword unconditional solid begins outer)

theorem statementHeader {marks : List Mark} {header : RuleHeader}
    (turn : (statementTurn marks line).header = some header) : header = line.header := by
  unfold statementTurn at turn
  split at turn
  · cases turn
  · exact (Option.some.inj turn).symm
  · cases turn

theorem beginsRule {workDir : Text} {entered : Prop} {lines rest : List LogicalLine} {begun : Begun}
    {around next : Block} {header : RuleHeader} {directory : Text} {recipe : List Statement}
    (begins : Begins setting workDir entered line lines begun rest)
    (opens : begun.within around = .nest next (.rule header directory recipe)) :
    header = line.header := by
  cases begun with
  | nothing | whole statement => cases opens
  | opened inner =>
    cases opens
    have turn : [header] = (statementTurn [] line).header.toList := (beginsTurn begins []).1
    refine @statementHeader _ [] _ ?_
    cases found : (statementTurn [] line).header with
    | none => rw [found] at turn; cases turn
    | some other => rw [found] at turn; cases turn; rfl

theorem movesRule {workDir : Text} {entered : Prop} {lines rest : List LogicalLine} {next : Block}
    {header : RuleHeader} {directory : Text} {recipe : List Statement}
    (moves : block.Moves setting workDir entered lines
      (.nest next (.rule header directory recipe)) rest) :
    ∃ line ∈ lines.head?, header.definedIn = some line.location.path := by
  generalize opened : Change.nest next (.rule header directory recipe) = change at moves
  cases moves with
  | statement inside passes begins =>
    exact ⟨_, rfl, by rw [beginsRule begins opened.symm]; rfl⟩
  | otherwiseWith keyword unconditional solid begins =>
    exact ⟨_, rfl, by rw [beginsRule begins opened.symm]; rfl⟩
  | finish | step | blank | ended | endLink | endOtherwise | chain | otherwise => cases opened

theorem turnHeader {marks : List Mark} {header : RuleHeader}
    (turn : (lineTurn marks line).header = some header) :
    header = line.header ∨ header = line.remainder.header := by
  induction marks with
  | nil => exact .inl (statementHeader turn)
  | cons mark outer ih =>
    cases mark with
    | rule =>
      unfold lineTurn at turn
      split at turn
      · cases turn
      · exact ih turn
    | link start =>
      unfold lineTurn at turn
      split at turn
      · cases turn
      · unfold elseTurn at turn
        split at turn
        · cases turn
        · cases turn
        · split at turn
          · cases turn
          · exact .inr (statementHeader turn)
      · exact .inl (statementHeader turn)
    | otherwise start =>
      unfold lineTurn at turn
      split at turn
      · cases turn
      · exact .inl (statementHeader turn)

theorem ruleHeaderLine {marks : List Mark} {lines : List LogicalLine} {header : RuleHeader}
    (member : header ∈ ruleHeaders marks lines) :
    ∃ line ∈ lines, (header = line.header ∨ header = line.remainder.header) ∧
      header.definedIn = some line.location.path := by
  induction lines generalizing marks with
  | nil => cases member
  | cons line rest ih =>
    rcases List.mem_append.mp member with here | later
    · have source := turnHeader (Option.mem_toList.mp here)
      refine ⟨line, List.mem_cons_self .., source, ?_⟩
      rcases source with rfl | rfl
      · rfl
      · rfl
    · obtain ⟨other, inside, source⟩ := ih later
      exact ⟨other, List.mem_cons_of_mem _ inside, source⟩

end MakeTree
