import MakeTree.Proofs.Handover

/-! What a block that is being read still demands of the lines before it, in terms of the grammar.
One move takes care of a part of the demand and leaves the rest, whatever the move; so a run of
moves to the end is a derivation, and a derivation says which moves to make. -/
namespace MakeTree
open Text MakeTree.Action

def Link.wrap (before : List Link) (last : Conditional) : Conditional :=
  before.foldl (fun chained l => .mk l.condition l.expected l.statements (some chained) none) last

theorem wrapCons (current : Link) (before : List Link) (last : Conditional) :
    Link.wrap (current :: before) last = Link.wrap before
      (.mk current.condition current.expected current.statements (some last) none) := rfl

theorem conditionalWrap (before : List Link) (current : Link)
    (otherwise : Option (List Statement)) :
    Link.conditional before current otherwise = Link.wrap before
      (.mk current.condition current.expected current.statements none otherwise) := rfl

def Block.Ends (setting : Setting) (lines : List LogicalLine) (total : List Statement)
    (rest : List LogicalLine) : Block → Prop
  | .makefile statements => ∃ more, AreBlocks setting [] lines more [] ∧ rest = [] ∧
      total = statements ++ more
  | .rule header directory recipe => ∃ steps, IsRecipe setting directory lines steps rest ∧
      total = [header.statement (recipe ++ steps)]
  | .link before current _ => ∃ more middle chained otherwise,
      AreBlocks setting [.endif, .otherwise] lines more middle ∧
      EndsLink setting middle chained otherwise rest ∧
      total = [.conditional (Link.wrap before (.mk current.condition current.expected
        (current.statements ++ more) chained otherwise))]
  | .otherwise before current _ statements => ∃ more last,
      AreBlocks setting [.endif] lines more (last :: rest) ∧
      Keyword.ofLine? last.text = some .endif ∧
      total = [.conditional (Link.conditional before current (some (statements ++ more)))]

def Change.Ends (setting : Setting) (lines : List LogicalLine) (total : List Statement)
    (rest : List LogicalLine) : Change → Prop
  | .stay block => block.Ends setting lines total rest
  | .nest block inner => ∃ statements middle, inner.Ends setting lines statements middle ∧
      (block.addAll statements).Ends setting middle total rest
  | .close statements => total = statements ∧ rest = lines

variable {setting : Setting} {workDir : Text} {entered : Prop} {block : Block} {line : LogicalLine}
  {lines middle rest : List LogicalLine} {first total : List Statement}

theorem addAllNil (block : Block) : block.addAll [] = block := by
  cases block <;> simp [Block.addAll]

theorem consEnds {stops : List Keyword} (inside : block.stops = some stops)
    (passes : line.Passes stops) (starts : IsBlock setting line lines first middle)
    (ends : (block.addAll first).Ends setting middle total rest) :
    block.Ends setting (line :: lines) total rest := by
  cases block with
  | makefile statements =>
    cases Option.some.inj inside
    obtain ⟨more, blocks, rfl, rfl⟩ := ends
    exact ⟨first ++ more, .cons passes starts blocks, rfl, List.append_assoc ..⟩
  | rule header directory recipe => cases inside
  | link before current start =>
    cases Option.some.inj inside
    obtain ⟨more, last, chained, otherwise, blocks, links, rfl⟩ := ends
    refine ⟨first ++ more, last, chained, otherwise, .cons passes starts blocks, links, ?_⟩
    simp only [List.append_assoc]
  | otherwise before current start statements =>
    cases Option.some.inj inside
    obtain ⟨more, last, blocks, keyword, rfl⟩ := ends
    refine ⟨first ++ more, last, .cons passes starts blocks, keyword, ?_⟩
    simp only [List.append_assoc]

theorem iteOk {α : Type} {c : Prop} [Decidable c] {x y : Action LineStream α} {s : LineStream}
    {a : α} {holds : Prop} (yes : (x none s).result = .ok a → holds)
    (no : (y none s).result = .ok a → holds)
    (ok : ((if c then x else y) none s).result = .ok a) : holds := by
  split at ok
  · exact yes ok
  · exact no ok

theorem openRuleOk {vars : Variables} {text : Text} {s : LineStream} {read : Block × Variables}
    (ok : (openRule setting vars text none s).result = .ok read) :
    ∃ header directory inline, read.1 = .rule header directory inline := by
  unfold openRule at ok
  rw [bindSilent (stateApply none s)] at ok
  generalize cutAt ':' (trim text) = parts at ok
  obtain ⟨name, behind⟩ := parts
  cases behind with
  | none => cases ok
  | some behind =>
    refine iteOk (fun nameless => ?_) (iteOk (fun bare => ?_) fun stepped => ?_) ok
    · cases nameless
    · cases bare
      exact ⟨_, _, _, rfl⟩
    · obtain ⟨read, _, same⟩ := mapOk (returnResult _ _ _ ▸ stepped)
      cases same
      exact ⟨_, _, _, rfl⟩

theorem begunOpened {inner : Block} (reads : begun? setting line = .ok (.opened inner)) :
    (∃ header directory inline, inner = .rule header directory inline) ∨
      isAssignment (trim line.text) = false ∧ ∃ link, line.trimmed.Opens link ∧
        inner = .link [] link (some line.location) := by
  rw [begunKind] at reads
  split at reads
  · cases reads
  · obtain ⟨_, _, same⟩ := mapOk reads
    cases same
  · cases reads
  · obtain ⟨_, _, same⟩ := mapOk reads
    cases same
  · rename_i kind
    obtain ⟨plain, keyword⟩ := (conditionalKind line.text).mp kind
    split at reads
    · cases reads
    · rename_i condition
      cases reads
      exact .inr ⟨plain, _, ⟨keyword, condition, rfl⟩, rfl⟩
  · cases reads
  · obtain ⟨block, ok, same⟩ := mapOk reads
    cases same
    exact .inl (openRuleOk ok)
  · cases reads

theorem begunConditional {link : Link} (plain : isAssignment (trim line.text) = false)
    (opens : line.trimmed.Opens link) :
    begun? setting line = .ok (.opened (.link [] link (some line.location))) := by
  obtain ⟨keyword, condition, rfl⟩ := opens
  have kind := (conditionalKind line.text).mpr ⟨plain, keyword⟩
  rw [begunKind, kind]
  exact if_neg condition

theorem begunNothing :
    begun? setting line = .ok .nothing ↔ LineKind.of (trim line.text) = .assignment := by
  rw [begunKind]
  constructor
  · intro reads
    split at reads
    · cases reads
    · obtain ⟨_, _, same⟩ := mapOk reads
      cases same
    · assumption
    · obtain ⟨_, _, same⟩ := mapOk reads
      cases same
    · split at reads
      · cases reads
      · cases reads
    · cases reads
    · obtain ⟨_, _, same⟩ := mapOk reads
      cases same
    · cases reads
  · intro kind
    rw [kind]

theorem openedPlain {inner : Block} (reads : begun? setting line = .ok (.opened inner)) :
    isInclude line.text = false := by
  rw [Bool.eq_false_iff]
  intro directive
  rw [begunKind, (inclusionKind line.text).mpr directive] at reads
  obtain ⟨_, _, same⟩ := mapOk reads
  cases same

theorem begunBlock {begun : Begun} (other : isInclude line.text = false)
    (reads : begun? setting line = .ok begun)
    (ends : (begun.within block).Ends setting lines total rest) :
    ∃ first middle, IsBlock setting line lines first middle ∧
      (block.addAll first).Ends setting middle total rest := by
  cases begun with
  | nothing =>
    refine ⟨[], lines, .assignment (begunNothing.mp reads), ?_⟩
    rw [addAllNil]
    exact ends
  | whole statement => exact ⟨[statement], lines, .single other reads, ends⟩
  | opened inner =>
    obtain ⟨statements, middle, inside, more⟩ := ends
    refine ⟨statements, middle, ?_, more⟩
    rcases begunOpened reads with ⟨header, directory, inline, rfl⟩ | ⟨plain, link, opens, rfl⟩
    · obtain ⟨steps, recipe, rfl⟩ := inside
      exact .rule reads recipe
    · obtain ⟨body, last, chained, otherwise, blocks, links, rfl⟩ := inside
      have fresh : link.statements = [] := by rw [opens.link]
      rw [fresh]
      exact .conditional plain opens blocks links

theorem blockBegun (starts : IsBlock setting line lines first middle)
    (ends : (block.addAll first).Ends setting middle total rest) :
    ∃ begun, isInclude line.text = false ∧ begun? setting line = .ok begun ∧
      (begun.within block).Ends setting lines total rest := by
  cases starts with
  | single other reads => exact ⟨_, other, reads, ends⟩
  | assignment assigns =>
    rw [addAllNil] at ends
    refine ⟨.nothing, ?_, begunNothing.mpr assigns, ends⟩
    rw [Bool.eq_false_iff]
    intro directive
    rw [(inclusionKind line.text).mpr directive] at assigns
    cases assigns
  | rule reads steps =>
    exact ⟨_, openedPlain reads, reads, _, middle, ⟨_, steps, rfl⟩, ends⟩
  | conditional plain opens body links =>
    rename_i link statements last chained otherwise
    have reads : begun? setting line = _ := begunConditional plain opens
    have fresh : link.statements = [] := by rw [opens.link]
    refine ⟨_, openedPlain reads, reads, _, middle, ⟨_, _, _, _, body, links, rfl⟩, ?_⟩
    rw [fresh]
    exact ends

theorem movesEnds {change : Change} {after : List LogicalLine}
    (moves : block.Moves setting workDir False lines change after)
    (ends : change.Ends setting after total rest) : block.Ends setting lines total rest := by
  cases moves with
  | finish =>
    obtain ⟨rfl, rfl⟩ := ends
    exact ⟨[], .nil, rfl, by simp⟩
  | statement inside passes begins =>
    cases begins with
    | here other reads =>
      obtain ⟨first, middle, starts, more⟩ := begunBlock other reads ends
      exact consEnds inside passes starts more
    | inclusion allowed => exact allowed.elim
  | step tab solid reads =>
    obtain ⟨steps, recipe, rfl⟩ := ends
    exact ⟨_ :: steps, .step tab solid reads recipe, by simp⟩
  | blank tab blank =>
    obtain ⟨steps, recipe, rfl⟩ := ends
    exact ⟨steps, .blank tab blank recipe, rfl⟩
  | ended other =>
    obtain ⟨rfl, rfl⟩ := ends
    exact ⟨[], .nil other, by simp⟩
  | endLink keyword =>
    obtain ⟨rfl, rfl⟩ := ends
    exact ⟨[], _, none, none, .nil, .endif keyword, by simp [conditionalWrap]⟩
  | endOtherwise keyword =>
    obtain ⟨rfl, rfl⟩ := ends
    exact ⟨[], _, .nil, keyword, by simp⟩
  | chain keyword opens =>
    obtain ⟨more, middle, chained, otherwise, body, links, rfl⟩ := ends
    refine ⟨[], _, _, none, .nil, .chain keyword opens body links, ?_⟩
    simp [wrapCons, opens.link]
  | otherwise keyword bare =>
    obtain ⟨more, last, body, ending, rfl⟩ := ends
    exact ⟨[], _, none, _, .nil, .otherwise keyword bare body ending, by simp [conditionalWrap]⟩
  | otherwiseWith keyword unconditional solid begins =>
    cases begins with
    | here other reads =>
      obtain ⟨first, middle, starts, more, last, body, ending, rfl⟩ := begunBlock other reads ends
      exact ⟨[], _, none, _, .nil, .otherwiseWith keyword unconditional solid starts body ending,
        by simp [conditionalWrap]⟩
    | inclusion allowed => exact allowed.elim

theorem statementMoves {stops : List Keyword} (inside : block.stops = some stops)
    (passes : line.Passes stops) (starts : IsBlock setting line lines first middle)
    (ends : (block.addAll first).Ends setting middle total rest) :
    ∃ change after, block.Moves setting workDir False (line :: lines) change after ∧
      change.Ends setting after total rest := by
  obtain ⟨begun, other, reads, ends⟩ := blockBegun starts ends
  exact ⟨_, lines, .statement inside passes (.here other reads), ends⟩

theorem linkMoves {before : List Link} {current : Link} {start : Option Location}
    {chained : Option Conditional} {otherwise : Option (List Statement)}
    (ends : EndsLink setting lines chained otherwise rest) :
    ∃ change after,
      (Block.link before current start).Moves setting workDir False lines change after ∧
      change.Ends setting after [.conditional (Link.wrap before
        (.mk current.condition current.expected current.statements chained otherwise))] rest := by
  cases ends with
  | endif keyword => exact ⟨_, _, .endLink keyword, rfl, rfl⟩
  | chain keyword opens body links =>
    refine ⟨_, _, .chain keyword opens, _, _, _, _, body, links, ?_⟩
    simp [wrapCons, opens.link]
  | otherwise keyword bare body ends =>
    exact ⟨_, _, .otherwise keyword bare, _, _, body, ends, by simp [conditionalWrap]⟩
  | otherwiseWith keyword unconditional solid starts body ends =>
    rename_i line lines statements middle others last
    have more : ((Block.otherwise before current start []).addAll statements).Ends setting middle
        [.conditional (Link.conditional before current (some (statements ++ others)))] rest :=
      ⟨others, last, body, ends, rfl⟩
    obtain ⟨begun, other, reads, inner⟩ := blockBegun starts more
    exact ⟨_, _, .otherwiseWith keyword unconditional solid (.here other reads), inner⟩

theorem endsMoves (workDir : Text) (ends : block.Ends setting lines total rest) :
    ∃ change after, block.Moves setting workDir False lines change after ∧
      change.Ends setting after total rest := by
  cases block with
  | makefile statements =>
    obtain ⟨more, blocks, rfl, rfl⟩ := ends
    cases blocks with
    | nil => exact ⟨_, [], .finish, List.append_nil _, rfl⟩
    | cons passes starts others =>
      rename_i first _ more
      exact statementMoves rfl passes starts ⟨more, others, rfl, (List.append_assoc ..).symm⟩
  | rule header directory recipe =>
    obtain ⟨steps, lines, rfl⟩ := ends
    cases lines with
    | nil other => exact ⟨_, _, .ended other, by rw [List.append_nil], rfl⟩
    | blank tab blank others => exact ⟨_, _, .blank tab blank, _, others, rfl⟩
    | step tab solid reads others =>
      exact ⟨_, _, .step tab solid reads, _, others, by rw [List.append_assoc]; rfl⟩
  | link before current start =>
    obtain ⟨more, middle, chained, otherwise, blocks, links, rfl⟩ := ends
    cases blocks with
    | nil =>
      rw [List.append_nil]
      exact linkMoves links
    | cons passes starts others =>
      refine statementMoves rfl passes starts ⟨_, _, _, _, others, links, ?_⟩
      simp only [List.append_assoc]
  | otherwise before current start statements =>
    obtain ⟨more, last, blocks, keyword, rfl⟩ := ends
    cases blocks with
    | nil => exact ⟨_, _, .endOtherwise keyword, by rw [List.append_nil], rfl⟩
    | cons passes starts others =>
      refine statementMoves rfl passes starts ⟨_, _, others, keyword, ?_⟩
      simp only [List.append_assoc]

def StackEnds (setting : Setting) (total : List Statement) :
    Block → List Block → List LogicalLine → Prop
  | block, [], lines => block.Ends setting lines total []
  | block, around :: outer, lines => ∃ statements middle,
      block.Ends setting lines statements middle ∧
      StackEnds setting total (around.addAll statements) outer middle

theorem stackMoves {next : Block} {outer : List Block} {after : List LogicalLine}
    (backward : ∀ statements rest, next.Ends setting after statements rest →
      block.Ends setting lines statements rest)
    (stack : StackEnds setting total next outer after) :
    StackEnds setting total block outer lines := by
  cases outer with
  | nil => exact backward _ _ stack
  | cons around outer =>
    obtain ⟨statements, middle, ends, rest⟩ := stack
    exact ⟨statements, middle, backward _ _ ends, rest⟩

theorem runsEnds {outer : List Block} (runs : block.Runs setting workDir False outer lines total) :
    StackEnds setting total block outer lines := by
  -- Backwards from the last move, where nothing is demanded any more.
  induction runs with
  | stay moves _ ih => exact stackMoves (fun _ _ ends => movesEnds moves ends) ih
  | nest moves _ ih =>
    obtain ⟨statements, middle, inside, stack⟩ := ih
    exact stackMoves (fun _ _ ends => movesEnds moves ⟨statements, middle, inside, ends⟩) stack
  | close moves _ ih => exact ⟨_, _, movesEnds moves ⟨rfl, rfl⟩, ih⟩
  | finish moves => exact movesEnds moves ⟨rfl, rfl⟩

end MakeTree
