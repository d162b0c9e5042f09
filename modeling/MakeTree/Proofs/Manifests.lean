import MakeTree.Proofs.Derivation
import MakeTree.Proofs.RecipeSteps

/-! The recipes that have been read. In each of them, wherever its rule stands, the cargo steps run
where the steps before them lead: blocks are stepped one line at a time, and every move keeps this of
the recipes in them. -/
namespace MakeTree
open Text MakeTree.Action LineStream

mutual

def Statement.recipes : Statement → List (List Statement)
  | .rule _ _ _ recipe _ => [recipe]
  | .elseBranch statements => recipesIn statements
  | .conditional block => block.recipes
  | .comment _ | .inclusion _ | .exported .. | .unexported _ | .command _ | .cargo .. => []

def Conditional.recipes : Conditional → List (List Statement)
  | .mk _ _ statements chained otherwise =>
    recipesIn statements ++
    (match chained with
      | some last => last.recipes
      | none => []) ++
    (match otherwise with
      | some statements => recipesIn statements
      | none => [])

def recipesIn : List Statement → List (List Statement)
  | [] => []
  | statement :: rest => statement.recipes ++ recipesIn rest

end

theorem recipesAppend (first second : List Statement) :
    recipesIn (first ++ second) = recipesIn first ++ recipesIn second := by
  induction first with
  | nil => rfl
  | cons statement rest ih => simp only [List.cons_append, recipesIn, ih, List.append_assoc]

abbrev Recipe.Placed (setting : Setting) : List Statement → Prop :=
  Recipe.NameAll setting setting.root

def AllPlaced (setting : Setting) (recipes : List (List Statement)) : Prop :=
  ∀ recipe ∈ recipes, Recipe.Placed setting recipe

theorem nonePlaced (setting : Setting) : AllPlaced setting [] := by simp [AllPlaced]

theorem placedAppend {setting : Setting} {first second : List (List Statement)} :
    AllPlaced setting (first ++ second) ↔ AllPlaced setting first ∧ AllPlaced setting second := by
  simp only [AllPlaced, List.mem_append, or_imp, forall_and]

theorem placedTogether {setting : Setting} {first second : List Statement}
    (one : AllPlaced setting (recipesIn first)) (other : AllPlaced setting (recipesIn second)) :
    AllPlaced setting (recipesIn (first ++ second)) := by
  rw [recipesAppend]
  exact placedAppend.mpr ⟨one, other⟩

theorem placedAlone {setting : Setting} {statement : Statement}
    (placed : AllPlaced setting statement.recipes) : AllPlaced setting (recipesIn [statement]) := by
  rwa [recipesIn, recipesIn, List.append_nil]

def Block.Placed (setting : Setting) : Block → Prop
  | .makefile statements => AllPlaced setting (recipesIn statements)
  | .rule _ directory recipe =>
    Recipe.Placed setting recipe ∧ directory = Recipe.cursor setting.files setting.root recipe
  | .link before current _ => ∀ link ∈ current :: before, AllPlaced setting (recipesIn link.statements)
  | .otherwise before current _ statements =>
    (∀ link ∈ current :: before, AllPlaced setting (recipesIn link.statements)) ∧
      AllPlaced setting (recipesIn statements)

def Begun.Placed (setting : Setting) : Begun → Prop
  | .nothing => True
  | .whole statement => AllPlaced setting statement.recipes
  | .opened block => block.Placed setting

def Block.Waits (setting : Setting) (block : Block) : Prop :=
  block.Placed setting ∧ block.stops ≠ none

def Change.Placed (setting : Setting) : Change → Prop
  | .stay block => block.Placed setting
  | .nest block inner => block.Waits setting ∧ inner.Placed setting
  | .close statements => AllPlaced setting (recipesIn statements)

variable {setting : Setting}

theorem begunPlaced {line : LogicalLine} {begun : Begun} (other : isInclude line.text = false)
    (reads : begun? setting line = .ok begun) : begun.Placed setting := by
  rw [begunKind] at reads
  split at reads
  · cases reads
    exact nonePlaced setting
  · obtain ⟨read, ok, rfl⟩ := mapOk reads
    obtain ⟨_, _, directive⟩ := leavesOk (readVariableLeaves _ _ _ _) ok
    rw [Begun.Placed]
    obtain ⟨name, value, same⟩ | ⟨name, same⟩ := directive
    · exact same ▸ nonePlaced setting
    · exact same ▸ nonePlaced setting
  · cases reads
    trivial
  · rename_i kind
    rw [(inclusionKind line.text).mp kind] at other
    cases other
  · split at reads
    · cases reads
    · cases reads
      intro link member
      cases List.mem_singleton.mp member
      exact nonePlaced setting
  · cases reads
  · obtain ⟨read, ok, rfl⟩ := mapOk reads
    obtain ⟨_, _, header, directory, recipe, opened, placed⟩ := leavesOk (openRuleLeaves _ _ _ _) ok
    rw [Begun.Placed, opened]
    exact placed
  · cases reads
    exact nonePlaced setting

theorem beginsPlaced {workDir : Text} {entered : Prop} {line : LogicalLine}
    {lines rest : List LogicalLine} {begun : Begun}
    (begins : Begins setting workDir entered line lines begun rest) : begun.Placed setting := by
  cases begins with
  | here other reads => exact begunPlaced other reads
  | inclusion allowed directive named opened => exact nonePlaced setting

theorem addAllPlaced {block : Block} {added : List Statement} (waits : block.Waits setting)
    (new : AllPlaced setting (recipesIn added)) : (block.addAll added).Waits setting := by
  obtain ⟨placed, inside⟩ := waits
  cases block with
  | makefile statements => exact ⟨placedTogether placed new, inside⟩
  | rule header directory recipe => exact absurd rfl inside
  | link before current start =>
    refine ⟨fun link member => ?_, inside⟩
    rcases List.mem_cons.mp member with rfl | older
    · exact placedTogether (placed current (List.mem_cons_self ..)) new
    · exact placed link (List.mem_cons_of_mem _ older)
  | otherwise before current start statements =>
    exact ⟨⟨placed.1, placedTogether placed.2 new⟩, inside⟩

theorem withinPlaced {begun : Begun} {block : Block} (new : begun.Placed setting)
    (waits : block.Waits setting) : (begun.within block).Placed setting := by
  cases begun with
  | nothing => exact waits.1
  | whole statement => exact (addAllPlaced waits (placedAlone new)).1
  | opened inner => exact ⟨waits, new⟩

theorem wrapPlaced {before : List Link} {last : Conditional}
    (placed : ∀ link ∈ before, AllPlaced setting (recipesIn link.statements))
    (ends : AllPlaced setting last.recipes) : AllPlaced setting (Link.wrap before last).recipes := by
  induction before generalizing last with
  | nil => exact ends
  | cons link rest ih =>
    refine ih (fun other member => placed other (List.mem_cons_of_mem _ member)) ?_
    rw [Conditional.recipes, List.append_nil]
    exact placedAppend.mpr ⟨placed link (List.mem_cons_self ..), ends⟩

theorem conditionalPlaced {before : List Link} {current : Link}
    {otherwise : Option (List Statement)}
    (placed : ∀ link ∈ current :: before, AllPlaced setting (recipesIn link.statements))
    (last : ∀ statements ∈ otherwise, AllPlaced setting (recipesIn statements)) :
    AllPlaced setting
      (recipesIn [.conditional (Link.conditional before current otherwise)]) := by
  have here := placed current (List.mem_cons_self ..)
  have ends : AllPlaced setting (Conditional.mk current.condition current.expected
      current.statements none otherwise).recipes := by
    cases otherwise with
    | none => simpa [Conditional.recipes] using here
    | some statements =>
      simpa [Conditional.recipes] using placedAppend.mpr ⟨here, last statements rfl⟩
  refine placedAlone ?_
  rw [Statement.recipes, conditionalWrap]
  exact wrapPlaced (fun link member => placed link (List.mem_cons_of_mem _ member)) ends

theorem stepPlaced {directory next : Text} {header : RuleHeader} {recipe : List Statement}
    {step : Statement} {line : LogicalLine}
    (placed : (Block.rule header directory recipe).Placed setting)
    (reads : step? setting directory line = .ok (step, next)) :
    (Block.rule header next (recipe ++ [step])).Placed setting := by
  obtain ⟨whole, rfl⟩ := placed
  obtain ⟨_, ok, same⟩ := mapOk reads
  cases same
  obtain ⟨_, named, moved⟩ := leavesOk (Recipe.readStepLeaves _ _ _) ok
  refine ⟨(Recipe.nameAllAppend _ _).mpr ⟨whole, named, trivial⟩, ?_⟩
  rw [Recipe.cursorConcat]
  exact moved

theorem movesPlaced {workDir : Text} {entered : Prop} {block : Block}
    {lines rest : List LogicalLine} {change : Change}
    (moves : block.Moves setting workDir entered lines change rest)
    (placed : block.Placed setting) : change.Placed setting := by
  cases moves with
  | finish => exact placed
  | statement inside passes begins =>
    exact withinPlaced (beginsPlaced begins) ⟨placed, by simp [inside]⟩
  | step tab solid reads => exact stepPlaced placed reads
  | blank tab blank => exact placed
  | ended other => exact placedAlone (List.forall_mem_singleton.mpr placed.1)
  | endLink keyword => exact conditionalPlaced placed (by simp)
  | endOtherwise keyword =>
    refine conditionalPlaced placed.1 fun statements same => ?_
    cases same
    exact placed.2
  | chain keyword opens =>
    intro link member
    rcases List.mem_cons.mp member with rfl | older
    · rw [opens.link]
      exact nonePlaced setting
    · exact placed link older
  | otherwise keyword bare => exact ⟨placed, nonePlaced setting⟩
  | otherwiseWith keyword unconditional solid begins =>
    exact withinPlaced (beginsPlaced begins) ⟨⟨placed, nonePlaced setting⟩, by simp [Block.stops]⟩

theorem runsPlaced {workDir : Text} {entered : Prop} {block : Block} {outer : List Block}
    {lines : List LogicalLine} {statements : List Statement}
    (runs : block.Runs setting workDir entered outer lines statements)
    (placed : block.Placed setting) (around : ∀ waiting ∈ outer, waiting.Waits setting) :
    AllPlaced setting (recipesIn statements) := by
  induction runs with
  | stay moves _ ih => exact ih (movesPlaced moves placed) around
  | nest moves _ ih =>
    obtain ⟨waits, inner⟩ := movesPlaced moves placed
    refine ih inner fun waiting member => ?_
    rcases List.mem_cons.mp member with rfl | outside
    · exact waits
    · exact around waiting outside
  | close moves _ ih =>
    have again := addAllPlaced (around _ (List.mem_cons_self ..)) (movesPlaced moves placed)
    exact ih again.1 fun waiting member => around waiting (List.mem_cons_of_mem _ member)
  | finish moves => exact movesPlaced moves placed

theorem readPlaced {files : FileTree} {workDir? : Option Text} {fuel : Nat} {origin : Origin}
    {makefile : Makefile} (ok : (origin.read files workDir? fuel).result = .ok (some makefile)) :
    AllPlaced (origin.setting files) (recipesIn makefile.statements) :=
  runsPlaced (readStatements ok) (nonePlaced _) (by simp)

end MakeTree
