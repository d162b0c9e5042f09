import MakeTree.Proofs.Burden

/-! The sources that are open at a time. All but the outermost are files, each brought in by a line of
the next; so there are more of them than files only if a file leads back to itself. -/
namespace MakeTree
open Text MakeTree.Action LineStream

def Source.place? (source : Source) : Option Place := source.feed.map Feed.place

/-- While `origin` is read, a directive in the file at `here` brings in the file at `there`. -/
def Origin.Includes (files : FileTree) (workDir? : Option Text) (origin : Origin)
    (here there : Place) : Prop :=
  ∃ stage events next source path bytes, origin.Passes files workDir? stage ∧
    stage.Goes (origin.setting files) events next ∧
    stage.stream.sources.head? = some source ∧ source.place? = some here ∧
    Event.included path ∈ events ∧ files.openFile path = .ok (there, bytes)

def FileTree.HasFile (files : FileTree) (place : Place) : Prop :=
  ∃ bytes, (place, Content.file bytes) ∈ files.entries

theorem filePlaced {files : FileTree} {place : Place} (has : files.HasFile place) :
    place ∈ files.filePlaces := by
  obtain ⟨bytes, entry⟩ := has
  exact List.mem_map.mpr ⟨_, List.mem_filter.mpr ⟨entry, rfl⟩, rfl⟩

inductive Nested (files : FileTree) (includes : Place → Place → Prop) :
    List (Option Place) → Prop where
  | empty : Nested files includes []
  | root {place?} (real : ∀ place ∈ place?, files.HasFile place) : Nested files includes [place?]
  | inside {place around? below} (real : files.HasFile place)
      (included : ∀ around ∈ around?, includes around place)
      (rest : Nested files includes (around? :: below)) :
      Nested files includes (some place :: around? :: below)

namespace Nested
variable {files : FileTree} {includes : Place → Place → Prop} {places : List (Option Place)}

theorem tail {place? : Option Place} (nested : Nested files includes (place? :: places)) :
    Nested files includes places := by
  cases nested with
  | root real => exact .empty
  | inside real included rest => exact rest

theorem suffix {some : List (Option Place)} (nested : Nested files includes places)
    (suffix : some <:+ places) : Nested files includes some := by
  obtain ⟨before, rfl⟩ := suffix
  induction before with
  | nil => exact nested
  | cons place? before ih => exact ih nested.tail

theorem leads {place : Place} (nested : Nested files includes (some place :: places)) :
    ∀ around, some around ∈ places → Relation.TransGen includes around place := by
  induction places generalizing place with
  | nil => simp
  | cons around? below ih =>
    cases nested with
    | inside real included rest =>
      intro around member
      rcases List.mem_cons.mp member with rfl | inside
      · exact .single (included around rfl)
      cases around? with
      | some nearest => exact (ih rest around inside).tail (included nearest rfl)
      | none =>
        -- A text is the outermost source.
        cases rest with
        | root => cases inside

theorem real (nested : Nested files includes places) :
    ∀ place, some place ∈ places → files.HasFile place := by
  induction nested with
  | empty => simp
  | root real =>
    intro place member
    exact real place (List.mem_singleton.mp member).symm
  | inside real _ _ ih =>
    intro place member
    rcases List.mem_cons.mp member with same | inside
    · cases same
      exact real
    · exact ih place inside

theorem apart (acyclic : ∀ place, ¬ Relation.TransGen includes place place)
    (nested : Nested files includes places) : (places.filterMap id).Nodup := by
  induction places with
  | nil => exact List.nodup_nil
  | cons place? below ih =>
    have rest := ih nested.tail
    cases place? with
    | none => exact rest
    | some place =>
      refine List.nodup_cons.mpr ⟨fun again => acyclic place ?_, rest⟩
      exact nested.leads place (by simpa using again)

theorem placed (nested : Nested files includes places) :
    places.length ≤ (places.filterMap id).length + 1 := by
  induction nested with
  | empty => exact Nat.zero_le _
  | root => exact Nat.le_add_left _ _
  | inside _ _ _ ih => simpa using ih

theorem depth (acyclic : ∀ place, ¬ Relation.TransGen includes place place)
    (nested : Nested files includes places) : places.length ≤ files.fileCount + 1 := by
  have inside : places.filterMap id ⊆ files.filePlaces := by
    intro place member
    exact filePlaced (nested.real place (by simpa using member))
  have fewer := ((nested.apart acyclic).subperm inside).length_le
  have placed := nested.placed
  unfold FileTree.fileCount
  omega

end Nested

theorem sourcePlace {files : FileTree} {path : Text} {source : Source}
    (opened : files.source? path = some source) :
    ∃ place bytes, files.openFile path = .ok (place, bytes) ∧
      source = .ofFile path place bytes [] := by
  unfold FileTree.source? at opened
  split at opened <;> try contradiction
  rename_i place bytes file
  exact ⟨place, bytes, file, (Option.some.inj opened).symm⟩

theorem foundPlaces (s : LineStream) (sources : List Source) :
    (s.found sources).sources.map Source.place? <:+ sources.map Source.place? := by
  induction sources with
  | nil => exact List.suffix_rfl
  | cons source below ih =>
    simp only [found]
    split
    · exact ih.trans (List.suffix_cons _ _)
    · exact List.suffix_rfl

variable {files : FileTree} {workDir? : Option Text} {origin : Origin} {stage next : Stage}
  {events : List Event}

theorem originReal {source : Source} (opened : origin.source? files = some source) :
    ∀ place ∈ source.place?, files.HasFile place := by
  cases origin with
  | file path =>
    obtain ⟨place, bytes, file, rfl⟩ := sourcePlace opened
    rintro _ ⟨⟩
    exact ⟨bytes, openedEntry file⟩
  | text path content =>
    cases Option.some.inj opened
    rintro _ ⟨⟩

theorem goesNested (passes : origin.Passes files workDir? stage)
    (goes : stage.Goes (origin.setting files) events next)
    (nested : Nested files (origin.Includes files workDir?)
      (stage.stream.sources.map Source.place?)) :
    Nested files (origin.Includes files workDir?) (next.stream.sources.map Source.place?) := by
  cases Stage.goesTreats goes (Origin.passFormed passes) with
  | leaves same _ _ _ => exact same ▸ nested
  | handles more _ made _ past =>
    generalize named : (lineEffect _ _).included = included at past
    generalize reached : next.stream = t at past
    cases past with
    | taken => exact nested.suffix (foundPlaces _ _)
    | @entered token source opened =>
      refine Nested.suffix ?_ (foundPlaces _ _)
      obtain ⟨place, bytes, file, rfl⟩ := sourcePlace opened
      have told : Event.included (stage.stream.target token) ∈ events := by
        rw [includedDeed, made, LineEffect.deeds, named]
        simp [target]
      cases open' : stage.stream.sources with
      | nil => exact .root fun _ same => Option.some.inj same ▸ ⟨bytes, openedEntry file⟩
      | cons around below =>
        rw [open'] at nested
        refine .inside ⟨bytes, openedEntry file⟩ (fun here same => ?_) nested
        exact ⟨stage, events, next, around, _, bytes, passes, goes, by rw [open']; rfl, same,
          told, file⟩

theorem passNested (passes : origin.Passes files workDir? stage) :
    Nested files (origin.Includes files workDir?) (stage.stream.sources.map Source.place?) := by
  obtain ⟨before, first, starts, reached⟩ := passes
  induction reached with
  | refl =>
    obtain ⟨source, opened, _, same⟩ := Origin.startSource starts
    rw [same]
    exact Nested.suffix (.root (originReal opened)) (foundPlaces _ [source])
  | tail onward step ih =>
    obtain ⟨_, goes⟩ := step
    exact goesNested ⟨before, first, starts, onward⟩ goes ih

theorem passShallow
    (acyclic : ∀ place, ¬ Relation.TransGen (origin.Includes files workDir?) place place)
    (passes : origin.Passes files workDir? stage) : stage.stream.Shallow files := by
  have depth := (passNested passes).depth acyclic
  rwa [List.length_map] at depth

theorem variableEnters (line path : Text) : variableChange line ≠ some (.included path) := by
  unfold variableChange
  grind

theorem stepEnters (line path : Text) : stepChange line ≠ some (.included path) := by
  unfold stepChange
  split
  · exact variableEnters _ _
  · exact variableEnters _ _
  · exact fun none => by cases none

theorem statementEnters (scopes : List Scope) (line path : Text) :
    (statementEffect scopes line).change ≠ some (.included path) := by
  unfold statementEffect
  simp only
  split
  · exact variableEnters _ _
  · exact fun assigned => by cases assigned
  · exact fun none => by cases none
  · exact fun none => by cases none
  · exact stepEnters _ _
  all_goals exact fun none => by cases none

theorem lineEnters (scopes : List Scope) (line path : Text) :
    (lineEffect scopes line).change ≠ some (.included path) := by
  refine effectShape (motive := fun effect => effect.change ≠ some (.included path)) scopes line
    ?_ ?_ ?_ ?_
  · exact fun _ none => by cases none
  · exact fun _ => stepEnters line path
  · exact fun _ => statementEnters _ _ _
  · exact fun _ _ => statementEnters _ _ _

def FileTree.Holds (files : FileTree) (place : Place) (text : Text) : Prop :=
  ∃ bytes, files.contentAt place = some (.file bytes) ∧
    text ∈ (Source.ofBytes [] bytes).remaining.map LogicalLine.text

def FileTree.named (files : FileTree) (workDir : Text) (place : Place) : List Place :=
  match files.contentAt place with
  | some (.file bytes) =>
    (Source.ofBytes [] bytes).remaining.filterMap fun line => do
      let token ← inclusion? line.text
      let (there, _) ← (files.openFile (Path.normalJoin workDir token)).toOption
      return there
  | _ => []

theorem namedEntry {workDir : Text} {here there : Place}
    (named : there ∈ files.named workDir here) : files.HasFile here := by
  unfold FileTree.named at named
  split at named
  · rename_i bytes content
    exact ⟨bytes, contentAtEntry content⟩
  · cases named

theorem holdsNamed {place there : Place} {text token workDir : Text} {bytes : List UInt8}
    (holds : files.Holds place text) (names : inclusion? text = some token)
    (opened : files.openFile (Path.normalJoin workDir token) = .ok (there, bytes)) :
    there ∈ files.named workDir place := by
  obtain ⟨content, file, member⟩ := holds
  obtain ⟨line, inside, rfl⟩ := List.mem_map.mp member
  rw [FileTree.named, file]
  exact List.mem_filterMap.mpr ⟨line, inside, by simp [names, opened, Except.toOption]⟩

theorem openedContent {path : Text} {place : Place} {bytes : List UInt8}
    (opened : files.openFile path = .ok (place, bytes)) :
    files.contentAt place = some (.file bytes) := by
  unfold FileTree.openFile at opened
  split at opened <;> cases opened
  rename_i resolved
  unfold FileTree.resolve at resolved
  split at resolved <;> try contradiction
  split at resolved <;> try contradiction
  split at resolved <;> try contradiction
  exact walkContent resolved

def Source.Held (files : FileTree) (source : Source) : Prop :=
  ∀ place ∈ source.place?, ∀ line ∈ source.remaining, files.Holds place line.text

structure LineStream.Held (files : FileTree) (s : LineStream) : Prop where
  sources : ∀ source ∈ s.sources, source.Held files
  ahead : s.eof = false → ∀ source ∈ s.sources.head?, ∀ place ∈ source.place?,
    files.Holds place s.next

theorem foundHeld (s : LineStream) {sources : List Source}
    (held : ∀ source ∈ sources, source.Held files) : (s.found sources).Held files := by
  induction sources with
  | nil => exact ⟨by simp [found], fun more => by cases more⟩
  | cons source below ih =>
    have under := fun other member => held other (List.mem_cons_of_mem source member)
    have first := held source (List.mem_cons_self ..)
    simp only [found]
    split
    · exact ih under
    · rename_i line rest lines
      unfold Source.Held at first
      rw [Source.remainingCons lines] at first
      refine ⟨fun other member => ?_, fun _ other head place here => ?_⟩
      · rcases List.mem_cons.mp member with rfl | inside
        · exact fun place here line member => first place here line (List.mem_cons_of_mem _ member)
        · exact under other inside
      · cases Option.some.inj head
        exact first place here _ (List.mem_cons_self ..)

theorem fileTexts (path : Text) (place : Place) (bytes : List UInt8) :
    (Source.ofFile path place bytes []).remaining.map LogicalLine.text =
      (Source.ofBytes [] bytes).remaining.map LogicalLine.text := by
  have lines : (Source.ofFile path place bytes []).lines = (Source.ofBytes [] bytes).lines := by
    simp only [Source.ofFile, encodeUtf8, List.flatMap_nil, List.append_nil]
    unfold Source.ofBytes
    grind
  unfold Source.remaining
  rw [lines]
  exact logicalLinesText _ _ _ _ _ _

theorem openedHeld {path : Text} {source : Source} (opened : files.source? path = some source) :
    source.Held files := by
  obtain ⟨place, bytes, file, rfl⟩ := sourcePlace opened
  rintro _ ⟨⟩ line member
  refine ⟨bytes, openedContent file, ?_⟩
  rw [← fileTexts path place bytes]
  exact List.mem_map_of_mem member

theorem originHeld {source : Source} (opened : origin.source? files = some source) :
    source.Held files := by
  cases origin with
  | file path => exact openedHeld opened
  | text path content =>
    cases Option.some.inj opened
    rintro _ ⟨⟩

theorem passHeld (passes : origin.Passes files workDir? stage) : stage.stream.Held files := by
  obtain ⟨before, first, starts, reached⟩ := passes
  induction reached with
  | refl =>
    obtain ⟨source, opened, _, same⟩ := Origin.startSource starts
    rw [same]
    exact foundHeld _ (by simpa using originHeld opened)
  | @tail stage next onward step ih =>
    obtain ⟨_, goes⟩ := step
    cases Stage.goesTreats goes (Origin.passFormed ⟨before, first, starts, onward⟩) with
    | leaves same _ _ _ => exact same ▸ ih
    | handles more _ _ _ past =>
      generalize (lineEffect _ _).included = included at past
      generalize next.stream = t at past
      cases past with
      | taken => exact foundHeld _ ih.sources
      | entered opened =>
        refine foundHeld _ fun other member => ?_
        rcases List.mem_cons.mp member with rfl | inside
        · exact openedHeld opened
        · exact ih.sources other inside

theorem passWorkDir (passes : origin.Passes files workDir? stage) :
    stage.stream.workDir = (origin.resolved files).workDir files workDir? := by
  obtain ⟨before, first, starts, reached⟩ := passes
  induction reached with
  | refl =>
    obtain ⟨source, _, _, same⟩ := Origin.startSource starts
    rw [same]
    exact (foundKeeps _ _).1
  | tail onward step ih =>
    obtain ⟨_, goes⟩ := step
    exact (Stage.goesWorkDir goes (Origin.passFormed ⟨before, first, starts, onward⟩)).trans ih

theorem includesNamed {here there : Place} (includes : origin.Includes files workDir? here there) :
    there ∈ files.named ((origin.resolved files).workDir files workDir?) here := by
  obtain ⟨stage, events, next, source, path, bytes, passes, goes, head, at', told, file⟩ := includes
  cases Stage.goesTreats goes (Origin.passFormed passes) with
  | leaves _ _ silent _ =>
    rw [includedDeed, silent] at told
    cases told
  | handles more _ made _ _ =>
    rw [includedDeed, made, LineEffect.deeds] at told
    rcases List.mem_append.mp told with changed | entered
    · exact absurd (Option.mem_toList.mp changed) (lineEnters _ _ _)
    · obtain ⟨token, named, same⟩ := Option.map_eq_some_iff.mp (Option.mem_toList.mp entered)
      cases same
      have holds := (passHeld passes).ahead more source head here at'
      rw [passWorkDir passes] at file
      exact holdsNamed holds (lineInclusion _ named) file

end MakeTree
