import Mathlib.Data.List.Induction
import MakeTree.Path

/-! Normalized absolute paths as the slashes they start with and a list of names. Joining, taking the
parent and looking from one path at another are operations on the lists. -/
namespace MakeTree
open Text

namespace Text

theorem splitNever (c : Char) (t : Text) : splitOn c t ≠ [] := by
  cases t with
  | nil => exact List.cons_ne_nil _ _
  | cons d rest =>
    unfold splitOn
    split
    · exact List.cons_ne_nil _ _
    · split
      · exact List.cons_ne_nil _ _
      · exact List.cons_ne_nil _ _

theorem splitAppend (c : Char) (first second : Text) :
    splitOn c (first ++ c :: second) = splitOn c first ++ splitOn c second := by
  induction first with
  | nil => simp [splitOn]
  | cons d rest ih =>
    simp only [List.cons_append, splitOn, ih]
    split
    · rfl
    · cases pieces : splitOn c rest with
      | nil => exact absurd pieces (splitNever c rest)
      | cons piece others => rfl

theorem splitWhole {c : Char} {t : Text} (none : c ∉ t) : splitOn c t = [t] := by
  induction t with
  | nil => rfl
  | cons d rest ih =>
    simp only [List.mem_cons, not_or] at none
    rw [splitOn, if_neg (Ne.symm none.1), ih none.2]

theorem splitPieces {c : Char} {t piece : Text} (member : piece ∈ splitOn c t) : c ∉ piece := by
  induction t generalizing piece with
  | nil => simp_all [splitOn]
  | cons d rest ih =>
    unfold splitOn at member
    split at member
    · rcases List.mem_cons.mp member with rfl | inside
      · exact List.not_mem_nil
      · exact ih inside
    · rename_i other
      split at member
      · rename_i nothing
        exact absurd nothing (splitNever c rest)
      · rename_i first others pieces
        rcases List.mem_cons.mp member with rfl | inside
        · have clear := ih (pieces ▸ List.mem_cons_self ..)
          simpa [Ne.symm other] using clear
        · exact ih (pieces ▸ List.mem_cons_of_mem _ inside)

theorem joinConcat (sep last : Text) {pieces : List Text} (some : pieces ≠ []) :
    joinWith sep (pieces ++ [last]) = joinWith sep pieces ++ sep ++ last := by
  induction pieces with
  | nil => exact absurd rfl some
  | cons first rest ih =>
    cases rest with
    | nil => rfl
    | cons second others =>
      have behind := ih (List.cons_ne_nil _ _)
      simp only [List.cons_append, joinWith] at behind ⊢
      rw [behind]
      simp

theorem joinAppend (sep : Text) {first second : List Text} (left : first ≠ []) (right : second ≠ []) :
    joinWith sep (first ++ second) = joinWith sep first ++ sep ++ joinWith sep second := by
  induction first with
  | nil => exact absurd rfl left
  | cons piece rest ih =>
    cases rest with
    | nil =>
      cases second with
      | nil => exact absurd rfl right
      | cons other others => rfl
    | cons next others =>
      have behind := ih (List.cons_ne_nil _ _)
      simp only [List.cons_append, joinWith] at behind ⊢
      rw [behind]
      simp

theorem splitJoin {c : Char} {pieces : List Text} (some : pieces ≠ [])
    (clear : ∀ piece ∈ pieces, c ∉ piece) : splitOn c (joinWith [c] pieces) = pieces := by
  induction pieces with
  | nil => exact absurd rfl some
  | cons piece rest ih =>
    have first := splitWhole (clear piece (List.mem_cons_self ..))
    cases rest with
    | nil => exact first
    | cons next others =>
      have behind := ih (List.cons_ne_nil _ _) fun other member =>
        clear other (List.mem_cons_of_mem _ member)
      rw [joinWith, List.append_assoc, List.singleton_append, splitAppend, first, behind]
      · rfl
      · simp

theorem dropEndAppend {p : Char → Bool} (first : Text) {second : Text}
    (all : ∀ c ∈ second, p c = true) : dropWhileEnd p (first ++ second) = dropWhileEnd p first := by
  unfold dropWhileEnd
  rw [List.reverse_append, List.dropWhile_append_of_pos]
  simpa using all

theorem dropEndKeeps {p : Char → Bool} (first : Text) {c : Char} (keep : p c = false) :
    dropWhileEnd p (first ++ [c]) = first ++ [c] := by
  simp [dropWhileEnd, keep]

end Text

namespace Path

structure IsPart (name : Text) : Prop where
  solid : name ≠ []
  whole : '/' ∉ name

structure IsName (name : Text) : Prop where
  solid : name ≠ []
  whole : '/' ∉ name
  noHere : name ≠ ['.']
  noUp : name ≠ ['.', '.']

structure IsRooted (slashes : Nat) (names : List Text) : Prop where
  lead : slashes = 1 ∨ slashes = 2
  names : ∀ name ∈ names, IsName name

def names (path : Text) : List Text := (components path).filter (· ≠ [])

def Within (root path : Text) : Prop :=
  rootSlashes path = rootSlashes root ∧ names root <+: names path

variable {slashes : Nat} {these : List Text}

theorem IsRooted.front {root rest : List Text} (rooted : IsRooted slashes (root ++ rest)) :
    IsRooted slashes root :=
  ⟨rooted.lead, fun name member => rooted.names name (List.mem_append_left _ member)⟩

theorem IsRooted.behind {root rest : List Text} (rooted : IsRooted slashes (root ++ rest)) :
    ∀ name ∈ rest, IsName name :=
  fun name member => rooted.names name (List.mem_append_right _ member)

theorem nameParts (all : ∀ name ∈ these, IsName name) : ∀ name ∈ these, IsPart name :=
  fun name member => ⟨(all name member).solid, (all name member).whole⟩

theorem joinHead (all : ∀ name ∈ these, IsPart name) (behind : Text) (some : these ≠ []) :
    ∃ c more, joinWith ['/'] these ++ behind = c :: more ∧ c ≠ '/' := by
  cases these with
  | nil => exact absurd rfl some
  | cons name rest =>
    have first := all name (List.mem_cons_self ..)
    cases name with
    | nil => exact absurd rfl first.solid
    | cons c more =>
      have clear : c ≠ '/' := fun same => first.whole (same ▸ List.mem_cons_self ..)
      cases rest with
      | nil => exact ⟨c, _, rfl, clear⟩
      | cons next others => exact ⟨c, _, rfl, clear⟩

theorem renderRooted (rooted : IsRooted slashes these) :
    render slashes these = List.replicate slashes '/' ++ joinWith ['/'] these := by
  unfold render
  rcases rooted.lead with rfl | rfl
  · rfl
  · rfl

theorem leadSlashes {t : Text} (clear : t.head? ≠ some '/') (lead : slashes = 1 ∨ slashes = 2) :
    rootSlashes (List.replicate slashes '/' ++ t) = slashes := by
  cases t with
  | nil =>
    rcases lead with rfl | rfl
    · rfl
    · rfl
  | cons c more =>
    have other : c ≠ '/' := fun same => clear (same ▸ rfl)
    rcases lead with rfl | rfl
    · simp [rootSlashes, other]
    · simp [rootSlashes, other]

theorem joinClear (all : ∀ name ∈ these, IsPart name) :
    (joinWith ['/'] these).head? ≠ some '/' := by
  cases these with
  | nil => exact fun none => by cases none
  | cons name rest =>
    obtain ⟨c, more, join, clear⟩ := joinHead all [] (List.cons_ne_nil _ _)
    rw [List.append_nil] at join
    rw [join]
    exact fun same => clear (Option.some.inj same)

theorem renderSlashes (rooted : IsRooted slashes these) :
    rootSlashes (render slashes these) = slashes := by
  rw [renderRooted rooted]
  exact leadSlashes (joinClear (nameParts rooted.names)) rooted.lead

theorem leadComponents (slashes : Nat) (t : Text) :
    components (List.replicate slashes '/' ++ t) = List.replicate slashes [] ++ components t := by
  induction slashes with
  | zero => rfl
  | succ slashes ih =>
    rw [List.replicate_succ, List.cons_append, List.replicate_succ, List.cons_append, ← ih]
    rfl

theorem namesOnly (all : ∀ name ∈ these, IsPart name) : these.filter (· ≠ []) = these :=
  List.filter_eq_self.mpr fun name member => by simpa using (all name member).solid

theorem joinNames (all : ∀ name ∈ these, IsPart name) : names (joinWith ['/'] these) = these := by
  cases these with
  | nil => rfl
  | cons name rest =>
    rw [names, components, splitJoin (List.cons_ne_nil _ _) fun piece member => (all piece member).whole]
    exact namesOnly all

theorem leadNames (slashes : Nat) (t : Text) :
    names (List.replicate slashes '/' ++ t) = names t := by
  rw [names, leadComponents, List.filter_append]
  have none : (List.replicate slashes ([] : Text)).filter (· ≠ []) = [] := by simp
  rw [none]
  rfl

theorem renderNames (rooted : IsRooted slashes these) : names (render slashes these) = these := by
  rw [renderRooted rooted, leadNames, joinNames (nameParts rooted.names)]

theorem descendNames (absolute : Bool) (done comps : List Text) :
    comps.foldl (descend absolute) done = (comps.filter (· ≠ [])).foldl (descend absolute) done := by
  induction comps generalizing done with
  | nil => rfl
  | cons comp rest ih =>
    by_cases empty : comp = []
    · simpa [empty, descend] using ih done
    · simpa [empty] using ih (descend absolute done comp)

theorem descendThrough (absolute : Bool) (done : List Text) (all : ∀ name ∈ these, IsName name) :
    these.foldl (descend absolute) done = these.reverse ++ done := by
  induction these generalizing done with
  | nil => rfl
  | cons name rest ih =>
    have first := all name (List.mem_cons_self ..)
    have here : descend absolute done name = name :: done := by
      simp [descend, first.solid, first.noHere, first.noUp]
    rw [List.foldl_cons, here, ih _ fun other member => all other (List.mem_cons_of_mem _ member)]
    simp

theorem descendKeeps {done comps : List Text} (before : ∀ name ∈ done, IsName name)
    (clear : ∀ comp ∈ comps, '/' ∉ comp) :
    ∀ name ∈ comps.foldl (descend true) done, IsName name := by
  induction comps generalizing done with
  | nil => exact before
  | cons comp rest ih =>
    refine ih ?_ fun other member => clear other (List.mem_cons_of_mem _ member)
    unfold descend
    split
    · exact before
    · rename_i solid
      split
      · cases done with
        | nil => simp
        | cons last others =>
          have noUp := (before last (List.mem_cons_self ..)).noUp
          simp only [if_neg noUp]
          exact fun name member => before name (List.mem_cons_of_mem _ member)
      · rename_i noUp
        intro name member
        rcases List.mem_cons.mp member with rfl | inside
        · exact ⟨fun empty => solid (.inl empty), clear name (List.mem_cons_self ..),
            fun here => solid (.inr here), noUp⟩
        · exact before name inside

theorem absoluteSlashes {path : Text} (absolute : isAbsolute path = true) :
    rootSlashes path = 1 ∨ rootSlashes path = 2 := by
  obtain ⟨more, rfl⟩ := List.isPrefixOf_iff_prefix.mp absolute
  unfold rootSlashes
  split
  · exact .inl rfl
  · exact .inr rfl
  · exact .inl rfl
  · simp_all

theorem normalizeRooted {path : Text} (absolute : isAbsolute path = true) :
    ∃ slashes these, IsRooted slashes these ∧ normalize path = render slashes these := by
  have lead := absoluteSlashes absolute
  have some : (rootSlashes path != 0) = true := by
    rcases lead with one | two
    · rw [one]; rfl
    · rw [two]; rfl
  refine ⟨_, _, ⟨lead, ?_⟩, rfl⟩
  rw [some]
  intro name member
  exact descendKeeps (by simp) (fun comp inside => splitPieces inside) name
    (List.mem_reverse.mp member)

theorem normalizeRender (rooted : IsRooted slashes these) :
    normalize (render slashes these) = render slashes these := by
  unfold normalize
  simp only
  rw [renderSlashes rooted, descendNames]
  have all : (components (render slashes these)).filter (· ≠ []) = these := renderNames rooted
  rw [all, descendThrough _ _ rooted.names, List.append_nil, List.reverse_reverse]

theorem renderAbsolute (rooted : IsRooted slashes these) :
    isAbsolute (render slashes these) = true := by
  rw [renderRooted rooted]
  rcases rooted.lead with rfl | rfl
  · rfl
  · rfl

theorem joinAbsolute {path : Text} (absolute : isAbsolute path = true) (suffix : Text) :
    isAbsolute (join path suffix) = true := by
  obtain ⟨more, rfl⟩ := List.isPrefixOf_iff_prefix.mp absolute
  unfold join
  split
  · assumption
  · split
    · rfl
    · rfl

theorem slashNot {name : Text} (all : IsName name) : ∀ c ∈ name, (c != '/') = true := by
  intro c member
  exact bne_iff_ne.mpr fun same => all.whole (same ▸ member)

theorem nameLast {name : Text} (all : IsName name) : ∃ before c, name = before ++ [c] ∧ c ≠ '/' := by
  have split := List.dropLast_concat_getLast all.solid
  refine ⟨_, _, split.symm, fun same => all.whole ?_⟩
  rw [← same]
  exact List.getLast_mem all.solid

theorem joinLast (all : ∀ name ∈ these, IsName name) (some : these ≠ []) :
    ∃ before c, joinWith ['/'] these = before ++ [c] ∧ c ≠ '/' := by
  induction these using List.reverseRecOn with
  | nil => exact absurd rfl some
  | append_singleton rest last _ =>
    obtain ⟨front, c, rfl, clear⟩ := nameLast (all last (by simp))
    by_cases alone : rest = []
    · subst alone
      exact ⟨front, c, rfl, clear⟩
    · refine ⟨joinWith ['/'] rest ++ ['/'] ++ front, c, ?_, clear⟩
      rw [joinConcat _ _ alone]
      simp

theorem parentBehind (before : Text) {last : Text} (name : IsName last) :
    parent (before ++ '/' :: last) =
      if before.all (· == '/') then before ++ ['/'] else dropWhileEnd (· == '/') before := by
  have head : dropWhileEnd (· != '/') (before ++ '/' :: last) = before ++ ['/'] := by
    rw [List.append_cons, dropEndAppend _ (slashNot name)]
    exact dropEndKeeps _ (by simp)
  unfold parent
  simp only [head, List.all_append, List.all_cons, List.all_nil, beq_self_eq_true, Bool.and_true]
  split
  · rfl
  · exact dropEndAppend _ (by simp)

theorem parentConcat (before : Text) {last : Text} {c : Char} (name : IsName last)
    (clear : c ≠ '/') :
    parent (before ++ [c] ++ '/' :: last) = before ++ [c] := by
  rw [parentBehind _ name]
  have mixed : (before ++ [c]).all (· == '/') = false := by simp [clear]
  rw [mixed]
  exact dropEndKeeps _ (by simpa using clear)

theorem parentRender {last : Text} (rooted : IsRooted slashes (these ++ [last])) :
    parent (render slashes (these ++ [last])) = render slashes these := by
  have name := rooted.names last (by simp)
  have before := rooted.front
  rw [renderRooted rooted, renderRooted before]
  by_cases alone : these = []
  · subst alone
    rcases rooted.lead with rfl | rfl
    · exact parentBehind [] name
    · exact parentBehind ['/'] name
  · obtain ⟨front, c, join, clear⟩ := joinLast before.names alone
    rw [joinConcat _ _ alone, join]
    have parts := parentConcat (List.replicate slashes '/' ++ front) name clear
    simpa using parts

theorem parentRoot (lead : slashes = 1 ∨ slashes = 2) :
    parent (render slashes []) = render slashes [] := by
  rcases lead with rfl | rfl
  · rfl
  · rfl

theorem renderSome (all : ∀ name ∈ these, IsPart name) (some : these ≠ []) :
    render 0 these = joinWith ['/'] these := by
  obtain ⟨c, more, join, _⟩ := joinHead all [] some
  rw [List.append_nil] at join
  simp [render, join]

def seenDirectory (relative : Text) : Text :=
  let directory := parent relative
  if directory = [] then ['.'] else directory

theorem seenRender {last : Text} (all : ∀ name ∈ these ++ [last], IsName name) :
    seenDirectory (render 0 (these ++ [last])) = render 0 these := by
  have name := all last (by simp)
  have before : ∀ name ∈ these, IsName name := fun name member =>
    all name (List.mem_append_left _ member)
  rw [renderSome (nameParts all) (by simp)]
  by_cases alone : these = []
  · subst alone
    have none : parent last = [] := by
      unfold parent
      have head : dropWhileEnd (· != '/') last = [] := dropEndAppend [] (slashNot name)
      simp [head]
    simp [seenDirectory, joinWith, none, render]
  · obtain ⟨front, c, join, clear⟩ := joinLast before alone
    rw [renderSome (nameParts before) alone, joinConcat _ _ alone, join]
    have parts := parentConcat front name clear
    simp only [List.append_assoc, List.cons_append, List.nil_append] at parts ⊢
    simp [seenDirectory, parts]

theorem normalizeSeen (all : ∀ name ∈ these, IsName name) :
    normalize (render 0 these) = render 0 these ∧ isAbsolute (render 0 these) = false ∧
      ['.', '.'] ∉ components (render 0 these) := by
  cases these with
  | nil => decide +kernel
  | cons name rest =>
    obtain ⟨c, more, join, clear⟩ := joinHead (nameParts all) [] (List.cons_ne_nil _ _)
    rw [List.append_nil] at join
    have bare := renderSome (nameParts all) (List.cons_ne_nil _ _)
    have pieces : components (joinWith ['/'] (name :: rest)) = name :: rest :=
      splitJoin (List.cons_ne_nil _ _) fun piece member => (all piece member).whole
    have none : rootSlashes (joinWith ['/'] (name :: rest)) = 0 := by
      rw [join]
      simp [rootSlashes, clear]
    refine ⟨?_, ?_, ?_⟩
    · unfold normalize
      simp only
      rw [bare, none, pieces, descendThrough _ _ all, List.append_nil, List.reverse_reverse, bare]
    · rw [bare, join]
      simp [isAbsolute, startsWith, List.isPrefixOf, Ne.symm clear]
    · rw [bare, pieces]
      exact fun member => (all _ member).noUp rfl

theorem renderEnds (rooted : IsRooted slashes these) :
    endsWithChar '/' (render slashes these) = these.isEmpty := by
  rw [renderRooted rooted]
  by_cases alone : these = []
  · subst alone
    rcases rooted.lead with rfl | rfl
    · rfl
    · rfl
  · obtain ⟨front, c, join, clear⟩ := joinLast rooted.names alone
    rw [join, ← List.append_assoc, List.isEmpty_eq_false_iff.mpr alone]
    simp [endsWithChar, clear]

theorem renderAppend {root rest : List Text} (rooted : IsRooted slashes (root ++ rest))
    (some : rest ≠ []) :
    render slashes (root ++ rest) =
      (if root = [] then render slashes root else render slashes root ++ ['/']) ++
        joinWith ['/'] rest := by
  have before := rooted.front
  rw [renderRooted rooted, renderRooted before]
  split
  · rename_i none
    simp [none, joinWith]
  · rename_i more
    rw [joinAppend _ more some]
    simp

theorem namesAppend (first second : Text) :
    names (first ++ '/' :: second) = names first ++ names second := by
  rw [names, components, splitAppend, List.filter_append]
  rfl

theorem belowSlashes (rooted : IsRooted slashes these) (some : these ≠ []) (below : Text) :
    rootSlashes (render slashes these ++ '/' :: below) = slashes := by
  obtain ⟨c, more, join, clear⟩ := joinHead (nameParts rooted.names) ('/' :: below) some
  rw [renderRooted rooted, List.append_assoc, join]
  exact leadSlashes (fun same => clear (Option.some.inj same)) rooted.lead

theorem normalizeDot (rooted : IsRooted slashes these) (some : these ≠ []) :
    normalize (render slashes these ++ ['/'] ++ render 0 []) = render slashes these := by
  have behind : render slashes these ++ ['/'] ++ render 0 [] =
      render slashes these ++ '/' :: ['.'] := by simp [render, joinWith]
  have all : (components (render slashes these ++ '/' :: ['.'])).filter (· ≠ []) =
      these ++ [['.']] := by
    have parts := namesAppend (render slashes these) ['.']
    rw [renderNames rooted] at parts
    exact parts
  rw [behind]
  unfold normalize
  simp only
  rw [belowSlashes rooted some, descendNames, all, List.foldl_append,
    descendThrough _ _ rooted.names]
  simp [descend]

theorem normalJoinRender {root rest : List Text} (rooted : IsRooted slashes (root ++ rest)) :
    normalJoin (render slashes root) (render 0 rest) = render slashes (root ++ rest) := by
  have before := rooted.front
  have behind := rooted.behind
  have relative := (normalizeSeen behind).2.1
  have ends := renderEnds before
  have solid : render slashes root ≠ [] := by
    intro none
    have absolute := renderAbsolute before
    rw [none] at absolute
    cases absolute
  have joined : join (render slashes root) (render 0 rest) =
      (if root = [] then render slashes root else render slashes root ++ ['/']) ++ render 0 rest := by
    unfold join
    rw [relative, ends]
    simp only [Bool.false_eq_true, if_false, solid, false_or, List.isEmpty_iff]
    split
    · rfl
    · simp
  unfold normalJoin
  rw [joined]
  by_cases none : rest = []
  · subst none
    rw [List.append_nil]
    by_cases top : root = []
    · subst top
      rcases rooted.lead with rfl | rfl
      · decide +kernel
      · decide +kernel
    · rw [if_neg top]
      exact normalizeDot before top
  · rw [renderSome (nameParts behind) none, ← renderAppend rooted none]
    exact normalizeRender rooted

theorem relativeInside {root rest : List Text} (rooted : IsRooted slashes (root ++ rest)) :
    relativeTo? (render slashes (root ++ rest)) (render slashes root) = some (render 0 rest) := by
  have before := rooted.front
  have behind := rooted.behind
  unfold relativeTo?
  simp only [normalizeRender rooted, normalizeRender before]
  by_cases none : rest = []
  · subst none
    simp [render, joinWith]
  · have apart : render slashes (root ++ rest) ≠ render slashes root := by
      intro same
      have names := congrArg names same
      rw [renderNames rooted, renderNames before] at names
      exact none (List.append_right_eq_self.mp names)
    rw [if_neg apart, renderEnds before, renderSome (nameParts behind) none,
      renderAppend rooted none]
    simp [List.isEmpty_iff, startsWith]

theorem relativeOutside {other : Nat} {root : List Text} (rooted : IsRooted slashes these)
    (base : IsRooted other root) (deep : render other root ≠ ['/'])
    (outside : ¬ Within (render other root) (render slashes these)) :
    relativeTo? (render slashes these) (render other root) = none := by
  unfold relativeTo?
  simp only [normalizeRender rooted, normalizeRender base]
  have apart : render slashes these ≠ render other root := by
    intro same
    rw [same] at outside
    exact outside ⟨rfl, List.prefix_refl _⟩
  rw [if_neg apart, if_neg]
  intro starts
  obtain ⟨tail, whole⟩ := List.isPrefixOf_iff_prefix.mp starts
  rw [renderEnds base] at whole
  have slashes' := renderSlashes rooted
  have names' := renderNames rooted
  refine outside ⟨slashes'.trans ?_, ?_⟩
  · rw [renderSlashes base]
    by_cases top : root = []
    · -- Two slashes are left as the root, and one slash does not start with two.
      subst top
      rcases base.lead with rfl | rfl
      · exact absurd rfl deep
      · rcases rooted.lead with rfl | rfl
        · have clear := joinClear (nameParts rooted.names)
          rw [renderRooted rooted] at whole
          rw [← show '/' :: tail = joinWith ['/'] these from (List.cons.inj whole).2] at clear
          exact absurd rfl clear
        · rfl
    · rw [← slashes', ← whole, List.isEmpty_eq_false_iff.mpr top]
      simpa using belowSlashes base top tail
  · rw [renderNames base, ← whole]
    by_cases top : root = []
    · exact top ▸ List.nil_prefix
    · rw [List.isEmpty_eq_false_iff.mpr top]
      simp only [Bool.false_eq_true, if_false, List.append_assoc, List.singleton_append]
      rw [namesAppend, renderNames base]
      exact List.prefix_append _ _

end Path
end MakeTree
