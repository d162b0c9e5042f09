import MakeTree.Proofs.LineRules
import MakeTree.Proofs.Lookups
import MakeTree.Proofs.Modifiers
import MakeTree.Proofs.Replay

/-! What an assignment leaves alone. No other variable gets a value; but where modifiers are piled up,
something that is not the name is noted down as if it were. The records hold what was noted down, and so
they hold the names that were assigned with a modifier unless modifiers were piled up. -/
namespace MakeTree
open Text LeftSide

structure Variables.AgreeOn (vars after : Variables) (name : Text) : Prop where
  value : after.get? name = vars.get? name
  presence : after.contains name = vars.contains name
  conditional : name ∈ after.conditional ↔ name ∈ vars.conditional
  simple : name ∈ after.simple ↔ name ∈ vars.simple
  flavor : after.flavor name = vars.flavor name

theorem setAgrees {raw : Text} (exact : (ofText raw).Exact) (vars : Variables) (value : Text)
    {other : Text} (different : other ≠ (ofText raw).name) :
    vars.AgreeOn (vars.set raw value) other := by
  have assigned := vars.setAssigned raw value
  have conditional : other ∈ (vars.set raw value).conditional ↔ other ∈ vars.conditional :=
    (assigned.conditional other).trans
      (or_iff_right fun noted => different (exact.1 other noted))
  have simple : other ∈ (vars.set raw value).simple ↔ other ∈ vars.simple :=
    (assigned.simple other).trans (or_iff_right fun noted => different (exact.2 other noted))
  have kept := assigned.elsewhere other different
  exact ⟨kept, by rw [Variables.contains, kept]; rfl, conditional, simple,
    by simp only [Variables.flavor, conditional, simple]⟩

theorem agreeExact {raw : Text}
    (agree : ∀ other ≠ (ofText raw).name, Variables.empty.AgreeOn (Variables.empty.set raw []) other) :
    (ofText raw).Exact := by
  have assigned := Variables.empty.setAssigned raw []
  constructor
  · intro noted note
    by_contra different
    have recorded := (assigned.conditional noted).mpr (.inl note)
    exact absurd ((agree noted different).conditional.mp recorded) List.not_mem_nil
  · intro noted note
    by_contra different
    have recorded := (assigned.simple noted).mpr (.inl note)
    exact absurd ((agree noted different).simple.mp recorded) List.not_mem_nil

theorem piledMarks {raw : Text} (piled : Piled raw) :
    ∃ c ∈ raw, ∃ d ∈ raw, isMark c = true ∧ isMark d = true ∧ c ≠ d := by
  obtain ⟨front, first, gap, last, split, _, shape⟩ := piled
  have inside : ∀ c ∈ first :: last, c ∈ raw := by
    intro c member
    refine trimSubset raw ?_
    rw [split]
    rcases List.mem_cons.mp member with rfl | behind
    · simp
    · simp [behind]
  have here := inside first (List.mem_cons_self ..)
  rcases shape with ⟨rfl, rfl | rfl⟩ | ⟨rfl, some, colons⟩
  · exact ⟨_, here, '?', inside _ (by simp), by decide⟩
  · exact ⟨_, here, '?', inside _ (by simp), by decide⟩
  · obtain ⟨c, member⟩ := List.exists_mem_of_ne_nil last some
    obtain rfl := colons c member
    exact ⟨_, here, ':', inside _ (by simp [member]), by decide⟩

theorem assignmentUnpiled {line : Text} (assigns : isAssignment line = true) :
    ¬Piled (cutAt '=' line).1 := by
  obtain ⟨name, blanks, modifier, value, rfl, _, named, blank, known⟩ := (assignmentForm line).mp assigns
  -- One modifier at most stands there, and all its characters are the same.
  have alike : ∀ modifier ∈ modifiers, '=' ∉ modifier ∧ ∀ c ∈ modifier, ∀ d ∈ modifier, c = d := by
    intro modifier known
    simp only [modifiers, List.mem_cons, List.not_mem_nil, or_false] at known
    rcases known with rfl | rfl | rfl | rfl | rfl <;> simp
  have clear : '=' ∉ name ++ (blanks ++ modifier) := by
    simp only [List.mem_append, not_or]
    refine ⟨fun here => ?_, fun here => ?_, (alike modifier known).1⟩
    · exact absurd (named '=' here) (by decide +kernel)
    · exact absurd (blank '=' here) (by decide)
  have cut : cutAt '=' (name ++ (blanks ++ (modifier ++ '=' :: value))) =
      (name ++ (blanks ++ modifier), some value) := cutFound.mpr ⟨by simp, clear⟩
  have behind : ∀ c ∈ name ++ (blanks ++ modifier), isMark c = true → c ∈ modifier := by
    intro c inside mark
    simp only [List.mem_append] at inside
    rcases inside with inside | inside | inside
    · exact absurd (named c inside) (by simp [(markSolid mark).2])
    · exact absurd (blank c inside) (by simp [(markSolid mark).1])
    · exact inside
  rw [cut]
  intro piled
  obtain ⟨c, here, d, there, mark, other, different⟩ := piledMarks piled
  exact different ((alike modifier known).2 c (behind c here mark) d (behind d there other))

def Records (field : Variables → List Text) (noted : LeftSide → Option Text) : Prop :=
  ∀ vars (event : Event) name, name ∈ field (event.apply vars) ↔
    (∃ raw value, event = .assigned raw value ∧ noted (.ofText raw) = some name) ∨ name ∈ field vars

theorem conditionalRecords : Records (·.conditional) (·.conditional) := by
  intro vars event name
  cases event with
  | assigned raw value =>
    rw [show Event.apply vars (.assigned raw value) = vars.set raw value from rfl]
    simpa using (vars.setAssigned raw value).conditional name
  | _ => simp [Event.apply, Variables.unset]

theorem simpleRecords : Records (·.simple) (·.simple) := by
  intro vars event name
  cases event with
  | assigned raw value =>
    rw [show Event.apply vars (.assigned raw value) = vars.set raw value from rfl]
    simpa using (vars.setAssigned raw value).simple name
  | _ => simp [Event.apply, Variables.unset]

theorem replayRecords {field : Variables → List Text} {noted : LeftSide → Option Text}
    (records : Records field noted) (vars : Variables) (events : List Event) (name : Text) :
    name ∈ field (replay vars events) ↔
      (∃ raw value, .assigned raw value ∈ events ∧ noted (.ofText raw) = some name) ∨
        name ∈ field vars := by
  induction events generalizing vars with
  | nil => simp [replay]
  | cons event rest ih =>
    rw [show replay vars (event :: rest) = replay (event.apply vars) rest from rfl, ih, records]
    constructor
    · rintro (⟨raw, value, later, note⟩ | ⟨raw, value, rfl, note⟩ | before)
      · exact .inl ⟨raw, value, List.mem_cons_of_mem _ later, note⟩
      · exact .inl ⟨raw, value, List.mem_cons_self .., note⟩
      · exact .inr before
    · rintro (⟨raw, value, member, note⟩ | before)
      · rcases List.mem_cons.mp member with rfl | later
        · exact .inr (.inl ⟨raw, value, rfl, note⟩)
        · exact .inl ⟨raw, value, later, note⟩
      · exact .inr (.inr before)

theorem notedWhole {noted : Option Text} {ends : Bool} {cut whole name : Text}
    (stage : noted = if ends then some cut else none) (exact : ∀ note ∈ noted, note = whole) :
    noted = some name ↔ whole = name ∧ ends = true := by
  subst stage
  cases ends with
  | false => simp
  | true => simp [exact cut rfl]

theorem notedConditional {raw name : Text} (plain : ¬Piled raw) :
    (ofText raw).conditional = some name ↔
      (ofText raw).name = name ∧ endsWithChar '?' (trim raw) = true := by
  have stage : (ofText raw).conditional =
      if endsWithChar '?' (trim raw) then some (unasked raw) else none := by rw [stages]
  exact notedWhole stage ((exactPiled raw).mpr plain).1

theorem unaskedColon {raw : Text} (plain : ¬Piled raw) :
    endsWithChar ':' (unasked raw) = endsWithChar ':' (trim raw) := by
  by_cases asked : endsWithChar '?' (trim raw) = true
  · obtain ⟨front, split⟩ := endsForm.mp asked
    have last : endsWithChar ':' (trim raw) = false := by
      rw [split, endsWithChar, List.getLast?_concat]
      decide
    rw [last, Bool.eq_false_iff]
    intro colon
    exact plain ((piledForm raw).mpr (.inl ⟨asked, colon⟩))
  · rw [unasked, peeledWhole (by simpa using asked)]

theorem notedSimple {raw name : Text} (plain : ¬Piled raw) :
    (ofText raw).simple = some name ↔
      (ofText raw).name = name ∧ endsWithChar ':' (trim raw) = true := by
  have stage : (ofText raw).simple =
      if endsWithChar ':' (trim raw) then some (uncoloned raw) else none := by
    rw [stages, unaskedColon plain]
  exact notedWhole stage ((exactPiled raw).mpr plain).2

structure SetConfined (raw : Text) : Prop where
  values : ∀ (vars : Variables) value, ∀ other ≠ (ofText raw).name,
    (vars.set raw value).get? other = vars.get? other ∧
      (vars.set raw value).contains other = vars.contains other
  others : (∀ (vars : Variables) value, ∀ other ≠ (ofText raw).name,
    vars.AgreeOn (vars.set raw value) other) ↔ ¬Piled raw
  lines : ∀ line, isAssignment line = true → raw = (cutAt '=' line).1 → ¬Piled raw

structure Recorded (vars : Variables) (events : List Event) : Prop where
  conditional : ∀ name, name ∈ (replay vars events).conditional ↔
    (∃ raw value, .assigned raw value ∈ events ∧ (ofText raw).conditional = some name) ∨
      name ∈ vars.conditional
  simple : ∀ name, name ∈ (replay vars events).simple ↔
    (∃ raw value, .assigned raw value ∈ events ∧ (ofText raw).simple = some name) ∨
      name ∈ vars.simple
  names : (∀ raw value, .assigned raw value ∈ events → ¬Piled raw) → ∀ name,
    (name ∈ (replay vars events).conditional ↔
      (∃ raw value, .assigned raw value ∈ events ∧ (ofText raw).name = name ∧
        endsWithChar '?' (trim raw) = true) ∨ name ∈ vars.conditional) ∧
    (name ∈ (replay vars events).simple ↔
      (∃ raw value, .assigned raw value ∈ events ∧ (ofText raw).name = name ∧
        endsWithChar ':' (trim raw) = true) ∨ name ∈ vars.simple)

theorem setConfined (raw : Text) : SetConfined raw where
  values := by
    intro vars value other different
    have kept := (vars.setAssigned raw value).elsewhere other different
    exact ⟨kept, by rw [Variables.contains, kept]; rfl⟩
  others := by
    rw [← exactPiled]
    exact ⟨fun agree => agreeExact (agree .empty []), fun exact vars value _ => setAgrees exact vars value⟩
  lines := by
    rintro line assigns rfl
    exact assignmentUnpiled assigns

theorem eventsRecorded (vars : Variables) (events : List Event) : Recorded vars events where
  conditional := replayRecords conditionalRecords vars events
  simple := replayRecords simpleRecords vars events
  names := by
    intro plain name
    rw [replayRecords conditionalRecords, replayRecords simpleRecords]
    constructor
    · refine or_congr_left (exists₂_congr fun raw value => and_congr_right fun member => ?_)
      exact notedConditional (plain raw value member)
    · refine or_congr_left (exists₂_congr fun raw value => and_congr_right fun member => ?_)
      exact notedSimple (plain raw value member)

theorem assignmentsConfined (raw : Text) (vars : Variables) (events : List Event) :
    SetConfined raw ∧ Recorded vars events ∧
    ∀ files workDir? fuel (origin : Origin) makefile,
      (origin.read files workDir? fuel).result = .ok (some makefile) →
        makefile.vars = replay .empty (origin.read files workDir? fuel).events :=
  ⟨setConfined raw, eventsRecorded vars events, fun _ _ _ _ _ => readAccounts⟩

/-- A question mark behind a plus sign: the name is noted down with the plus sign, as that of a variable
that nothing is assigned to. -/
theorem plusNoted :
    (¬∀ (vars : Variables) raw value, '=' ∉ raw → ∀ other ≠ (ofText raw).name,
      vars.AgreeOn (vars.set raw value) other) ∧
    ((Origin.text "Makefile".toList "A ?= x\nexport A+?=y\n".toList).read ⟨['/'], []⟩ none 3).result.map
      (Option.map (·.vars)) = .ok (some ⟨[(['A'], "x y".toList)], [['A'], "A+".toList], []⟩) := by
  refine ⟨fun all => ?_, by decide +kernel⟩
  have agrees := all .empty "A+?".toList [] (by decide) "A+".toList (by decide)
  exact absurd agrees.conditional (by decide)

end MakeTree
