import Mathlib.Data.List.Basic
import Montage.Script.Program

/-!
# What statements assign

A statement binds variables for one of two purposes. On behalf of the project it assigns the clip
of an element, the letters of a text or the clip of an entry; for its own purposes the script binds
what it imports, its functions, its effects and the finished film. Each emitter is described once:
the statement that makes a clip comes first, and what follows only adapts this clip.
-/

namespace Montage

namespace Script

/-- The variables that effects are kept in are names of the script. -/
theorem ClipEffect.holder_mem_ownNames (effect : ClipEffect) : effect.holder ∈ ownNames := by
  cases effect <;> simp [holder, ownNames]

/-- The functions of letter effects have names of the script. -/
theorem name_mem_ownNames (effect : LetterEffect) : effect.name ∈ ownNames := by
  cases effect <;> simp [LetterEffect.name, ownNames]

namespace Statement

/-- The variable that a statement assigns on behalf of the project. -/
def assigned? : Statement LetterEffect → Option String
  | loadVideo clip _ => some clip
  | loadAudio clip _ => some clip
  | cut clip _ _ _ => some clip
  | adjust clip _ => some clip
  | choose clip _ _ => some clip
  | apply clip _ => some clip
  | opacity clip _ => some clip
  | textClip clip _ _ => some clip
  | findLetters clip => some (lettersVariable clip)
  | animate clip _ _ _ _ => some clip
  | entry s => some s.clip
  | _ => none

/-- The names that a statement binds for the script's own purposes. -/
def ownBindings : Statement LetterEffect → List String
  | importLibrary => ["moviepy"]
  | prepare effect => [effect.holder]
  | letterHelpers => ["np", "label", "find_objects", "rotMatrix", "find_letters", "move_letters"]
  | letterMotion effect => [effect.name]
  | composeVideo _ _ => ["final_video"]
  | composeAudio _ => ["final_audio"]
  | _ => []

/-- Whether a statement adapts the clip in a variable and assigns no other one. -/
def adapts (clip : String) : Statement LetterEffect → Bool
  | adjust other _ => other = clip
  | choose other _ _ => other = clip
  | apply other _ => other = clip
  | opacity other _ => other = clip
  | blank => true
  | comment _ => true
  | prepare _ => true
  | _ => false

/-- Whatever the script binds for itself is on the list of names it keeps for itself. -/
theorem ownBindings_subset (s : Statement LetterEffect) : s.ownBindings ⊆ ownNames := by
  cases s with
  | prepare effect => simp [ownBindings, effect.holder_mem_ownNames]
  | letterMotion effect => simp [ownBindings, name_mem_ownNames]
  | _ => simp [ownBindings, ownNames]

/-- A statement that adapts a clip assigns this clip or nothing. -/
theorem eq_of_adapts {s : Statement LetterEffect} {clip x : String} (h : s.adapts clip = true)
    (hx : s.assigned? = some x) : x = clip := by
  cases s <;> simp_all [adapts, assigned?]

/-- A statement that adapts a clip may be repeated. -/
theorem onceKey?_of_adapts {s : Statement LetterEffect} {clip : String}
    (h : s.adapts clip = true) : s.onceKey? = none := by
  cases s <;> simp_all [adapts, onceKey?]

end Statement

/-- The variables that statements assign on behalf of the project. -/
def assignedBy (statements : List (Statement LetterEffect)) : List String :=
  statements.filterMap Statement.assigned?

/-- The variables that no statement assigns. -/
@[simp] theorem assignedBy_nil : assignedBy [] = [] := rfl

/-- Statements assign what the first of them and the others assign. -/
@[simp] theorem assignedBy_cons (s : Statement LetterEffect) (ss : List (Statement LetterEffect)) :
    assignedBy (s :: ss) = s.assigned?.toList ++ assignedBy ss := by
  cases h : s.assigned? <;> simp [assignedBy, h]

/-- Statements assign what their two parts assign. -/
@[simp] theorem assignedBy_append (ss ts : List (Statement LetterEffect)) :
    assignedBy (ss ++ ts) = assignedBy ss ++ assignedBy ts := by
  simp [assignedBy]

/-- Statements collected over a list assign what those of its members assign. -/
theorem mem_assignedBy_flatMap {α : Type} (f : α → List (Statement LetterEffect)) (xs : List α)
    (x : String) : x ∈ assignedBy (xs.flatMap f) ↔ ∃ a ∈ xs, x ∈ assignedBy (f a) := by
  simp only [assignedBy, List.mem_filterMap, List.mem_flatMap]
  constructor
  · rintro ⟨s, ⟨a, ha, hs⟩, hx⟩
    exact ⟨a, ha, s, hs, hx⟩
  · rintro ⟨a, ha, s, hs, hx⟩
    exact ⟨s, ⟨a, ha, hs⟩, hx⟩

/-! ## Videos and sounds -/

/-- Options of a video only adapt its clip. -/
theorem adapts_of_mem_videoOptionStatements {clip : String} {canvas : Canvas}
    {options : List VideoOption} {o : VideoOption} {s : Statement LetterEffect}
    (h : s ∈ videoOptionStatements clip canvas options o) : s.adapts clip = true := by
  cases o with
  | transition t =>
    cases t <;> simp only [videoOptionStatements, effectStatements, List.mem_cons,
      List.not_mem_nil, or_false] at h <;> rcases h with rfl | rfl | rfl <;>
        simp [Statement.adapts]
  | _ =>
    simp only [videoOptionStatements, effectStatements, List.mem_cons, List.not_mem_nil,
      or_false] at h
    rcases h with rfl | rfl | rfl <;> simp [Statement.adapts]

/-- Options of a sound only adapt its clip. -/
theorem adapts_of_mem_audioOptionStatements {clip : String} {o : AudioOption}
    {s : Statement LetterEffect} (h : s ∈ audioOptionStatements clip o) : s.adapts clip = true := by
  cases o <;>
    simp only [audioOptionStatements, effectStatements, List.mem_cons, List.not_mem_nil,
      or_false] at h <;>
    rcases h with rfl | rfl | rfl <;> simp [Statement.adapts]

/-- Fitting a video only adapts its clip. -/
theorem adapts_of_mem_fitStatements {clip : String} {canvas : Canvas} {frame : Option PixelSize}
    {s : Statement LetterEffect} (h : s ∈ fitStatements clip canvas frame) :
    s.adapts clip = true := by
  cases frame with
  | none =>
    simp only [fitStatements, List.mem_cons, List.not_mem_nil, or_false] at h
    rcases h with rfl | rfl <;> simp [Statement.adapts]
  | some size =>
    simp only [fitStatements, List.mem_cons, List.mem_map] at h
    rcases h with rfl | ⟨a, -, rfl⟩ <;> simp [Statement.adapts]

/-- Finishing a video only adapts its clip. -/
theorem adapts_of_mem_finishVideo {p : Project} {canvas : Canvas} {e : Element}
    {options : List VideoOption} {s : Statement LetterEffect}
    (h : s ∈ finishVideo p canvas e options) : s.adapts e.name = true := by
  simp only [finishVideo, List.mem_append, List.mem_flatMap, List.mem_singleton] at h
  rcases h with (hfit | ⟨o, -, ho⟩) | rfl
  · exact adapts_of_mem_fitStatements hfit
  · exact adapts_of_mem_videoOptionStatements ho
  · rfl

end Script

open Script

/-- The statement that loads or cuts the clip of a video or sound. -/
def Element.opening? : Element → Option (Statement LetterEffect)
  | video v => some (.loadVideo v.name v.path)
  | videoExtract x => some (.cut x.name x.source x.start x.stop)
  | audio a => some (.loadAudio a.name a.path)
  | audioExtract x => some (.cut x.name x.source x.start x.stop)
  | text _ => none
  | subtitle _ => none

/-- Statements that open the clip of an element and then only adapt it. -/
def Element.OpenedBy (e : Element) (statements : List (Statement LetterEffect)) : Prop :=
  ∃ title opening rest, statements = .comment title :: opening :: rest ∧
    e.opening? = some opening ∧ ∀ s ∈ rest, s.adapts e.name = true

/-- Whether the letters of an element are animated. -/
def Element.isAnimated (effects : EffectRegistry LetterEffect) (e : Element) : Bool :=
  (e.textBlock?.bind fun t => chosenEffect? effects t.options).isSome

/-- Only the letters of texts are animated. -/
theorem Element.category_of_isAnimated {effects : EffectRegistry LetterEffect} {e : Element}
    (h : e.isAnimated effects = true) : e.category = .textual := by
  cases e <;> first | rfl | simp [Element.isAnimated, Element.textBlock?] at h

/-- A textual element has a text under its name. -/
theorem Element.exists_textBlock? {e : Element} (h : e.category = .textual) :
    ∃ t, e.textBlock? = some t ∧ t.name = e.name := by
  cases e <;> first | exact ⟨_, rfl, rfl⟩ | simp [Element.category] at h

namespace Script

/-- The statements of a video open its clip and then adapt it. -/
theorem openedBy_videoStatements {p : Project} {canvas : Canvas} {e : Element}
    (h : e.category = .video) : e.OpenedBy (videoStatements p canvas e) := by
  cases e with
  | video v => exact ⟨_, _, _, rfl, rfl, fun s hs => adapts_of_mem_finishVideo hs⟩
  | videoExtract x => exact ⟨_, _, _, rfl, rfl, fun s hs => adapts_of_mem_finishVideo hs⟩
  | _ => simp [Element.category] at h

/-- The statements of a sound open its clip and then adapt it. -/
theorem openedBy_audioStatements {e : Element} (h : e.category = .audio) :
    e.OpenedBy (audioStatements e) := by
  have hadapts (clip : String) (options : List AudioOption) :
      ∀ s ∈ options.flatMap (audioOptionStatements clip) ++ [.blank], s.adapts clip = true := by
    intro s hs
    rw [List.mem_append, List.mem_flatMap, List.mem_singleton] at hs
    rcases hs with ⟨o, -, ho⟩ | rfl
    · exact adapts_of_mem_audioOptionStatements ho
    · rfl
  cases e with
  | audio a => exact ⟨_, _, _, rfl, rfl, hadapts a.name a.options⟩
  | audioExtract x => exact ⟨_, _, _, rfl, rfl, hadapts x.name x.options⟩
  | _ => simp [Element.category] at h

/-- The statement that opens a clip assigns the name of the element. -/
theorem assigned?_of_opening? {e : Element} {s : Statement LetterEffect} (h : e.opening? = some s) :
    s.assigned? = some e.name := by
  cases e <;> simp only [Element.opening?, Option.some.injEq, reduceCtorEq] at h <;> subst h <;> rfl

/-- Statements that open a clip and adapt it may all be repeated. -/
theorem filterMap_onceKey?_of_openedBy {e : Element} {ss : List (Statement LetterEffect)}
    (h : e.OpenedBy ss) : ss.filterMap Statement.onceKey? = [] := by
  obtain ⟨title, opening, rest, rfl, hopening, hrest⟩ := h
  rw [List.filterMap_eq_nil_iff, List.forall_mem_cons, List.forall_mem_cons]
  refine ⟨rfl, ?_, fun s hs => Statement.onceKey?_of_adapts (hrest s hs)⟩
  cases e <;> simp only [Element.opening?, Option.some.injEq, reduceCtorEq] at hopening <;>
    subst hopening <;> rfl

/-- Statements that open a clip and adapt it assign the name of the element and nothing else. -/
theorem mem_assignedBy_of_openedBy {e : Element} {ss : List (Statement LetterEffect)}
    (h : e.OpenedBy ss) (x : String) : x ∈ assignedBy ss ↔ x = e.name := by
  obtain ⟨title, opening, rest, rfl, hopening, hrest⟩ := h
  simp only [assignedBy, List.mem_filterMap]
  constructor
  · rintro ⟨s, hs, hx⟩
    simp only [List.mem_cons] at hs
    rcases hs with rfl | rfl | hs
    · simp [Statement.assigned?] at hx
    · rw [assigned?_of_opening? hopening, Option.some.injEq] at hx
      exact hx.symm
    · exact Statement.eq_of_adapts (hrest s hs) hx
  · rintro rfl
    exact ⟨opening, by simp, assigned?_of_opening? hopening⟩

/-! ## Texts -/

/-- The statements of a text assign its name, and its letters if they are animated. -/
theorem mem_assignedBy_textStatements (settings : ScriptSettings)
    (effects : EffectRegistry LetterEffect) (duration : Float) {e : Element}
    (h : e.category = .textual) (x : String) :
    x ∈ assignedBy (textStatements settings effects duration e) ↔
      x = e.name ∨ e.isAnimated effects = true ∧ x = lettersVariable e.name := by
  obtain ⟨t, ht, hname⟩ := Element.exists_textBlock? h
  rw [← hname]
  simp only [textStatements, Element.isAnimated, ht, Option.bind_some]
  cases hchosen : chosenEffect? effects t.options with
  | none => simp [Statement.assigned?]
  | some effect =>
    simp only [animationStatements, List.cons_append, List.nil_append, assignedBy_cons,
      assignedBy_nil, Statement.assigned?, Option.toList_none, Option.toList_some, List.mem_cons,
      List.not_mem_nil, or_false, Option.isSome_some, true_and]
    tauto

/-! ## Compositions -/

/-- The statements that compose and export the film assign nothing on behalf of the project. -/
theorem assigned?_of_mem_compositionStatements {name : String} {canvas : Canvas}
    {entries : List (Entry × Element)} {s : Statement LetterEffect}
    (h : s ∈ compositionStatements name canvas entries) : s.assigned? = none := by
  unfold compositionStatements at h
  split at h <;> simp only [List.mem_append, List.mem_cons, List.not_mem_nil, or_false] at h
  · rcases h with ((rfl | rfl | rfl) | rfl | rfl | rfl | rfl | rfl | rfl) | rfl | rfl <;> rfl
  · rcases h with (rfl | rfl | rfl) | rfl | rfl <;> rfl

/-- Composing and exporting the film assigns no variables of the project. -/
@[simp] theorem assignedBy_compositionStatements (name : String) (canvas : Canvas)
    (entries : List (Entry × Element)) :
    assignedBy (compositionStatements name canvas entries) = [] :=
  List.filterMap_eq_nil_iff.mpr fun _ hs => assigned?_of_mem_compositionStatements hs

end Script

end Montage
