import Montage.Proofs.Assignments
import Montage.Proofs.Schedule
import Montage.Proofs.Written

/-!
# Everything is bound before it is used

A script is written in passes: videos, texts, sounds, entries, and the film. What a statement refers
to must be bound by a statement that is written before it, and by one of the right kind: a piece is
cut from something that was loaded or cut, an entry shows the clip of an element and starts at
another entry, and the functions of an animation are defined. Each pass is in scope after the passes
before it, and leaving out repeated statements takes nothing away.
-/

namespace Montage

namespace Script

/-- What a statement can refer to. -/
inductive Reference where
  | library
  /-- A clip that pieces are cut from. -/
  | source (clip : String)
  /-- The clip of an element. -/
  | element (clip : String)
  /-- The clip of an entry. -/
  | entry (clip : String)
  /-- The letters of a text. -/
  | letters (clip : String)
  | function (name : String)
  /-- What the functions of effects are made from. -/
  | letterTools
  | effect (e : ClipEffect)
  | film
  | sound

namespace Statement

/-- The clip that a statement loads or cuts. -/
def loaded? : Statement LetterEffect → Option String
  | loadVideo clip _ => some clip
  | loadAudio clip _ => some clip
  | cut clip _ _ _ => some clip
  | _ => none

/-- The clip of an element that a statement makes. -/
def made? : Statement LetterEffect → Option String
  | textClip clip _ _ => some clip
  | s => s.loaded?

/-- The functions that a statement defines. -/
def functions : Statement LetterEffect → List String
  | letterHelpers => ["find_letters", "move_letters"]
  | letterMotion effect => [effect.name]
  | _ => []

end Statement

/-- The entry that a start refers to. -/
def StartExpression.references {T : Type} : StartExpression T → List Reference
  | instant _ => []
  | relative clip _ _ => [.entry clip]

/-- Everything a statement refers to when it runs. -/
def Statement.references : Statement LetterEffect → List Reference
  | importLibrary => []
  | blank => []
  | comment _ => []
  | loadVideo _ _ => [.library]
  | loadAudio _ _ => [.library]
  | cut _ source _ _ => [.source source]
  | adjust clip _ => [.element clip]
  | choose clip _ _ => [.element clip]
  | prepare _ => [.library]
  | apply clip effect => [.effect effect, .element clip]
  | opacity clip _ => [.element clip]
  | textClip _ _ _ => [.library]
  | letterHelpers => []
  | letterMotion _ => [.letterTools]
  | findLetters clip => [.function "find_letters", .element clip]
  | animate clip effect _ _ _ =>
    [.library, .function "move_letters", .function effect.name, .letters clip, .element clip]
  | entry s => .element s.element :: (s.start.map StartExpression.references).getD []
  | composeVideo clips _ => .library :: clips.map .entry
  | composeAudio tracks => .library :: tracks.map fun t => .entry t.clip
  | attachAudio => [.film, .sound]
  | exportFilm _ => [.film]

/-- Whether a statement binds what a reference refers to. -/
def Reference.BoundBy (s : Statement LetterEffect) : Reference → Prop
  | library => s = .importLibrary
  | source clip => s.loaded? = some clip
  | element clip => s.made? = some clip
  | entry clip => ∃ e, s = .entry e ∧ e.clip = clip
  | letters clip => s = .findLetters clip
  | function name => name ∈ s.functions
  | letterTools => s = .letterHelpers
  | effect e => s = .prepare e
  | film => ∃ clips canvas, s = .composeVideo clips canvas
  | sound => ∃ tracks, s = .composeAudio tracks

/-- Some of the statements written so far binds what a reference refers to. -/
def Bound (before : List (Statement LetterEffect)) (x : Reference) : Prop :=
  ∃ t ∈ before, x.BoundBy t

/-- Every statement refers only to what is bound by then. -/
def Scoped (before : List (Statement LetterEffect)) : List (Statement LetterEffect) → Prop
  | [] => True
  | s :: rest => (∀ x ∈ s.references, Bound before x) ∧ Scoped (before ++ [s]) rest

/-! ## Scopes -/

/-- What is bound stays bound when more is written. -/
theorem Bound.mono {before after : List (Statement LetterEffect)} {x : Reference}
    (h : Bound before x) (hsubset : before ⊆ after) : Bound after x := by
  obtain ⟨t, ht, hx⟩ := h
  exact ⟨t, hsubset ht, hx⟩

/-- Nothing is bound before the first statement. -/
@[simp] theorem bound_nil (x : Reference) : ¬ Bound [] x := by
  rintro ⟨t, ht, -⟩
  exact List.not_mem_nil ht

/-- Statements bind what the first of them and the others bind. -/
@[simp] theorem bound_cons (s : Statement LetterEffect) (ss : List (Statement LetterEffect))
    (x : Reference) : Bound (s :: ss) x ↔ x.BoundBy s ∨ Bound ss x := by
  simp [Bound]

/-- Statements bind what their two parts bind. -/
@[simp] theorem bound_append (ss ts : List (Statement LetterEffect)) (x : Reference) :
    Bound (ss ++ ts) x ↔ Bound ss x ∨ Bound ts x := by
  simp [Bound, or_and_right, exists_or]

/-- Statements collected over a list bind what those of a member bind. -/
theorem Bound.flatMap {α : Type} (f : α → List (Statement LetterEffect)) {xs : List α} {a : α}
    {x : Reference} (h : Bound (f a) x) (ha : a ∈ xs) : Bound (xs.flatMap f) x := by
  obtain ⟨t, ht, hx⟩ := h
  exact ⟨t, List.mem_flatMap.mpr ⟨a, ha, ht⟩, hx⟩

/-- A larger scope serves as well. -/
theorem Scoped.mono {before after ss : List (Statement LetterEffect)} (h : Scoped before ss)
    (hsubset : before ⊆ after) : Scoped after ss := by
  induction ss generalizing before after with
  | nil => trivial
  | cons s ss ih =>
    refine ⟨fun x hx => (h.1 x hx).mono hsubset, ih h.2 ?_⟩
    exact List.append_subset.mpr
      ⟨List.subset_append_of_subset_left _ hsubset, List.subset_append_right _ _⟩

/-- Two parts are in scope if the second is in scope after the first. -/
theorem scoped_append (before ss ts : List (Statement LetterEffect)) :
    Scoped before (ss ++ ts) ↔ Scoped before ss ∧ Scoped (before ++ ss) ts := by
  induction ss generalizing before with
  | nil => simp [Scoped]
  | cons s ss ih => simp [Scoped, ih, and_assoc]

/-- Statements are in scope exactly if each of them refers to what those before it bind. -/
theorem scoped_iff_split (before ss : List (Statement LetterEffect)) :
    Scoped before ss ↔ ∀ front s back, ss = front ++ s :: back →
      ∀ x ∈ s.references, Bound (before ++ front) x := by
  induction ss generalizing before with
  | nil => simp [Scoped]
  | cons s ss ih =>
    rw [Scoped, ih]
    constructor
    · rintro ⟨hs, hss⟩ front t back hsplit
      cases front with
      | nil =>
        obtain ⟨rfl, -⟩ := List.cons.inj hsplit
        rwa [List.append_nil]
      | cons head front =>
        obtain ⟨rfl, hrest⟩ := List.cons.inj hsplit
        simpa using hss front t back hrest
    · intro h
      refine ⟨by simpa using h [] s ss rfl, fun front t back hsplit => ?_⟩
      simpa using h (s :: front) t back (by rw [hsplit, List.cons_append])

/-- Statements that refer to nothing but what is bound beforehand are in scope. -/
theorem scoped_of_forall {before ss : List (Statement LetterEffect)}
    (h : ∀ s ∈ ss, ∀ x ∈ s.references, Bound before x) : Scoped before ss := by
  refine (scoped_iff_split before ss).mpr fun front s back hsplit x hx => ?_
  exact (h s (by simp [hsplit]) x hx).mono (List.subset_append_left _ _)

/-- Parts that are each in scope are in scope together. -/
theorem scoped_flatMap {α : Type} {before : List (Statement LetterEffect)}
    (f : α → List (Statement LetterEffect)) (xs : List α)
    (h : ∀ a ∈ xs, Scoped before (f a)) : Scoped before (xs.flatMap f) := by
  induction xs with
  | nil => trivial
  | cons a xs ih =>
    rw [List.flatMap_cons, scoped_append]
    refine ⟨h a List.mem_cons_self, ?_⟩
    exact (ih fun b hb => h b (List.mem_cons_of_mem _ hb)).mono (List.subset_append_left _ _)

/-- Leaving out what is repeated keeps statements in scope. Whatever is left out was written before,
so the scope of what is written is as large as that of what was asked for. -/
theorem Scoped.written {asked before ss : List (Statement LetterEffect)} {keys : List String}
    (h : Scoped asked ss) (hsubset : asked ⊆ before)
    (hkeys : ∀ key ∈ keys, ∀ t : Statement LetterEffect, t.onceKey? = some key → t ∈ before) :
    Scoped before (written keys ss) := by
  induction ss generalizing asked before keys with
  | nil => trivial
  | cons s ss ih =>
    have hs : ∀ x ∈ s.references, Bound before x := fun x hx => (h.1 x hx).mono hsubset
    have hgrown : asked ++ [s] ⊆ before ++ [s] :=
      List.append_subset.mpr
        ⟨List.subset_append_of_subset_left _ hsubset, List.subset_append_right _ _⟩
    rw [Script.written]
    cases hkey : s.onceKey? with
    | none =>
      refine ⟨hs, ih h.2 hgrown fun key hmet t ht => ?_⟩
      exact List.mem_append_left _ (hkeys key hmet t ht)
    | some key =>
      by_cases hmet : key ∈ keys
      · simp only [hmet, if_true]
        refine ih h.2 (List.append_subset.mpr ⟨hsubset, ?_⟩) hkeys
        exact List.cons_subset.mpr ⟨hkeys key hmet s hkey, List.nil_subset _⟩
      · simp only [hmet, if_false]
        refine ⟨hs, ih h.2 hgrown fun key' hmet' t ht => ?_⟩
        rcases List.mem_cons.mp hmet' with rfl | hmet'
        · exact List.mem_append_right _ (List.mem_singleton.mpr (Statement.onceKey?_inj ht hkey))
        · exact List.mem_append_left _ (hkeys key' hmet' t ht)

/-! ## Clips of elements -/

section Clips

variable {before : List (Statement LetterEffect)} {clip : String}

/-- An effect is prepared before it is applied. -/
theorem scoped_effectStatements (hlibrary : Bound before .library)
    (hclip : Bound before (.element clip)) (title : String) (effect : ClipEffect) :
    Scoped before (effectStatements clip title effect) := by
  simp [effectStatements, Scoped, Statement.references, hlibrary, hclip, Reference.BoundBy]

/-- The options of a video are in scope once its clip is made. -/
theorem scoped_videoOptionStatements (hlibrary : Bound before .library)
    (hclip : Bound before (.element clip)) (canvas : Canvas) (options : List VideoOption)
    (o : VideoOption) : Scoped before (videoOptionStatements clip canvas options o) := by
  have heffect := scoped_effectStatements hlibrary hclip
  cases o with
  | transition t => cases t <;> exact heffect _ _
  | opacity x | resolution x | size x | position x =>
    simp [videoOptionStatements, Scoped, Statement.references, hclip]
  | _ => exact heffect _ _

/-- The options of a sound are in scope once its clip is made. -/
theorem scoped_audioOptionStatements (hlibrary : Bound before .library)
    (hclip : Bound before (.element clip)) (o : AudioOption) :
    Scoped before (audioOptionStatements clip o) := by
  cases o <;> exact scoped_effectStatements hlibrary hclip _ _

/-- Fitting a video is in scope once its clip is made. -/
theorem scoped_fitStatements (hclip : Bound before (.element clip)) (canvas : Canvas)
    (frame : Option PixelSize) : Scoped before (fitStatements clip canvas frame) := by
  apply scoped_of_forall
  intro s hs x hx
  cases frame with
  | none =>
    simp only [fitStatements, List.mem_cons, List.not_mem_nil, or_false] at hs
    rcases hs with rfl | rfl <;> simp_all [Statement.references]
  | some size =>
    simp only [fitStatements, List.mem_cons, List.mem_map] at hs
    rcases hs with rfl | ⟨a, -, rfl⟩ <;> simp_all [Statement.references]

/-- Finishing a video is in scope once its clip is made. -/
theorem scoped_finishVideo {e : Element} (hlibrary : Bound before .library)
    (hclip : Bound before (.element e.name)) (p : Project) (canvas : Canvas)
    (options : List VideoOption) : Scoped before (finishVideo p canvas e options) := by
  simp only [finishVideo, scoped_append]
  refine ⟨⟨scoped_fitStatements hclip canvas _, scoped_flatMap _ _ fun o _ => ?_⟩, ?_⟩
  · exact scoped_videoOptionStatements (by simp [hlibrary]) (by simp [hclip]) canvas options o
  · simp [Scoped, Statement.references]

/-- An animation is in scope once its clip is made. -/
theorem scoped_animationStatements (hlibrary : Bound before .library)
    (hclip : Bound before (.element clip)) (effect : LetterEffect) (canvas : Canvas)
    (duration : Float) (position : Point) :
    Scoped before (animationStatements clip effect canvas duration position) := by
  simp [animationStatements, Scoped, Statement.references, Reference.BoundBy, hlibrary, hclip,
    Statement.functions]

/-- Statements that introduce an element: once what the element is cut from is bound, they are in
scope, and they bind its clip. -/
structure Introduces (before : List (Statement LetterEffect)) (e : Element)
    (ss : List (Statement LetterEffect)) : Prop where
  inScope : ∀ scope, before ⊆ scope →
    (∀ source, e.source? = some source → Bound scope (.source source)) → Scoped scope ss
  element : Bound ss (.element e.name)
  source : e.isTextual = false → Bound ss (.source e.name)

/-- Statements that load or cut the clip of an element and then use it introduce the element. -/
theorem introduces_of_opening? (hlibrary : Bound before .library) {e : Element}
    {opening : Statement LetterEffect} (hopening : e.opening? = some opening) (title : String)
    {rest : List (Statement LetterEffect)}
    (hrest : ∀ scope, before ⊆ scope → Bound scope (.element e.name) → Scoped scope rest) :
    Introduces before e ([.comment title, opening] ++ rest) := by
  have hloaded : opening.loaded? = some e.name ∧ opening.made? = some e.name := by
    cases e <;> simp only [Element.opening?, Option.some.injEq, reduceCtorEq] at hopening <;>
      subst hopening <;> exact ⟨rfl, rfl⟩
  refine ⟨fun scope hscope hsource => ?_, ?_, fun _ => ?_⟩
  · rw [scoped_append]
    refine ⟨?_, hrest _ (List.subset_append_of_subset_left _ hscope) ?_⟩
    · cases e <;> simp only [Element.opening?, Option.some.injEq, reduceCtorEq] at hopening <;>
        subst hopening
      case video | audio => simp [Scoped, Statement.references, hlibrary.mono hscope]
      case videoExtract x | audioExtract x =>
        simp [Scoped, Statement.references, hsource x.source rfl]
    · simp [Reference.BoundBy, hloaded]
  · simp [Reference.BoundBy, hloaded]
  · simp [Reference.BoundBy, hloaded]

/-- The statements of a video introduce it. -/
theorem introduces_videoStatements (hlibrary : Bound before .library) (p : Project)
    (canvas : Canvas) {e : Element} (h : e.category = .video) :
    Introduces before e (videoStatements p canvas e) := by
  cases e with
  | video v =>
    exact introduces_of_opening? hlibrary rfl _ fun scope hscope hclip =>
      scoped_finishVideo (hlibrary.mono hscope) hclip p canvas v.options
  | videoExtract x =>
    exact introduces_of_opening? hlibrary rfl _ fun scope hscope hclip =>
      scoped_finishVideo (hlibrary.mono hscope) hclip p canvas x.options
  | _ => simp [Element.category] at h

/-- The statements of a sound introduce it. -/
theorem introduces_audioStatements (hlibrary : Bound before .library) {e : Element}
    (h : e.category = .audio) : Introduces before e (audioStatements e) := by
  have hoptions (clip : String) (options : List AudioOption) (scope : List (Statement LetterEffect))
      (hscope : before ⊆ scope) (hclip : Bound scope (.element clip)) :
      Scoped scope (options.flatMap (audioOptionStatements clip) ++ [.blank]) := by
    rw [scoped_append]
    refine ⟨scoped_flatMap _ _ fun o _ => ?_, by simp [Scoped, Statement.references]⟩
    exact scoped_audioOptionStatements (hlibrary.mono hscope) hclip o
  cases e with
  | audio a => exact introduces_of_opening? hlibrary rfl _ (hoptions a.name a.options)
  | audioExtract x => exact introduces_of_opening? hlibrary rfl _ (hoptions x.name x.options)
  | _ => simp [Element.category] at h

/-- The statements of a text introduce it. -/
theorem introduces_textStatements (hlibrary : Bound before .library) (settings : ScriptSettings)
    (effects : EffectRegistry LetterEffect) (duration : Float) {e : Element}
    (h : e.category = .textual) :
    Introduces before e (textStatements settings effects duration e) := by
  obtain ⟨t, ht, hname⟩ := Element.exists_textBlock? h
  refine ⟨fun scope hscope _ => ?_, ?_, ?_⟩
  · have hlibrary' := hlibrary.mono hscope
    simp only [textStatements, ht, scoped_append]
    refine ⟨⟨by simp [Scoped, Statement.references, hlibrary'], ?_⟩,
      by simp [Scoped, Statement.references]⟩
    cases chosenEffect? effects t.options with
    | none => trivial
    | some effect =>
      apply scoped_animationStatements
      · simp [hlibrary']
      · simp [Reference.BoundBy, Statement.made?]
  · simp [textStatements, ht, Reference.BoundBy, Statement.made?, hname]
  · simp [Element.isTextual, h]

end Clips

/-! ## Passes -/

/-- Texts are not cut from anything. -/
theorem isTextual_of_source? {e : Element} {source : String} (h : e.source? = some source) :
    e.isTextual = false := by
  cases e <;> first | rfl | simp [Element.source?] at h

/-- A pass over the elements of a category is in scope. The induction is on the elements still to
come; those passed before are bound, so that pieces find what they are cut from. -/
theorem scoped_pass {q : Project} (hreferences : q.SoundReferences) (category : Category)
    (f : Element → List (Statement LetterEffect)) {scope : List (Statement LetterEffect)}
    (hf : ∀ e ∈ q.elements, e.category = category → Introduces scope e (f e))
    (before after : List Element) (helements : q.elements = before ++ after)
    {passed : List (Statement LetterEffect)} (hscope : scope ⊆ passed)
    (hbefore : ∀ e ∈ before, e.category = category → e.isTextual = false →
      Bound passed (.source e.name)) :
    Scoped passed ((after.filter fun e => e.category = category).flatMap f) := by
  induction after generalizing before passed with
  | nil => trivial
  | cons e rest ih =>
    have he : e ∈ q.elements := by simp [helements]
    have hsplit : q.elements = (before ++ [e]) ++ rest := by simp [helements]
    by_cases hcategory : e.category = category
    · have hintroduces := hf e he hcategory
      rw [List.filter_cons_of_pos (by simpa using hcategory), List.flatMap_cons, scoped_append]
      refine ⟨hintroduces.inScope passed hscope fun source hsource => ?_,
        ih (before ++ [e]) hsplit (List.subset_append_of_subset_left _ hscope)
          fun x hx hsame hmedia => ?_⟩
      · obtain ⟨x, hx, rfl, hsame⟩ := hreferences.source before e rest source helements hsource
        have hmedia : x.isTextual = false := by
          rw [Element.isTextual, hsame]
          exact isTextual_of_source? hsource
        exact hbefore x hx (hsame.trans hcategory) hmedia
      · rw [bound_append]
        rcases List.mem_append.mp hx with hx | hx
        · exact Or.inl (hbefore x hx hsame hmedia)
        · rw [List.mem_singleton.mp hx] at hmedia ⊢
          exact Or.inr (hintroduces.source hmedia)
    · rw [List.filter_cons_of_neg (by simpa using hcategory)]
      refine ih (before ++ [e]) hsplit hscope fun x hx hsame => ?_
      rcases List.mem_append.mp hx with hx | hx
      · exact hbefore x hx hsame
      · exact absurd (List.mem_singleton.mp hx ▸ hsame) hcategory

/-- What is seen are the variables of entries. -/
theorem exists_of_mem_visualClips {entries : List (Entry × Element)} {clip : String}
    (h : clip ∈ visualClips entries) : ∃ x ∈ entries, clip = entryVariable x.1.name := by
  obtain ⟨x, hx, hvariable⟩ := List.mem_filterMap.mp h
  obtain ⟨-, hsome⟩ := Option.ite_none_right_eq_some.mp hvariable
  exact ⟨x, hx, (Option.some.inj hsome).symm⟩

/-- What is heard are the variables of entries. -/
theorem exists_of_mem_audibleTracks {entries : List (Entry × Element)} {track : Track}
    (h : track ∈ audibleTracks entries) : ∃ x ∈ entries, track.clip = entryVariable x.1.name := by
  obtain ⟨x, hx, hvariable⟩ := List.mem_filterMap.mp h
  refine ⟨x, hx, ?_⟩
  split at hvariable <;> simp only [Option.some.injEq, reduceCtorEq] at hvariable <;>
    subst hvariable <;> rfl

end Script

open Script

/-- The start of an entry refers to nothing but an entry that stands before it. -/
theorem Project.Usable.entry_of_mem_start {p : Project} (h : p.Usable) {i : ℕ} {entry : Entry}
    (hentry : p.timeline[i]? = some entry) {x : Reference}
    (hx : x ∈ ((startExpression? (T := Float) p.timeline i entry.placement).map
      StartExpression.references).getD []) :
    ∃ j < i, ∃ before, p.timeline[j]? = some before ∧ x = .entry (entryVariable before.name) := by
  obtain ⟨hi, -⟩ := List.getElem?_eq_some_iff.mp hentry
  cases hplacement : entry.placement with
  | fixed instant => simp [hplacement, startExpression?, StartExpression.references] at hx
  | implicit =>
    by_cases hzero : i = 0
    · simp [hplacement, startExpression?, hzero] at hx
    · have hprevious : p.timeline[i - 1]? = some p.timeline[i - 1] :=
        List.getElem?_eq_getElem (by omega)
      simp only [hplacement, startExpression?, hzero, if_false, hprevious, Option.map_some,
        StartExpression.references, Option.getD_some, List.mem_singleton] at hx
      exact ⟨i - 1, by omega, _, hprevious, hx⟩
  | relative target anchor offset =>
    obtain ⟨j, hj, before, -, hbefore, rfl⟩ := h.relative_before hentry hplacement
    simp only [hplacement, startExpression?, Option.map_some, StartExpression.references,
      Option.getD_some, List.mem_singleton] at hx
    exact ⟨j, hj, before, hbefore, hx⟩

namespace Project.ResolvesTo

variable {p : Project} {r : Resolved}

/-- The clips of all elements are in scope once the library is there, and they are all bound. -/
theorem scoped_clipStatements (hr : p.ResolvesTo r) (h : p.Usable) (settings : ScriptSettings)
    (effects : EffectRegistry LetterEffect) {before : List (Statement LetterEffect)}
    (hlibrary : Bound before .library) :
    Scoped before (r.clipStatements settings effects) ∧
      ∀ e ∈ r.project.elements, Bound (r.clipStatements settings effects) (.element e.name) := by
  have hreferences := hr.references h
  let texts (e : Element) :=
    textStatements settings effects (r.animationDuration settings e.name) e
  have hvideo {scope : List (Statement LetterEffect)} (hscope : Bound scope .library) (e : Element)
      (hcategory : e.category = .video) :=
    introduces_videoStatements hscope r.project settings.canvas hcategory
  have htext {scope : List (Statement LetterEffect)} (hscope : Bound scope .library) (e : Element)
      (hcategory : e.category = .textual) : Introduces scope e (texts e) :=
    introduces_textStatements hscope settings effects _ hcategory
  have haudio {scope : List (Statement LetterEffect)} (hscope : Bound scope .library) (e : Element)
      (hcategory : e.category = .audio) := introduces_audioStatements hscope hcategory
  constructor
  · simp only [Resolved.clipStatements, scoped_append]
    refine ⟨⟨?_, ?_⟩, ?_⟩
    · exact scoped_pass hreferences .video _ (fun e _ => hvideo hlibrary e) [] _ rfl
        (List.Subset.refl _) (by simp)
    · exact scoped_pass hreferences .textual texts (fun e _ => htext hlibrary e) [] _ rfl
        (List.subset_append_left _ _) (by simp)
    · exact scoped_pass hreferences .audio _ (fun e _ => haudio hlibrary e) [] _ rfl
        (List.subset_append_left _ _) (by simp)
  · intro e he
    simp only [Resolved.clipStatements, bound_append]
    cases hcategory : e.category with
    | video =>
      exact Or.inl (Or.inl ((hvideo hlibrary e hcategory).element.flatMap _
        (List.mem_filter.mpr ⟨he, by simp [hcategory]⟩)))
    | textual =>
      exact Or.inl (Or.inr ((htext hlibrary e hcategory).element.flatMap texts
        (List.mem_filter.mpr ⟨he, by simp [Element.isTextual, hcategory]⟩)))
    | audio =>
      exact Or.inr ((haudio hlibrary e hcategory).element.flatMap _
        (List.mem_filter.mpr ⟨he, by simp [hcategory]⟩))

/-- The assignments of entries are in scope once the clips of elements are there. -/
theorem scoped_entries (hr : p.ResolvesTo r) (h : p.Usable) {defaultText : Float}
    {entries : List (EntryStatement Float)} (hentries : r.entryStatements defaultText = .ok entries)
    {before : List (Statement LetterEffect)}
    (hclips : ∀ e ∈ r.project.elements, Bound before (.element e.name)) :
    Scoped before (entries.map .entry) := by
  rw [scoped_iff_split]
  intro front s back hsplit x hx
  obtain ⟨earlier, rest, rfl, rfl, hrest⟩ := List.map_eq_append_iff.mp hsplit
  obtain ⟨s, later, rfl, rfl, rfl⟩ := List.map_eq_cons_iff.mp hrest
  have hs : (earlier ++ s :: later)[earlier.length]? = some s := by simp
  obtain ⟨entry, e, hentry, he, -, rfl⟩ := hr.getElem?_entryStatements hentries hs
  rw [bound_append]
  rcases List.mem_cons.mp hx with rfl | hx
  · refine Or.inl ?_
    refine hclips (p.mergeInto e) ?_
    rw [hr.elements]
    exact List.mem_map_of_mem he
  · obtain ⟨j, hj, target, htarget, rfl⟩ := h.entry_of_mem_start hentry hx
    have hearlier (s : EntryStatement Float) : (earlier ++ s :: later)[j]? = some earlier[j] := by
      rw [List.getElem?_append_left hj, List.getElem?_eq_getElem hj]
    exact Or.inr ⟨.entry earlier[j], List.mem_map_of_mem (List.getElem_mem hj), _, rfl,
      hr.clip_entryStatements hentries (hearlier _) htarget⟩

/-- The assignments of entries bind the variables of all entries. -/
theorem bound_entries (hr : p.ResolvesTo r) {defaultText : Float}
    {entries : List (EntryStatement Float)} (hentries : r.entryStatements defaultText = .ok entries)
    {entry : Entry} (hentry : entry ∈ p.timeline) :
    Bound (entries.map .entry) (.entry (entryVariable entry.name)) := by
  obtain ⟨i, hi, rfl⟩ := List.mem_iff_getElem.mp hentry
  have hi' : i < entries.length := by rwa [hr.length_entryStatements hentries]
  exact ⟨.entry entries[i], List.mem_map_of_mem (List.getElem_mem hi'), _, rfl,
    hr.clip_entryStatements hentries (List.getElem?_eq_getElem hi') (List.getElem?_eq_getElem hi)⟩

/-- The composition is in scope once the entries are there. -/
theorem scoped_compositionStatements (hr : p.ResolvesTo r) {layered : List (Entry × Element)}
    (hlayered : r.layered = .ok layered) (name : String) (canvas : Canvas)
    {before : List (Statement LetterEffect)} (hlibrary : Bound before .library)
    (hplaced : ∀ entry ∈ p.timeline, Bound before (.entry (entryVariable entry.name))) :
    Scoped before (compositionStatements name canvas layered) := by
  have hvideo : ∀ clip ∈ visualClips layered, Bound before (.entry clip) := by
    intro clip hclip
    obtain ⟨x, hx, rfl⟩ := exists_of_mem_visualClips hclip
    exact hplaced _ (hr.mem_timeline_of_mem_layered hlayered hx)
  have haudio : ∀ track ∈ audibleTracks layered, Bound before (.entry track.clip) := by
    intro track htrack
    obtain ⟨x, hx, hclip⟩ := exists_of_mem_audibleTracks htrack
    rw [hclip]
    exact hplaced _ (hr.mem_timeline_of_mem_layered hlayered hx)
  unfold compositionStatements
  split <;>
    simp +contextual [Scoped, Statement.references, Reference.BoundBy, hlibrary, hvideo, haudio]

/-- The script of a resolved project is the text of its statements without repetitions. -/
theorem exists_script (hr : p.ResolvesTo r) (settings : ScriptSettings)
    (effects : EffectRegistry LetterEffect) :
    ∃ statements, r.statements settings effects = .ok statements ∧
      r.script settings effects = .ok (textOf (written [] statements)) := by
  obtain ⟨statements, hstatements, hscript⟩ := hr.script_eq_render settings effects
  exact ⟨statements, hstatements, by rw [hscript, render_eq_textOf]⟩

/-- The statements of a usable project are in scope. -/
theorem exists_scoped_statements (hr : p.ResolvesTo r) (h : p.Usable) (settings : ScriptSettings)
    (effects : EffectRegistry LetterEffect) :
    ∃ statements, r.statements settings effects = .ok statements ∧ Scoped [] statements := by
  obtain ⟨entries, layered, hentries, hlayered, hstatements⟩ :=
    hr.exists_statements settings effects
  have hlibrary : Bound [.importLibrary, .blank] .library := by simp [Reference.BoundBy]
  obtain ⟨hclips, hbound⟩ := hr.scoped_clipStatements h settings effects hlibrary
  refine ⟨_, hstatements, ?_⟩
  simp only [scoped_append, List.nil_append]
  refine ⟨⟨⟨⟨?_, hclips⟩, ?_⟩, ?_⟩, ?_⟩
  · simp [Scoped, Statement.references]
  · exact hr.scoped_entries h hentries fun e he => (hbound e he).mono (List.subset_append_right _ _)
  · simp [Scoped, Statement.references]
  · apply hr.scoped_compositionStatements hlayered
    · simp [Reference.BoundBy]
    · intro entry hentry
      have hplaced := hr.bound_entries hentries hentry
      simp [hplaced]

/-- The statements that are written for a usable project are in scope, too. -/
theorem exists_scoped_written (hr : p.ResolvesTo r) (h : p.Usable) (settings : ScriptSettings)
    (effects : EffectRegistry LetterEffect) :
    ∃ statements, r.statements settings effects = .ok statements ∧
      r.script settings effects = .ok (textOf (written [] statements)) ∧
      Scoped [] (written [] statements) := by
  obtain ⟨statements, hstatements, hscoped⟩ := hr.exists_scoped_statements h settings effects
  refine ⟨statements, hstatements, ?_, hscoped.written (List.Subset.refl _) (by simp)⟩
  rw [Resolved.script, hstatements, ← render_eq_textOf]
  rfl

end Project.ResolvesTo

end Montage
