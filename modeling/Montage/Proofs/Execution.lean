import Montage.Proofs.Interpreter
import Montage.Proofs.Resolution

/-!
# The timing of a script as it runs

What a statement does to the clips in variables is told by its lines. It is stated here for the
statement as a whole: a statement that reads a variable without a clip does not run, and one that
runs changes only what it binds. So the clips of elements can be followed through the three passes
that make them.
-/

namespace Montage

variable {T : Type} [TimeScale T]

/-- A value moved by a length, forward or back. -/
def Reading.shifted (reading : Reading T) (base : T) : Option (Sign × Float) → T
  | none => base
  | some (.plus, t) => base + reading.literal t
  | some (.minus, t) => base - reading.literal t

/-! ## Running statements -/

namespace Script

/-- The value of a start, if the clips it refers to are there. -/
def StartExpression.value? (reading : Reading T) (vars : Variables T) :
    StartExpression Float → Option T
  | .instant t => some (reading.literal t)
  | .relative clip anchor shift => do
    let c ← vars clip
    let base ← match anchor with
      | .start => some c.start
      | .stop => c.stop?
    return reading.shifted base shift

/-- The clip that an entry is assigned. -/
def EntryStatement.clip? (reading : Reading T) (vars : Variables T) (s : EntryStatement Float) :
    Option (Clip T) := do
  let c ← vars s.element
  let start ← match s.start with
    | none => some c.start
    | some e => e.value? reading vars
  return ⟨start, (s.duration.map reading.literal).or c.duration⟩

/-- Runs a statement, given the lengths of files. -/
def Statement.run? (reading : Reading T) (known : KnownDurations T) (vars : Variables T) :
    Statement LetterEffect → Option (Variables T)
  | loadVideo clip path => some (Function.update vars clip (some ⟨0, known.lookup path⟩))
  | loadAudio clip path => some (Function.update vars clip (some ⟨0, known.lookup path⟩))
  | cut clip source start stop =>
    (vars source).map fun c => Function.update vars clip
      (some ⟨c.start, some (TimeScale.seconds stop - TimeScale.seconds start)⟩)
  | adjust clip _ => (vars clip).map fun c => Function.update vars clip (some c)
  | choose clip _ _ => (vars clip).map fun c => Function.update vars clip (some c)
  | apply clip _ => (vars clip).map fun c => Function.update vars clip (some c)
  | opacity clip _ => (vars clip).map fun c => Function.update vars clip (some c)
  | textClip clip _ _ => some (Function.update vars clip (some ⟨0, none⟩))
  | findLetters clip => (vars clip).map fun _ => Function.update vars (lettersVariable clip) none
  | animate clip _ _ duration _ =>
    (vars clip).map fun _ => Function.update vars clip
      (some ⟨0, (reading.number [.number "0"]).map (reading.literal duration - ·)⟩)
  | entry s => (s.clip? reading vars).map fun c => Function.update vars s.clip (some c)
  | composeVideo _ _ => some (Function.update vars "final_video" (some ⟨0, none⟩))
  | composeAudio _ => some (Function.update vars "final_audio" (some ⟨0, none⟩))
  | s => some (vars.without s.ownBindings)

/-- Runs statements one after another. -/
def runAll (reading : Reading T) (known : KnownDurations T)
    (statements : List (Statement LetterEffect)) (vars : Variables T) : Option (Variables T) :=
  statements.foldlM (Statement.run? reading known) vars

/-! ## Single statements -/

variable (reading : Reading T) (known : KnownDurations T)

/-- A statement leaves alone what it does not bind. -/
theorem Statement.run?_of_ne {s : Statement LetterEffect} {vars vars' : Variables T} {x : String}
    (h : s.run? reading known vars = some vars') (hassigned : s.assigned? ≠ some x)
    (hown : x ∉ s.ownBindings) : vars' x = vars x := by
  cases s <;>
    simp only [run?, Option.map_eq_some_iff, Option.some.injEq] at h <;>
    simp only [assigned?, ne_eq, Option.some.injEq, reduceCtorEq, not_false_eq_true] at hassigned
  case cut | adjust | choose | apply | opacity | findLetters | animate | entry =>
    obtain ⟨c, -, rfl⟩ := h
    exact Function.update_of_ne (Ne.symm hassigned) _ _
  case loadVideo | loadAudio | textClip =>
    subst h
    exact Function.update_of_ne (Ne.symm hassigned) _ _
  case composeVideo | composeAudio =>
    subst h
    exact Function.update_of_ne (by simpa [ownBindings] using hown) _ _
  all_goals
    subst h
    simp [Variables.without, hown]

/-- A statement that assigns nothing on behalf of the project always runs. -/
theorem Statement.exists_run?_of_assigned? {s : Statement LetterEffect} (h : s.assigned? = none)
    (vars : Variables T) : ∃ vars', s.run? reading known vars = some vars' := by
  cases s <;> first | exact ⟨_, rfl⟩ | simp [assigned?] at h

/-- A statement that adapts a clip runs and keeps its timing. -/
theorem Statement.run?_of_adapts {s : Statement LetterEffect} {clip : String}
    (h : s.adapts clip = true) (hclip : clip ∉ ownNames) {vars : Variables T} {c : Clip T}
    (hc : vars clip = some c) :
    ∃ vars', s.run? reading known vars = some vars' ∧ vars' clip = some c := by
  have hown : clip ∉ s.ownBindings := fun hmem => hclip (s.ownBindings_subset hmem)
  cases s <;> simp only [adapts, decide_eq_true_eq, Bool.false_eq_true] at h
  case adjust | choose | apply | opacity =>
    subst h
    exact ⟨Function.update vars _ (some c), by simp [run?, hc], Function.update_self ..⟩
  all_goals exact ⟨_, rfl, by simp [Variables.without, hown, hc]⟩

end Script

/-- How long the clip of a video or sound lasts. -/
def Element.mediaLength? (known : KnownDurations T) : Element → Option T
  | video v => known.lookup v.path
  | audio a => known.lookup a.path
  | e => e.extractLength?

/-- The variable of an element holds its clip: it starts at zero, and unless it is a text, it lasts
as long as the element does. -/
def Element.Held (known : KnownDurations T) (vars : Variables T) (e : Element) : Prop :=
  ∃ c, vars e.name = some c ∧ c.start = 0 ∧
    (e.isTextual = false → c.duration = e.mediaLength? known)

/-- The variable of the element that a piece is cut from holds a clip that starts at zero. -/
def Element.SourceHeld (vars : Variables T) (e : Element) : Prop :=
  ∀ source, e.source? = some source → ∃ c, vars source = some c ∧ c.start = 0

namespace Script

variable (reading : Reading T) (known : KnownDurations T)

/-- Opening a clip makes it start at zero and last as long as the element. -/
theorem run?_of_opening? {e : Element} {s : Statement LetterEffect} (h : e.opening? = some s)
    {vars : Variables T} (hsource : e.SourceHeld vars) :
    ∃ vars', s.run? reading known vars = some vars' ∧
      vars' e.name = some ⟨0, e.mediaLength? known⟩ := by
  cases e <;> simp only [Element.opening?, Option.some.injEq, reduceCtorEq] at h <;> subst h
  case video v => exact ⟨_, rfl, Function.update_self ..⟩
  case audio a => exact ⟨_, rfl, Function.update_self ..⟩
  case videoExtract x =>
    obtain ⟨c, hc, hstart⟩ := hsource x.source rfl
    exact ⟨_, by simp only [Statement.run?, hc, hstart, Option.map_some]; rfl,
      Function.update_self ..⟩
  case audioExtract x =>
    obtain ⟨c, hc, hstart⟩ := hsource x.source rfl
    exact ⟨_, by simp only [Statement.run?, hc, hstart, Option.map_some]; rfl,
      Function.update_self ..⟩

/-! ## Runs -/

/-- A run of two parts is a run of the first and then of the second. -/
theorem runAll_append (ss ts : List (Statement LetterEffect)) (vars : Variables T) :
    runAll reading known (ss ++ ts) vars =
      (runAll reading known ss vars).bind (runAll reading known ts) :=
  List.foldlM_append

/-- A run starts with its first statement. -/
theorem runAll_cons (s : Statement LetterEffect) (ss : List (Statement LetterEffect))
    (vars : Variables T) :
    runAll reading known (s :: ss) vars =
      (s.run? reading known vars).bind (runAll reading known ss) :=
  List.foldlM_cons

/-- A run leaves alone what none of its statements binds. -/
theorem runAll_of_not_mem {ss : List (Statement LetterEffect)} {vars vars' : Variables T}
    {x : String} (h : runAll reading known ss vars = some vars') (hassigned : x ∉ assignedBy ss)
    (hown : x ∉ ownNames) : vars' x = vars x := by
  induction ss generalizing vars with
  | nil =>
    obtain rfl : vars = vars' := by simpa [runAll] using h
    rfl
  | cons s ss ih =>
    rw [runAll_cons, Option.bind_eq_some_iff] at h
    obtain ⟨mid, hs, hss⟩ := h
    rw [assignedBy_cons, List.mem_append, not_or] at hassigned
    rw [ih hss hassigned.2]
    refine s.run?_of_ne reading known hs ?_ fun hmem => hown (s.ownBindings_subset hmem)
    intro heq
    exact hassigned.1 (by simp [heq])

/-- Statements that assign nothing on behalf of the project always run. -/
theorem exists_runAll_of_assigned?_eq_none (ss : List (Statement LetterEffect))
    (h : ∀ s ∈ ss, s.assigned? = none) (vars : Variables T) :
    ∃ vars', runAll reading known ss vars = some vars' := by
  induction ss generalizing vars with
  | nil => exact ⟨vars, rfl⟩
  | cons s ss ih =>
    obtain ⟨mid, hmid⟩ := s.exists_run?_of_assigned? reading known (h s List.mem_cons_self) vars
    rw [runAll_cons, hmid]
    exact ih (fun t ht => h t (List.mem_cons_of_mem _ ht)) mid

/-- Statements that adapt a clip run and keep its timing. -/
theorem runAll_of_adapts {ss : List (Statement LetterEffect)} {clip : String}
    (h : ∀ s ∈ ss, s.adapts clip = true) (hclip : clip ∉ ownNames) {vars : Variables T}
    {c : Clip T} (hc : vars clip = some c) :
    ∃ vars', runAll reading known ss vars = some vars' ∧ vars' clip = some c := by
  induction ss generalizing vars with
  | nil => exact ⟨vars, rfl, hc⟩
  | cons s ss ih =>
    obtain ⟨mid, hmid, hkept⟩ := s.run?_of_adapts reading known (h s List.mem_cons_self) hclip hc
    rw [runAll_cons, hmid]
    exact ih (fun t ht => h t (List.mem_cons_of_mem _ ht)) hkept

/-! ## The clips of elements -/

/-- Statements that open a clip and adapt it leave it with the length of its element. -/
theorem runAll_of_openedBy {e : Element} {ss : List (Statement LetterEffect)} (h : e.OpenedBy ss)
    (hname : e.name ∉ ownNames) {vars : Variables T} (hsource : e.SourceHeld vars) :
    ∃ vars', runAll reading known ss vars = some vars' ∧
      vars' e.name = some ⟨0, e.mediaLength? known⟩ := by
  obtain ⟨title, opening, rest, rfl, hopening, hrest⟩ := h
  obtain ⟨mid, hmid, hopened⟩ := run?_of_opening? reading known hopening hsource
  obtain ⟨vars', hvars', hkept⟩ := runAll_of_adapts reading known hrest hname hopened
  refine ⟨vars', ?_, hkept⟩
  have hcomment : (Statement.comment title).run? reading known vars = some vars := by
    simp [Statement.run?, Statement.ownBindings]
  rw [runAll_cons, hcomment, Option.bind_some, runAll_cons, hmid, Option.bind_some, hvars']

/-- The letters of a text are kept apart from the text. -/
theorem lettersVariable_ne (name : String) : lettersVariable name ≠ name := by
  intro heq
  have hlength := congrArg String.length heq
  simp [lettersVariable, String.length_append] at hlength

/-- An animation runs and leaves a clip that starts at zero. -/
theorem runAll_animationStatements {clip : String} (hclip : clip ∉ ownNames)
    (effect : LetterEffect) (canvas : Canvas) (duration : Float) (position : Point)
    {vars : Variables T} {c : Clip T} (hc : vars clip = some c) :
    ∃ vars' c', runAll reading known
        (animationStatements clip effect canvas duration position) vars = some vars' ∧
      vars' clip = some c' ∧ c'.start = 0 := by
  -- The functions come first; they do not touch the clip.
  let functions : List (Statement LetterEffect) :=
    [.letterHelpers, .letterMotion effect, .comment s!"Animate the letters of {clip}"]
  obtain ⟨mid, hmid⟩ := exists_runAll_of_assigned?_eq_none reading known
    functions (by simp [functions, Statement.assigned?]) vars
  have hkept : mid clip = some c := by
    rw [runAll_of_not_mem reading known hmid (by simp [functions, Statement.assigned?]) hclip, hc]
  have hsplit : animationStatements clip effect canvas duration position =
      functions ++ [.findLetters clip, .animate clip effect canvas duration position] := rfl
  have hletters : Function.update mid (lettersVariable clip) none clip = some c := by
    rw [Function.update_of_ne (lettersVariable_ne clip).symm, hkept]
  refine ⟨_, ⟨0, (reading.number [.number "0"]).map (reading.literal duration - ·)⟩, ?_,
    Function.update_self clip _ (Function.update mid (lettersVariable clip) none), rfl⟩
  rw [hsplit, runAll_append, hmid, Option.bind_some, runAll_cons]
  simp [Statement.run?, hkept, hletters, runAll]

/-- The statements of a text run and leave a clip that starts at zero. -/
theorem runAll_textStatements {e : Element} {t : TextBlock} (ht : e.textBlock? = some t)
    (hname : t.name ∉ ownNames) (settings : ScriptSettings) (effects : EffectRegistry LetterEffect)
    (duration : Float) (vars : Variables T) :
    ∃ vars' c, runAll reading known (textStatements settings effects duration e) vars = some vars' ∧
      vars' t.name = some c ∧ c.start = 0 := by
  have hopen (title : String) (arguments : TextArguments) (position : Point) :
      runAll reading known [.comment title, .textClip t.name arguments position] vars =
        some (Function.update vars t.name (some ⟨0, none⟩)) := by
    simp [runAll, Statement.run?, Statement.ownBindings]
  have hblank (vars : Variables T) : runAll reading known [.blank] vars = some vars := by
    simp [runAll, Statement.run?, Statement.ownBindings]
  simp only [textStatements, ht]
  rw [runAll_append, runAll_append, hopen, Option.bind_some]
  cases chosenEffect? effects t.options with
  | none => exact ⟨_, _, hblank _, Function.update_self .., rfl⟩
  | some effect =>
    obtain ⟨vars', c, hvars', hc, hstart⟩ := runAll_animationStatements reading known hname effect
      settings.canvas duration (textPosition settings e t.options)
      (Function.update_self t.name (some (⟨0, none⟩ : Clip T)) vars)
    exact ⟨vars', c, by rw [hvars', Option.bind_some, hblank], hc, hstart⟩

/-! ## The passes over elements -/

/-- Statements that make the clip of an element: they assign nothing but its clip and its letters,
and once its source is there, they run and leave its clip in its variable. -/
structure Makes (reading : Reading T) (known : KnownDurations T) (e : Element)
    (ss : List (Statement LetterEffect)) : Prop where
  assigns : ∀ x ∈ assignedBy ss, x = e.name ∨ e.isTextual = true ∧ x = lettersVariable e.name
  runs : ∀ vars, e.SourceHeld vars →
    ∃ vars', runAll reading known ss vars = some vars' ∧ e.Held known vars'

/-- Statements that open a clip and adapt it make it. -/
theorem makes_of_openedBy {e : Element} {ss : List (Statement LetterEffect)} (h : e.OpenedBy ss)
    (hname : e.name ∉ ownNames) : Makes reading known e ss := by
  refine ⟨fun x hx => Or.inl ((mem_assignedBy_of_openedBy h x).mp hx), fun vars hsource => ?_⟩
  obtain ⟨vars', hvars', hclip⟩ := runAll_of_openedBy reading known h hname hsource
  exact ⟨vars', hvars', _, hclip, rfl, fun _ => rfl⟩

/-- The statements of a text make its clip. -/
theorem makes_textStatements {e : Element} (htextual : e.category = .textual)
    (hname : e.name ∉ ownNames) (settings : ScriptSettings) (effects : EffectRegistry LetterEffect)
    (duration : Float) : Makes reading known e (textStatements settings effects duration e) := by
  obtain ⟨t, ht, hsame⟩ := Element.exists_textBlock? htextual
  refine ⟨?_, fun vars _ => ?_⟩
  · intro x hx
    rw [mem_assignedBy_textStatements settings effects duration htextual] at hx
    exact hx.imp id fun hletters => ⟨by simp [Element.isTextual, htextual], hletters.2⟩
  · obtain ⟨vars', c, hvars', hc, hstart⟩ := runAll_textStatements reading known ht
      (hsame ▸ hname) settings effects duration vars
    refine ⟨vars', hvars', c, hsame ▸ hc, hstart, ?_⟩
    simp [Element.isTextual, htextual]

end Script

open Script

/-- An element stays held while its variable keeps its value. -/
theorem Element.Held.congr {known : KnownDurations T} {vars vars' : Variables T} {e : Element}
    (h : e.Held known vars) (heq : vars' e.name = vars e.name) : e.Held known vars' := by
  rwa [Element.Held, heq]

/-- Making the clip of one element leaves the variables of all others alone. -/
theorem Project.SoundNames.runAll_of_makes {q : Project} (h : q.SoundNames) {reading : Reading T}
    {known : KnownDurations T} {e x : Element} (he : e ∈ q.elements) (hx : x ∈ q.elements)
    (hne : x.name ≠ e.name) {ss : List (Statement LetterEffect)} (hmakes : Makes reading known e ss)
    {vars vars' : Variables T} (hrun : runAll reading known ss vars = some vars') :
    vars' x.name = vars x.name := by
  refine runAll_of_not_mem reading known hrun ?_
    (not_mem_ownNames_of_isVariable (h.isVariable x hx))
  intro hmem
  rcases hmakes.assigns _ hmem with heq | ⟨htextual, hletters⟩
  · exact hne heq
  · exact h.letters e he htextual (hletters ▸ List.mem_map_of_mem hx)

/-- A pass over the elements of a category makes all their clips and leaves the others alone. The
induction is on the elements still to come; those passed before are held, so that pieces find the
elements they are cut from. -/
theorem Script.exists_runAll_pass {q : Project} (hnames : q.SoundNames)
    (hreferences : q.SoundReferences) {reading : Reading T} {known : KnownDurations T}
    (category : Category) (f : Element → List (Statement LetterEffect))
    (hf : ∀ e ∈ q.elements, e.category = category → Makes reading known e (f e))
    (before after : List Element) (helements : q.elements = before ++ after) (vars : Variables T)
    (hbefore : ∀ e ∈ before, e.category = category → e.Held known vars) :
    ∃ vars', runAll reading known
        ((after.filter fun e => e.category = category).flatMap f) vars = some vars' ∧
      (∀ e ∈ q.elements, e.category = category → e.Held known vars') ∧
      ∀ e ∈ q.elements, e.category ≠ category → vars' e.name = vars e.name := by
  induction after generalizing before vars with
  | nil =>
    rw [List.append_nil] at helements
    exact ⟨vars, rfl, fun e he => hbefore e (helements ▸ he), fun e _ _ => rfl⟩
  | cons e rest ih =>
    have he : e ∈ q.elements := by simp [helements]
    have hsplit : q.elements = (before ++ [e]) ++ rest := by simp [helements]
    by_cases hcategory : e.category = category
    · have hsource : e.SourceHeld vars := by
        intro source hsource
        obtain ⟨x, hx, rfl, hsame⟩ := hreferences.source before e rest source helements hsource
        obtain ⟨c, hc, hstart, -⟩ := hbefore x hx (hsame.trans hcategory)
        exact ⟨c, hc, hstart⟩
      obtain ⟨mid, hmid, hheld⟩ := (hf e he hcategory).runs vars hsource
      have hkept : ∀ x ∈ q.elements, x.name ≠ e.name → mid x.name = vars x.name :=
        fun x hx hne => hnames.runAll_of_makes he hx hne (hf e he hcategory) hmid
      have hbefore' : ∀ x ∈ before ++ [e], x.category = category → x.Held known mid := by
        intro x hx hsame
        by_cases hname : x.name = e.name
        · have hxq : x ∈ q.elements := by rw [hsplit]; exact List.mem_append_left _ hx
          rw [hnames.element_inj hxq he hname]
          exact hheld
        · rcases List.mem_append.mp hx with hx | hx
          · exact (hbefore x hx hsame).congr (hkept x (by simp [helements, hx]) hname)
          · exact absurd (congrArg Element.name (List.mem_singleton.mp hx)) hname
      obtain ⟨vars', hvars', hall, hothers⟩ := ih (before ++ [e]) hsplit mid hbefore'
      refine ⟨vars', ?_, hall, ?_⟩
      · rw [List.filter_cons_of_pos (by simpa using hcategory), List.flatMap_cons, runAll_append,
          hmid, Option.bind_some, hvars']
      · intro x hx hother
        have hname : x.name ≠ e.name := by
          intro hname
          exact hother (hnames.element_inj hx he hname ▸ hcategory)
        rw [hothers x hx hother, hkept x hx hname]
    · rw [List.filter_cons_of_neg (by simpa using hcategory)]
      refine ih (before ++ [e]) hsplit vars fun x hx hsame => ?_
      rcases List.mem_append.mp hx with hx | hx
      · exact hbefore x hx hsame
      · exact absurd (List.mem_singleton.mp hx ▸ hsame) hcategory

/-- The clips of all elements of a usable project are made. -/
theorem Project.ResolvesTo.exists_runAll_clipStatements {p : Project} {r : Resolved}
    (hr : p.ResolvesTo r) (h : p.Usable) (reading : Reading T) (known : KnownDurations T)
    (settings : ScriptSettings) (effects : EffectRegistry LetterEffect) (vars : Variables T) :
    ∃ vars', runAll reading known (r.clipStatements settings effects) vars = some vars' ∧
      ∀ e ∈ r.project.elements, e.Held known vars' := by
  have hnames := hr.names h
  have hreferences := hr.references h
  have hown : ∀ e ∈ r.project.elements, e.name ∉ ownNames :=
    fun e he => not_mem_ownNames_of_isVariable (hnames.isVariable e he)
  obtain ⟨videos, hvideos, hvideo, -⟩ := exists_runAll_pass hnames hreferences .video
    (videoStatements r.project settings.canvas)
    (fun e he hcategory =>
      makes_of_openedBy reading known (openedBy_videoStatements hcategory) (hown e he))
    [] r.project.elements rfl vars (by simp)
  obtain ⟨texts, htexts, htext, hkept⟩ := exists_runAll_pass hnames hreferences .textual
    (fun e => textStatements settings effects (r.animationDuration settings e.name) e)
    (fun e he hcategory => makes_textStatements reading known hcategory (hown e he) _ _ _)
    [] r.project.elements rfl videos (by simp)
  obtain ⟨sounds, hsounds, hsound, hkept'⟩ := exists_runAll_pass hnames hreferences .audio
    audioStatements
    (fun e he hcategory =>
      makes_of_openedBy reading known (openedBy_audioStatements hcategory) (hown e he))
    [] r.project.elements rfl texts (by simp)
  refine ⟨sounds, ?_, ?_⟩
  · change runAll reading known (_ ++ _ ++ _) vars = _
    rw [runAll_append, runAll_append, hvideos, Option.bind_some]
    exact (congrArg (Option.bind · _) htexts).trans hsounds
  · intro e he
    cases hcategory : e.category with
    | video =>
      have hne : e.category ≠ .textual ∧ e.category ≠ .audio := by simp [hcategory]
      exact (hvideo e he hcategory).congr ((hkept' e he hne.2).trans (hkept e he hne.1))
    | textual =>
      have hne : e.category ≠ .audio := by simp [hcategory]
      exact (htext e he hcategory).congr (hkept' e he hne)
    | audio => exact hsound e he hcategory

end Montage
