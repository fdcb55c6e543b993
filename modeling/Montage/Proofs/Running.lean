import Montage.Proofs.Execution
import Montage.Proofs.Written

/-!
# Statements as they run from their text

Running the lines of a statement changes the clips in variables as the statement does. The names of
the script itself hold no clips, so calls of the library and of effects are told from calls of
clips; and for the same reason it does not matter that functions are defined only once.
-/

namespace Montage

variable {T : Type} [TimeScale T]

namespace Script

variable {reading : Reading T} {known : KnownDurations T} {vars vars' : Variables T}

/-! ## Names of the script -/

/-- The names of the script hold no clips, except for the finished film and its sound. -/
def Quiet (vars : Variables T) : Prop :=
  ∀ x ∈ ownNames, x ≠ "final_video" → x ≠ "final_audio" → vars x = none

/-- A statement gives no clip to a name of the script on behalf of the project. -/
def Statement.Discreet (s : Statement LetterEffect) : Prop :=
  ∀ x, s.assigned? = some x → x ∉ ownNames ∨ ∃ clip, s = .findLetters clip

/-- What a statement binds for the script holds no clip, except for the finished film and its
sound. -/
theorem Statement.run?_of_mem_ownBindings {s : Statement LetterEffect}
    (h : s.run? reading known vars = some vars') {x : String} (hx : x ∈ s.ownBindings)
    (hvideo : x ≠ "final_video") (haudio : x ≠ "final_audio") : vars' x = none := by
  cases s <;> simp only [ownBindings, List.not_mem_nil] at hx
  case composeVideo => exact absurd (List.mem_singleton.mp hx) hvideo
  case composeAudio => exact absurd (List.mem_singleton.mp hx) haudio
  all_goals
    obtain rfl := Option.some.inj h
    exact if_pos hx

/-- A discreet statement leaves the names of the script without clips. -/
theorem Quiet.run? (hquiet : Quiet vars) {s : Statement LetterEffect} (hs : s.Discreet)
    (h : s.run? reading known vars = some vars') : Quiet vars' := by
  intro x hx hvideo haudio
  by_cases hassigned : s.assigned? = some x
  · rcases hs x hassigned with hnot | ⟨clip, rfl⟩
    · exact absurd hx hnot
    · obtain ⟨c, -, rfl⟩ := Option.map_eq_some_iff.mp h
      obtain rfl := Option.some.inj hassigned
      exact Function.update_self ..
  · by_cases hown : x ∈ s.ownBindings
    · exact s.run?_of_mem_ownBindings h hown hvideo haudio
    · rw [s.run?_of_ne reading known h hassigned hown]
      exact hquiet x hx hvideo haudio

/-- Functions that are defined once more change nothing. -/
theorem Quiet.run?_of_onceKey? (hquiet : Quiet vars) {s : Statement LetterEffect} {key : String}
    (hkey : s.onceKey? = some key) : s.run? reading known vars = some vars := by
  have hnone (hfilm : ∀ x ∈ s.ownBindings, x ≠ "final_video" ∧ x ≠ "final_audio") :
      vars.without s.ownBindings = vars :=
    Variables.without_eq_self fun x hx =>
      hquiet x (s.ownBindings_subset hx) (hfilm x hx).1 (hfilm x hx).2
  cases s <;> simp only [Statement.onceKey?, reduceCtorEq] at hkey
  case letterHelpers => exact congrArg some (hnone (by decide))
  case letterMotion effect => exact congrArg some (hnone (by cases effect <;> decide))

/-- What is written runs as what was asked for. -/
theorem Quiet.runAll_written (hquiet : Quiet vars) {ss : List (Statement LetterEffect)}
    (hss : ∀ s ∈ ss, s.Discreet) (h : runAll reading known ss vars = some vars')
    (keys : List String) : runAll reading known (written keys ss) vars = some vars' := by
  induction ss generalizing vars keys with
  | nil => exact h
  | cons s ss ih =>
    obtain ⟨hs, hrest⟩ := List.forall_mem_cons.mp hss
    rw [runAll_cons, Option.bind_eq_some_iff] at h
    obtain ⟨mid, hmid, hend⟩ := h
    have hmore (keys : List String) :
        runAll reading known (s :: written keys ss) vars = some vars' := by
      rw [runAll_cons, hmid]
      exact ih (hquiet.run? hs hmid) hrest hend keys
    rw [written]
    cases hkey : s.onceKey? with
    | none => exact hmore keys
    | some key =>
      by_cases hmet : key ∈ keys
      · simp only [hmet, if_true]
        obtain rfl := Option.some.inj ((hquiet.run?_of_onceKey? hkey).symm.trans hmid)
        exact ih hquiet hrest hend keys
      · simp only [hmet, if_false]
        exact hmore _

/-! ## Values in lines -/

omit [TimeScale T] in
/-- A variable that holds a clip stands for it. -/
theorem valueOf_of_eq_some {name : String} {c : Clip T} (h : vars name = some c) :
    valueOf vars name = .clip c := by
  simp [valueOf, h]

omit [TimeScale T] in
/-- The library stands for itself. -/
theorem Quiet.valueOf_library (hquiet : Quiet vars) : valueOf vars "moviepy" = .library := by
  have hnone : vars "moviepy" = none := hquiet _ (by decide) (by decide) (by decide)
  simp [valueOf, hnone]

omit [TimeScale T] in
/-- An effect is no clip. -/
theorem Quiet.valueOf_holder (hquiet : Quiet vars) (effect : ClipEffect) :
    valueOf vars effect.holder = .other := by
  have hnone : vars effect.holder = none := by
    refine hquiet _ effect.holder_mem_ownNames ?_ ?_ <;> cases effect <;> simp [ClipEffect.holder]
  have hne : effect.holder ≠ "moviepy" := by cases effect <;> simp [ClipEffect.holder]
  simp [valueOf, hnone, hne]

/-- A number is no reference to a clip. -/
theorem start?_numberTokens (x : Float) :
    start? reading vars (numberTokens x) = some (reading.literal x) := by
  rw [← reading.number_literal x]
  unfold start?
  split
  next name anchor shift htokens =>
    rcases numberTokens_cases x with hcall | hfigures
    · simp [htokens, callTokens] at hcall
    · simpa [Token.isFigure] using hfigures (.word name) (by simp [htokens])
  next => rfl

/-- The value of the text of a start. -/
theorem StartExpression.start?_tokens (e : StartExpression Float) :
    start? reading vars e.tokens = e.value? reading vars := by
  cases e with
  | instant t => exact start?_numberTokens t
  | relative clip anchor shift =>
    cases anchor <;> rcases shift with _ | ⟨_ | _, t⟩ <;>
      simp [start?, StartExpression.tokens, StartExpression.value?, Reading.shifted,
        reading.number_literal]

/-- The length of a piece that is cut up to a number. -/
theorem pieceLength?_append {ts : List Token} (h : Token.mark ',' ∉ ts) (x : Float) :
    pieceLength? reading (ts ++ .mark ',' :: numberTokens x) =
      (reading.number ts).map (reading.literal x - ·) := by
  have hkept : ∀ t ∈ ts, decide (t ≠ .mark ',') = true := by
    intro t ht
    rw [decide_eq_true_eq]
    rintro rfl
    exact h ht
  rw [pieceLength?, List.takeWhile_append_of_pos hkept, List.dropWhile_append_of_pos hkept]
  cases hstart : reading.number ts <;> simp [reading.number_literal, hstart]

/-- A line that assigns a value. -/
theorem runLine_assignment (indent : ℕ) (name : String) (value : List Token) :
    runLine reading known vars ⟨indent, assignment name value⟩ =
      Function.update vars name (evaluate reading known vars value).clip? :=
  rfl

/-- A call on what a name stands for. -/
theorem evaluate_call {name : String} {v : Value T} (hv : valueOf vars name = v)
    {arguments : List Token} (h : depthAfter 0 arguments = some 0) (called : String) :
    evaluate reading known vars (.word name :: method called arguments) =
      call reading known vars v called arguments := by
  rw [evaluate, hv, foldl_method h, Progress.result]

/-- Calls on the clip in a variable. -/
theorem evaluate_method {name : String} {c : Clip T} (h : vars name = some c) (calls : List Token) :
    evaluate reading known vars (.word name :: calls) =
      (calls.foldl (Progress.next reading known vars) (.value (.clip c))).result := by
  rw [evaluate, valueOf_of_eq_some h]

/-- A change of the frame of a clip keeps its times. -/
theorem Adjustment.runLine_tokens (a : Adjustment) {clip : String} {c : Clip T}
    (h : vars clip = some c) (indent : ℕ) :
    runLine reading known vars ⟨indent, a.tokens clip⟩ = vars := by
  have hupdate : Function.update vars clip (some c) = vars := by
    rw [← h]
    exact Function.update_eq_self clip vars
  cases a with
  | resize r =>
    have hclosed : depthAfter 0 r.tokens = some 0 := by
      cases r <;> simp +decide [Resize.tokens, named, Token.opened]
    rw [Adjustment.tokens, runLine_assignment, evaluate_call (valueOf_of_eq_some h) hclosed]
    simpa [call, Value.clip?] using hupdate
  | position p =>
    rw [Adjustment.tokens, runLine_assignment,
      evaluate_call (valueOf_of_eq_some h) (depthAfter_pointTokens p)]
    simpa [call, Value.clip?] using hupdate

/-- Lines that each change nothing change nothing. -/
theorem foldl_runLine_eq_self {lines : List CodeLine}
    (h : ∀ l ∈ lines, runLine reading known vars l = vars) :
    lines.foldl (runLine reading known) vars = vars := by
  induction lines with
  | nil => rfl
  | cons l lines ih =>
    obtain ⟨hl, hrest⟩ := List.forall_mem_cons.mp h
    rw [List.foldl_cons, hl, ih hrest]

/-- Whatever is chosen, the times of a clip are kept. -/
theorem Choice.foldl_runLine (choice : Choice) {clip : String} {c : Clip T} (h : vars clip = some c)
    (canvas : Canvas) (depth : ℕ) {lines : List CodeLine}
    (hlines : lines ⊆ choice.code clip canvas depth) :
    lines.foldl (runLine reading known) vars = vars := by
  have hcode : ∀ l ∈ choice.code clip canvas depth, runLine reading known vars l = vars :=
    Choice.forall_code (fun _ a => a.runLine_tokens h _) (fun _ _ => Variables.without_nil vars)
      (fun _ => Variables.without_nil vars) depth choice
  exact foldl_runLine_eq_self fun l hl => hcode l (hlines hl)

/-- Running one line that assigns a value. -/
theorem foldl_assignment {name : String} {value : List Token} {result : Option (Clip T)}
    (h : (evaluate reading known vars value).clip? = result) :
    [(⟨0, assignment name value⟩ : CodeLine)].foldl (runLine reading known) vars =
      Function.update vars name result :=
  congrArg (Function.update vars name) h

/-- The arguments of a text clip close their brackets. -/
theorem TextArguments.depthAfter_arguments (a : TextArguments) :
    depthAfter 0 a.arguments.flatten = some 0 := by
  have hcomma : (Token.mark ',').opened = 0 ∧ (Token.mark '=').opened = 0 := by decide
  unfold arguments
  cases a.background <;>
    simp [named, hcomma, depthAfter_append (depthAfter_sizeTokens a.size)]

/-- Making an effect gives no clip. -/
theorem Quiet.evaluate_effect (hquiet : Quiet vars) (effect : ClipEffect) :
    (evaluate reading known vars effect.tokens).clip? = none := by
  have hlibrary (kind name : String) {arguments : List Token}
      (h : depthAfter 0 arguments = some 0) (hname : name ≠ "apply") :
      (evaluate reading known vars (libraryEffect kind name arguments)).clip? = none := by
    have hother : call reading known vars .other name arguments = .other := by
      simp only [call, hname, if_false]
      split <;> rfl
    rw [libraryEffect, List.cons_append, evaluate, hquiet.valueOf_library, List.foldl_append]
    simp [Progress.next]
    rw [foldl_method_member h, hother]
    rfl
  cases effect <;> delta ClipEffect.tokens <;> dsimp only <;> refine hlibrary _ _ ?_ (by decide)
  case contrast | saturation | rotation | volume | stereoVolume =>
    exact depthAfter_commaTokens (by simp)
  all_goals simp

/-- The lines of the helpers of letters bind nothing that holds a clip. -/
theorem Quiet.runLine_letterHelpers (hquiet : Quiet vars) :
    ∀ l ∈ Statement.letterHelpers.runnable, runLine reading known vars l = vars := by
  have hown (names : List String) (hnames : ∀ x ∈ names, x ∈ ownNames ∧ x ≠ "final_video" ∧
      x ≠ "final_audio") : vars.without names = vars := by
    refine Variables.without_eq_self fun x hx => ?_
    obtain ⟨hmem, hvideo, haudio⟩ := hnames x hx
    exact hquiet x hmem hvideo haudio
  rw [Statement.runnable_letterHelpers]
  simp only [letterHelpersCode, List.cons_append, List.take_succ_cons, List.take_zero,
    List.forall_mem_cons, List.nil_append]
  refine ⟨?_, ?_, ?_, ?_, ?_, by simp⟩
  · exact hown ["np"] (by decide)
  · exact hown ["label", "find_objects"] (by decide)
  · rw [runLine_assignment]
    have hother : (evaluate reading known vars (.word "lambda" :: .word "a" ::
        tokens ": np.array([[np.cos(a), np.sin(a)], [-np.sin(a), np.cos(a)]])".toList)).clip? =
        none := by
      rw [evaluate, List.foldl_cons, Progress.next, foldl_lost]
      · rfl
      all_goals simp
    rw [hother, ← Variables.without_singleton]
    exact hown ["rotMatrix"] (by decide)
  · exact hown ["find_letters"] (by decide)
  · exact hown ["move_letters"] (by decide)

/-- The value that an entry is assigned is its clip. -/
theorem EntryStatement.evaluate_of_clip? {s : EntryStatement Float} {found : Clip T}
    (h : s.clip? reading vars = some found) :
    (evaluate reading known vars (.word s.element ::
      s.start.toList.flatMap (fun e => method "with_start" e.tokens) ++
      s.duration.toList.flatMap (fun t => method "with_duration" (numberTokens t)))).clip? =
      some found := by
  obtain ⟨clip, element, start, duration⟩ := s
  have hduration (c : Clip T) : (duration.toList.flatMap fun t =>
      method "with_duration" (numberTokens t)).foldl (Progress.next reading known vars)
        (.value (.clip c)) =
      .value (.clip ⟨c.start, (duration.map reading.literal).or c.duration⟩) := by
    cases duration with
    | none => rfl
    | some x =>
      simp [foldl_method (depthAfter_numberTokens x), call, reading.number_literal]
  simp only [EntryStatement.clip?, Option.bind_eq_bind, Option.bind_eq_some_iff] at h
  obtain ⟨c, hc, h⟩ := h
  rw [List.cons_append, evaluate_method hc, List.foldl_append]
  cases start with
  | none =>
    obtain rfl := Option.some.inj h
    exact congrArg (fun p => p.result.clip?) (hduration c)
  | some e =>
    obtain ⟨t, ht, hfound⟩ := Option.bind_eq_some_iff.mp h
    obtain rfl := Option.some.inj hfound
    have hclosed : depthAfter 0 e.tokens = some 0 := by
      cases e with
      | instant t => exact depthAfter_numberTokens t
      | relative clip anchor shift =>
        rcases shift with _ | ⟨_ | _, t⟩ <;>
          simp +decide [StartExpression.tokens, Token.opened]
    have hset : call reading known vars (.clip c) "with_start" e.tokens =
        .clip ⟨t, c.duration⟩ := by
      simp [call, e.start?_tokens, ht]
    simp only [Option.toList_some, List.flatMap_singleton]
    rw [foldl_method hclosed, hset, hduration]
    rfl

/-- Running the lines of a statement is running the statement. -/
theorem Statement.foldl_runLine {s : Statement LetterEffect} (hquiet : Quiet vars)
    (h : s.run? reading known vars = some vars') (answers : ℕ → Bool) (c : Control) :
    (executed answers c s.code).foldl (runLine reading known) vars = vars' := by
  cases hchoice : s.isChoice with
  | true =>
    cases s <;> simp only [isChoice, Bool.false_eq_true] at hchoice
    case choose clip canvas choice =>
      obtain ⟨clip', hclip, rfl⟩ := Option.map_eq_some_iff.mp h
      rw [← hclip, Function.update_eq_self]
      exact choice.foldl_runLine hclip canvas 0 (executed_sublist answers c _).subset
  | false =>
    rw [s.executed_code answers c hchoice]
    cases s with
    | choose => simp [isChoice] at hchoice
    | importLibrary => exact Option.some.inj h
    | blank => exact (Variables.without_nil vars).symm.trans (Option.some.inj h)
    | comment text => exact (Variables.without_nil vars).symm.trans (Option.some.inj h)
    | loadVideo clip path | loadAudio clip path =>
      obtain rfl := Option.some.inj h
      refine foldl_assignment ?_
      rw [evaluate_call hquiet.valueOf_library (by simp)]
      simp [call, Value.clip?]
    | cut clip source start stop =>
      obtain ⟨found, hfound, rfl⟩ := Option.map_eq_some_iff.mp h
      refine foldl_assignment ?_
      rw [evaluate_call (valueOf_of_eq_some hfound)
        (by simp +decide [depthAfter_append, Token.opened])]
      simp [call, Value.clip?, reading.number_literal, reading.literal_seconds,
        pieceLength?_append (comma_not_mem_numberTokens _)]
    | adjust clip a =>
      obtain ⟨found, hfound, rfl⟩ := Option.map_eq_some_iff.mp h
      rw [← hfound, Function.update_eq_self]
      exact a.runLine_tokens hfound 0
    | prepare effect =>
      obtain rfl := Option.some.inj h
      refine (foldl_assignment (hquiet.evaluate_effect effect)).trans ?_
      exact (Variables.without_singleton vars _).symm
    | apply clip effect =>
      obtain ⟨found, hfound, rfl⟩ := Option.map_eq_some_iff.mp h
      refine foldl_assignment ?_
      rw [evaluate_call (hquiet.valueOf_holder effect) (by simp)]
      simp [call, Value.clip?, valueOf_of_eq_some hfound]
    | opacity clip value =>
      obtain ⟨found, hfound, rfl⟩ := Option.map_eq_some_iff.mp h
      refine foldl_assignment ?_
      rw [evaluate_call (valueOf_of_eq_some hfound) (depthAfter_numberTokens value)]
      simp [call, Value.clip?]
    | textClip clip arguments position =>
      obtain rfl := Option.some.inj h
      refine foldl_assignment ?_
      rw [List.cons_append, evaluate, hquiet.valueOf_library, List.foldl_append,
        foldl_method arguments.depthAfter_arguments, foldl_method (depthAfter_pointTokens position)]
      simp [call, Progress.result, Value.clip?]
    | letterHelpers =>
      obtain rfl := Option.some.inj ((hquiet.run?_of_onceKey? rfl).symm.trans h)
      exact foldl_runLine_eq_self hquiet.runLine_letterHelpers
    | letterMotion effect =>
      obtain rfl := Option.some.inj h
      rw [runnable_letterMotion]
      rfl
    | findLetters clip =>
      obtain ⟨found, hfound, rfl⟩ := Option.map_eq_some_iff.mp h
      refine foldl_assignment ?_
      simp [evaluate, Progress.next, foldl_lost, Progress.result, Value.clip?]
    | animate clip effect canvas duration position =>
      obtain ⟨found, hfound, rfl⟩ := Option.map_eq_some_iff.mp h
      refine foldl_assignment ?_
      rw [List.cons_append, List.cons_append, evaluate, hquiet.valueOf_library, List.foldl_append,
        List.foldl_append, foldl_method (by simp +decide [depthAfter_append, Token.opened]),
        foldl_method (by simp +decide [Token.opened]),
        foldl_method (depthAfter_pointTokens position)]
      have hlength : pieceLength? reading ([.number "0"] ++ .mark ',' :: numberTokens duration) =
          (reading.number [.number "0"]).map (reading.literal duration - ·) :=
        pieceLength?_append (by simp) duration
      rw [List.singleton_append] at hlength
      simp [call, Progress.result, Value.clip?, hlength]
    | entry s =>
      obtain ⟨found, hfound, rfl⟩ := Option.map_eq_some_iff.mp h
      exact foldl_assignment (s.evaluate_of_clip? hfound)
    | composeVideo clips canvas =>
      obtain rfl := Option.some.inj h
      have hlist : depthAfter 0 (commaTokens (clips.map fun clip => [.word clip])) = some 0 :=
        depthAfter_commaTokens (List.forall_mem_map.mpr fun clip _ => by simp)
      refine foldl_assignment ?_
      rw [evaluate_call hquiet.valueOf_library
        (by simp +decide [depthAfter_append hlist, Token.opened])]
      simp [call, Value.clip?]
    | composeAudio tracks =>
      obtain rfl := Option.some.inj h
      have hlist : depthAfter 0 (commaTokens (tracks.map Track.tokens)) = some 0 := by
        refine depthAfter_commaTokens (List.forall_mem_map.mpr fun track _ => ?_)
        unfold Track.tokens
        split <;> simp +decide [Token.opened]
      refine foldl_assignment ?_
      rw [evaluate_call hquiet.valueOf_library
        (by simp +decide [depthAfter_append hlist, Token.opened])]
      simp [call, Value.clip?]
    | attachAudio => exact Option.some.inj h
    | exportFilm name => exact Option.some.inj h

/-- Running the lines of statements is running the statements. -/
theorem Quiet.foldl_executed (hquiet : Quiet vars) {ss : List (Statement LetterEffect)}
    (hss : ∀ s ∈ ss, s.Discreet) (h : runAll reading known ss vars = some vars')
    (answers : ℕ → Bool) (c : Control) :
    (executed answers c (ss.flatMap Statement.code)).foldl (runLine reading known) vars =
      vars' := by
  induction ss generalizing vars c with
  | nil => exact Option.some.inj h
  | cons s ss ih =>
    obtain ⟨hs, hrest⟩ := List.forall_mem_cons.mp hss
    rw [runAll_cons, Option.bind_eq_some_iff] at h
    obtain ⟨mid, hmid, hend⟩ := h
    obtain ⟨c', hc'⟩ := executed_append answers c s.code (ss.flatMap Statement.code)
    rw [List.flatMap_cons, hc', List.foldl_append, s.foldl_runLine hquiet hmid]
    exact ih (hquiet.run? hs hmid) hrest hend c'

/-- The statements of a text give a clip to its own variable only. -/
theorem eq_of_mem_textStatements {e : Element} (h : e.category = .textual)
    {settings : ScriptSettings} {effects : EffectRegistry LetterEffect} {duration : Float}
    {s : Statement LetterEffect} (hs : s ∈ textStatements settings effects duration e) {x : String}
    (hx : s.assigned? = some x) : x = e.name ∨ ∃ clip, s = .findLetters clip := by
  obtain ⟨t, ht, hname⟩ := Element.exists_textBlock? h
  rw [← hname]
  simp only [textStatements, ht] at hs
  cases hchosen : chosenEffect? effects t.options with
  | none =>
    simp only [hchosen, List.mem_append, List.mem_cons, List.not_mem_nil, or_false] at hs
    rcases hs with (rfl | rfl) | rfl <;> simp_all [Statement.assigned?]
  | some effect =>
    simp only [hchosen, animationStatements, List.mem_append, List.mem_cons, List.not_mem_nil,
      or_false] at hs
    rcases hs with ((rfl | rfl) | rfl | rfl | rfl | rfl | rfl) | rfl <;>
      simp_all [Statement.assigned?]

end Script

open Script

/-- The statements of a usable project give clips to no names of the script. -/
theorem Project.ResolvesTo.discreet_statements {p : Project} {r : Resolved} (hr : p.ResolvesTo r)
    (h : p.Usable) {settings : ScriptSettings} {effects : EffectRegistry LetterEffect}
    {statements : List (Statement LetterEffect)}
    (hstatements : r.statements settings effects = .ok statements) :
    ∀ s ∈ statements, s.Discreet := by
  have hnames := hr.names h
  have hown : ∀ e ∈ r.project.elements, e.name ∉ ownNames :=
    fun e he => not_mem_ownNames_of_isVariable (hnames.isVariable e he)
  have hopened {e : Element} (he : e ∈ r.project.elements) {ss : List (Statement LetterEffect)}
      (hss : e.OpenedBy ss) : ∀ s ∈ ss, s.Discreet := by
    intro s hs x hx
    have hmem : x ∈ assignedBy ss := List.mem_filterMap.mpr ⟨s, hs, hx⟩
    rw [(mem_assignedBy_of_openedBy hss x).mp hmem]
    exact Or.inl (hown e he)
  have hnone {s : Statement LetterEffect} (hs : s.assigned? = none) : s.Discreet := by
    intro x hx
    simp [hs] at hx
  obtain ⟨entries, layered, hentries, -, hall⟩ := hr.exists_statements settings effects
  obtain rfl := Except.ok.inj (hall.symm.trans hstatements)
  simp only [Resolved.clipStatements, List.forall_mem_append, List.forall_mem_cons,
    List.forall_mem_flatMap, List.forall_mem_map, List.mem_filter, decide_eq_true_eq]
  refine ⟨⟨⟨⟨⟨hnone rfl, hnone rfl, by simp⟩, ⟨?_, ?_⟩, ?_⟩, ?_⟩, hnone rfl, by simp⟩, ?_⟩
  · rintro e ⟨he, hcategory⟩
    exact hopened he (openedBy_videoStatements hcategory)
  · rintro e ⟨he, htextual⟩ s hs x hx
    have hcategory : e.category = .textual := by simpa [Element.isTextual] using htextual
    rcases eq_of_mem_textStatements hcategory hs hx with rfl | hletters
    · exact Or.inl (hown e he)
    · exact Or.inr hletters
  · rintro e ⟨he, hcategory⟩
    exact hopened he (openedBy_audioStatements hcategory)
  · intro s hs x hx
    obtain ⟨i, hi⟩ := List.mem_iff_getElem?.mp hs
    obtain ⟨entry, e, -, -, -, rfl⟩ := hr.getElem?_entryStatements hentries hi
    obtain rfl := Option.some.inj hx
    exact Or.inl (entryVariable_not_mem_ownNames _)
  · exact fun s hs => hnone (assigned?_of_mem_compositionStatements hs)

end Montage
