import Montage.Proofs.Bindings

/-!
# Names of the project and names of the script

A script assigns the names of elements, the letters of animated texts and the variables of entries,
and all of them share one name space with what its own code defines and reads. The rule on names
keeps elements away from what the script binds for itself. It does not know the functions of the
language that the script calls, and it compares the letters of a text with elements only. The names
for which this matters are determined here: they are the only ones that are captured.

What statements assign, bind and use is tabulated, and the tables are compared with the code: what
a statement binds is what its lines bind, and what it uses is what its lines and the bodies of its
functions read.
-/

namespace Montage

namespace Script

/-- The functions of the language that the code of scripts calls. -/
def calledFunctions : List String :=
  ["len", "enumerate", "abs", "float"]

/-- The global names that the code of a statement defines or reads, apart from the variables of the
project. A number that is not finite is written as a call. -/
def Statement.globals : Statement LetterEffect → List String
  | importLibrary => ["moviepy"]
  | blank => []
  | comment _ => []
  | loadVideo _ _ => ["moviepy"]
  | loadAudio _ _ => ["moviepy"]
  | cut _ _ _ _ => ["float"]
  | adjust _ _ => []
  | choose _ _ _ => []
  | prepare effect => [effect.holder, "moviepy", "float"]
  | apply _ effect => [effect.holder]
  | opacity _ _ => ["float"]
  | textClip _ _ _ => ["moviepy"]
  | letterHelpers =>
    ["np", "label", "find_objects", "rotMatrix", "find_letters", "move_letters", "enumerate", "len"]
  | letterMotion .grouping => ["grouping", "np", "rotMatrix"]
  | letterMotion .falling => ["falling", "np", "abs"]
  | findLetters _ => ["find_letters"]
  | animate _ effect _ _ _ => ["moviepy", "move_letters", effect.name, "float"]
  | entry _ => ["float"]
  | composeVideo _ _ => ["final_video", "moviepy"]
  | composeAudio _ => ["final_audio", "moviepy"]
  | attachAudio => ["final_video", "final_audio"]
  | exportFilm _ => ["final_video"]

/-- Whether the code of scripts defines or reads a global name. -/
def IsGlobal (name : String) : Prop :=
  ∃ s : Statement LetterEffect, name ∈ s.globals

/-- Statements that between them use all global names. They bind all names of the script, and no
variable of a project. -/
def globalUsers : List (Statement LetterEffect) :=
  [.importLibrary, .letterHelpers, .letterMotion .grouping, .letterMotion .falling,
    .composeVideo [] ⟨0, 0⟩, .composeAudio [], .prepare (.brightness 1), .prepare (.scale 1),
    .prepare (.contrast 1), .prepare (.saturation 1), .prepare (.rotation 1),
    .prepare .crossFadeIn, .prepare .crossFadeOut, .prepare (.volume 1),
    .prepare (.stereoVolume 1 1), .prepare .normalize]

/-- The global names of scripts are those that the script binds for itself and the functions of the
language that it calls. -/
theorem isGlobal_iff (name : String) :
    IsGlobal name ↔ name ∈ ownNames ∨ name ∈ calledFunctions := by
  constructor
  · rintro ⟨s, hs⟩
    have hall : s.globals ⊆ ownNames ++ calledFunctions := by
      cases s with
      | prepare effect | apply _ effect =>
        exact List.cons_subset.mpr
          ⟨List.mem_append_left _ effect.holder_mem_ownNames, by decide +kernel⟩
      | letterMotion effect | animate _ effect _ _ _ =>
        cases effect <;> simp only [Statement.globals, LetterEffect.name] <;> decide +kernel
      | _ =>
        simp only [Statement.globals]
        decide +kernel
    exact List.mem_append.mp (hall hs)
  · intro hname
    have husers : ∀ x ∈ ownNames ++ calledFunctions, ∃ s ∈ globalUsers, x ∈ s.globals := by
      decide +kernel
    obtain ⟨s, -, hs⟩ := husers name (List.mem_append.mpr hname)
    exact ⟨s, hs⟩

/-! ## Names in the code -/

/-- The variable of the project that a reference refers to. -/
def Reference.variable? : Reference → Option String
  | source clip => some clip
  | element clip => some clip
  | entry clip => some clip
  | letters clip => some (lettersVariable clip)
  | _ => none

/-- The variables of the project that the code of a statement assigns or reads. -/
def Statement.variables (s : Statement LetterEffect) : List String :=
  s.assigned?.toList ++ s.references.filterMap Reference.variable?

/-- The names that a line of a function binds inside it: parameters, the variables of a loop and
what is assigned. -/
def CodeLine.locals (l : CodeLine) : List String :=
  (l.tokens.zip l.tokens.tail).filterMap
      (fun pair => if pair.1 = .word "lambda" then pair.2.word? else none) ++
    (if l.tokens.head? = some (.word "def") then words (l.tokens.drop 2)
    else if l.tokens.head? = some (.word "for") then
      words (l.tokens.tail.takeWhile (· ≠ .word "in"))
    else if l.indent ≠ 0 ∧ .mark '=' ∈ l.tokens then
      words (l.tokens.takeWhile (· ≠ .mark '='))
    else [])

/-- The names that the functions of a statement read, apart from what is local to them. -/
def Statement.freeNames (s : Statement LetterEffect) : List String :=
  if s.functions = [] then []
  else
    let bodies := s.code.filter fun l => l.indent ≠ 0 ∨ l.tokens[2]? = some (.word "lambda")
    (bodies.flatMap fun l => readNames l.tokens).filter (· ∉ s.code.flatMap CodeLine.locals)

/-- The code of a statement mentions a name that is no variable of the project and not local to a
function. -/
def Statement.Mentions (s : Statement LetterEffect) (name : String) : Prop :=
  (∃ l ∈ s.runnable, (name ∈ l.binds ∨ name ∈ l.reads) ∧ name ∉ s.variables) ∨ name ∈ s.freeNames

/-- A choice binds the clip that it changes. -/
theorem Choice.binds_code (clip : String) (canvas : Canvas) (depth : ℕ) (choice : Choice) :
    ∀ l ∈ choice.code clip canvas depth, ∀ name ∈ l.binds, name = clip := by
  refine Choice.forall_code (fun _ a => ?_) (fun _ t => ?_) (fun _ => ?_) depth choice
  · cases a <;> exact List.forall_mem_singleton.mpr rfl
  · simp [CodeLine.binds, RatioTest.tokens]
  · simp [CodeLine.binds]

/-- The lines of a statement that can be run bind what it assigns and what it binds for the script.
Only a choice may have no line that does so. -/
theorem Statement.exists_binds_iff {s : Statement LetterEffect} (hchoice : s.isChoice = false)
    (name : String) :
    (∃ l ∈ s.runnable, name ∈ l.binds) ↔ s.assigned? = some name ∨ name ∈ s.ownBindings := by
  cases s with
  | choose => simp [isChoice] at hchoice
  | letterHelpers =>
    rw [runnable_letterHelpers]
    simp [letterHelpersCode, CodeLine.binds, assignment, definition, words, Token.word?, assigned?,
      ownBindings, or_assoc, eq_comm]
  | letterMotion effect =>
    rw [runnable_letterMotion]
    simp [CodeLine.binds, definition, assigned?, ownBindings]
  | adjust clip a =>
    cases a <;> simp [runnable, isChoice, code, Adjustment.tokens, CodeLine.binds, assignment,
      assigned?, ownBindings, eq_comm]
  | _ =>
    simp [runnable, isChoice, code, CodeLine.binds, assignment, method, words, Token.word?,
      assigned?, ownBindings, eq_comm]

/-- A statement that makes the clip of an element assigns it. -/
theorem Statement.assigned?_of_made? {s : Statement LetterEffect} {clip : String}
    (h : s.made? = some clip) : s.assigned? = some clip := by
  cases s <;> simp_all [made?, loaded?, assigned?]

/-- A line that can be run binds what the statement assigns or binds for the script. -/
theorem Statement.mem_of_binds {s : Statement LetterEffect} {l : CodeLine} (hl : l ∈ s.runnable)
    {name : String} (hname : name ∈ l.binds) :
    s.assigned? = some name ∨ name ∈ s.ownBindings := by
  cases hchoice : s.isChoice with
  | false => exact (s.exists_binds_iff hchoice name).mp ⟨l, hl, hname⟩
  | true =>
    cases s with
    | choose clip canvas choice =>
      exact Or.inl (congrArg some (choice.binds_code clip canvas 0 l hl name hname).symm)
    | _ => cases hchoice

/-- A name that a statement refers to is a global one or a variable of the project. -/
theorem Statement.name_of_mem_references (s : Statement LetterEffect) :
    ∀ x ∈ s.references, x.name ∈ s.globals ∨ x.variable? = some x.name := by
  cases s with
  | entry e =>
    obtain ⟨clip, element, start, duration⟩ := e
    rcases start with _ | (_ | _) <;>
      simp [references, StartExpression.references, Reference.variable?, Reference.name]
  | letterMotion effect => cases effect <;> simp [references, globals, Reference.name]
  | _ => simp [references, globals, Reference.variable?, Reference.name]

/-- What the functions that split and move letters read. -/
theorem Statement.freeNames_letterHelpers : letterHelpers.freeNames =
    ["np", "np", "np", "np", "np", "label", "find_objects", "enumerate", "len"] := by
  decide +kernel

/-- What the functions of effects read. -/
theorem Statement.freeNames_letterMotion :
    (letterMotion .grouping).freeNames = ["np", "rotMatrix", "rotMatrix"] ∧
      (letterMotion .falling).freeNames = ["np", "abs", "np"] := by
  decide +kernel

/-- The free names of functions are global. -/
theorem Statement.freeNames_subset (s : Statement LetterEffect) : s.freeNames ⊆ s.globals := by
  cases s with
  | letterHelpers =>
    rw [freeNames_letterHelpers]
    decide +kernel
  | letterMotion effect =>
    cases effect with
    | grouping =>
      rw [freeNames_letterMotion.1]
      decide +kernel
    | falling =>
      rw [freeNames_letterMotion.2]
      decide +kernel
  | _ => exact List.nil_subset _

/-- What a statement binds for the script is global. -/
theorem Statement.ownBindings_subset_globals (s : Statement LetterEffect) :
    s.ownBindings ⊆ s.globals := by
  cases s with
  | letterMotion effect => cases effect <;> simp [ownBindings, globals, LetterEffect.name]
  | _ => simp [ownBindings, globals]

/-- The global names of scripts are those that the code of statements mentions. -/
theorem isGlobal_iff_mentioned (name : String) :
    IsGlobal name ↔ ∃ s : Statement LetterEffect, s.Mentions name := by
  have hfloat : IsGlobal "float" := ⟨.opacity "" 1, by simp [Statement.globals]⟩
  constructor
  · intro hglobal
    rcases (isGlobal_iff name).mp hglobal with hown | hcalled
    · have hbinders : ∀ x ∈ ownNames, ∃ s ∈ globalUsers,
          x ∈ s.ownBindings ∧ s.isChoice = false ∧ s.variables = [] := by decide +kernel
      obtain ⟨s, -, hbinds, hchoice, hvariables⟩ := hbinders name hown
      obtain ⟨l, hl, hname⟩ := (s.exists_binds_iff hchoice name).mpr (Or.inr hbinds)
      exact ⟨s, Or.inl ⟨l, hl, Or.inl hname, by simp [hvariables]⟩⟩
    · simp only [calledFunctions, List.mem_cons, List.not_mem_nil, or_false] at hcalled
      rcases hcalled with rfl | rfl | rfl | rfl
      · exact ⟨.letterHelpers, Or.inr (by simp [Statement.freeNames_letterHelpers])⟩
      · exact ⟨.letterHelpers, Or.inr (by simp [Statement.freeNames_letterHelpers])⟩
      · exact ⟨.letterMotion .falling, Or.inr (by simp [Statement.freeNames_letterMotion.2])⟩
      · -- Only a number that is not finite is written as a call.
        have hread : ∃ l ∈ (.opacity "" (1 / 0) : Statement LetterEffect).runnable,
            ("float" ∈ l.binds ∨ "float" ∈ l.reads) ∧
              "float" ∉ (.opacity "" (1 / 0) : Statement LetterEffect).variables := by
          decide +kernel
        exact ⟨_, Or.inl hread⟩
  · rintro ⟨s, ⟨l, hl, hname | hname, hvariable⟩ | hfree⟩
    · rcases s.mem_of_binds hl hname with hassigned | hown
      · exact absurd (List.mem_append_left _ (Option.mem_toList.mpr hassigned)) hvariable
      · exact ⟨s, s.ownBindings_subset_globals hown⟩
    · rcases (s.needs l hl).reads name hname with rfl | ⟨x, hx, rfl⟩
      · exact hfloat
      · refine ⟨s, (s.name_of_mem_references x hx).resolve_right fun hx' => hvariable ?_⟩
        exact List.mem_append_right _ (List.mem_filterMap.mpr ⟨x, hx, hx'⟩)
    · exact ⟨s, s.freeNames_subset hfree⟩

/-- The lines that are run bind what the statements assign and what they bind for the script. A
choice changes a clip that some statement before it made, so it does not matter which lines of it
are run. -/
theorem Scoped.exists_binds_iff {ss : List (Statement LetterEffect)} (h : Scoped [] ss)
    (answers : ℕ → Bool) (c : Control) (name : String) :
    (∃ l ∈ executed answers c (ss.flatMap Statement.code), name ∈ l.binds) ↔
      name ∈ assignedBy ss ∨ ∃ s ∈ ss, name ∈ s.ownBindings := by
  constructor
  · rintro ⟨l, hl, hname⟩
    obtain ⟨s, hs, hl⟩ := exists_runnable_of_mem_executed hl
    exact (s.mem_of_binds hl hname).imp (fun hassigned => List.mem_filterMap.mpr ⟨s, hs, hassigned⟩)
      fun hown => ⟨s, hs, hown⟩
  · have hrun {s : Statement LetterEffect} (hs : s ∈ ss) (hchoice : s.isChoice = false)
        (hbinds : s.assigned? = some name ∨ name ∈ s.ownBindings) :
        ∃ l ∈ executed answers c (ss.flatMap Statement.code), name ∈ l.binds := by
      obtain ⟨l, hl, hname⟩ := (s.exists_binds_iff hchoice name).mpr hbinds
      exact ⟨l, runnable_subset_executed answers c hs hchoice hl, hname⟩
    rintro (hassigned | ⟨s, hs, hown⟩)
    · obtain ⟨s, hs, hassigned⟩ := List.mem_filterMap.mp hassigned
      cases s with
      | choose clip canvas choice =>
        obtain ⟨before, after, hsplit⟩ := List.append_of_mem hs
        obtain ⟨t, ht, hmade⟩ := (scoped_iff_split [] ss).mp h before _ after hsplit
          (.element clip) (List.mem_singleton.mpr rfl)
        have hmem : t ∈ ss := hsplit ▸ List.mem_append_left _ ht
        refine hrun hmem hmade.metBy.1 (Or.inl ?_)
        exact hassigned ▸ Statement.assigned?_of_made? hmade
      | _ => exact hrun hs rfl (Or.inl hassigned)
    · cases s with
      | choose => cases hown
      | _ => exact hrun hs rfl (Or.inr hown)

/-! ## Letters and entries -/

/-- The variable of letters tells the text they belong to. -/
theorem lettersVariable_inj {a b : String} (h : lettersVariable a = lettersVariable b) : a = b := by
  have hchars := congrArg String.toList h
  simp only [lettersVariable, String.toList_append, List.append_cancel_right_eq] at hchars
  exact String.toList_injective hchars

/-- The letters of a text have a global name only if the text is called as two functions of the
script suggest. -/
theorem isGlobal_lettersVariable_iff (name : String) :
    IsGlobal (lettersVariable name) ↔ name = "find" ∨ name = "move" := by
  rw [isGlobal_iff]
  constructor
  · intro hglobal
    have hends : "_letters".toList <:+ (lettersVariable name).toList := by
      rw [lettersVariable, String.toList_append]
      exact List.suffix_append _ _
    have honly : ∀ x ∈ ownNames ++ calledFunctions, "_letters".toList <:+ x.toList →
        x = lettersVariable "find" ∨ x = lettersVariable "move" := by decide +kernel
    exact (honly _ (List.mem_append.mpr hglobal) hends).imp lettersVariable_inj lettersVariable_inj
  · rintro (rfl | rfl) <;> decide +kernel

/-- The variables of entries are no global names. -/
theorem not_isGlobal_entryVariable (name : String) : ¬ IsGlobal (entryVariable name) := by
  rw [isGlobal_iff]
  rintro (hown | hcalled)
  · exact entryVariable_not_mem_ownNames name hown
  · exact entryVariable_not_mem (by decide +kernel) name hcalled

end Script

open Script

/-! ## What is assigned on behalf of the project -/

/-- What is written assigns the same variables as what was asked for. -/
theorem Script.assignedBy_written (keys : List String) (ss : List (Statement LetterEffect)) :
    assignedBy (written keys ss) = assignedBy ss := by
  induction ss generalizing keys with
  | nil => rfl
  | cons s ss ih =>
    rw [written]
    cases hkey : s.onceKey? with
    | none => simp only [assignedBy_cons, ih]
    | some key =>
      have hnone : s.assigned? = none := by
        cases s <;> simp_all [Statement.onceKey?, Statement.assigned?]
      by_cases hmet : key ∈ keys <;> simp [hmet, hnone, ih]

/-- The clips of elements assign the names of elements and the letters of animated texts. -/
theorem Resolved.mem_assignedBy_clipStatements (r : Resolved) (settings : ScriptSettings)
    (effects : EffectRegistry LetterEffect) (name : String) :
    name ∈ assignedBy (r.clipStatements settings effects) ↔
      (∃ e ∈ r.project.elements, e.name = name) ∨
        ∃ e ∈ r.project.elements, e.isAnimated effects ∧ name = lettersVariable e.name := by
  simp only [Resolved.clipStatements, assignedBy_append, List.mem_append, mem_assignedBy_flatMap,
    List.mem_filter, decide_eq_true_eq]
  constructor
  · rintro ((⟨e, ⟨he, hcategory⟩, hname⟩ | ⟨e, ⟨he, htextual⟩, hname⟩) |
      ⟨e, ⟨he, hcategory⟩, hname⟩)
    · rw [mem_assignedBy_of_openedBy (openedBy_videoStatements hcategory)] at hname
      exact Or.inl ⟨e, he, hname.symm⟩
    · have hcategory : e.category = .textual := by simpa [Element.isTextual] using htextual
      rw [mem_assignedBy_textStatements _ _ _ hcategory] at hname
      rcases hname with rfl | hletters
      · exact Or.inl ⟨e, he, rfl⟩
      · exact Or.inr ⟨e, he, hletters⟩
    · rw [mem_assignedBy_of_openedBy (openedBy_audioStatements hcategory)] at hname
      exact Or.inl ⟨e, he, hname.symm⟩
  · rintro (⟨e, he, rfl⟩ | ⟨e, he, hletters⟩)
    · cases hcategory : e.category with
      | video =>
        exact Or.inl (Or.inl ⟨e, ⟨he, hcategory⟩,
          (mem_assignedBy_of_openedBy (openedBy_videoStatements hcategory) _).mpr rfl⟩)
      | textual =>
        exact Or.inl (Or.inr ⟨e, ⟨he, by simp [Element.isTextual, hcategory]⟩,
          (mem_assignedBy_textStatements _ _ _ hcategory _).mpr (Or.inl rfl)⟩)
      | audio =>
        exact Or.inr ⟨e, ⟨he, hcategory⟩,
          (mem_assignedBy_of_openedBy (openedBy_audioStatements hcategory) _).mpr rfl⟩
    · have hcategory := Element.category_of_isAnimated hletters.1
      exact Or.inl (Or.inr ⟨e, ⟨he, by simp [Element.isTextual, hcategory]⟩,
        (mem_assignedBy_textStatements _ _ _ hcategory _).mpr (Or.inr hletters)⟩)

namespace Project.ResolvesTo

variable {p : Project} {r : Resolved}

/-- The assignments of entries assign the variables of the entries. -/
theorem mem_assignedBy_entries (hr : p.ResolvesTo r) {defaultText : Float}
    {entries : List (EntryStatement Float)} (hentries : r.entryStatements defaultText = .ok entries)
    (name : String) :
    name ∈ assignedBy (entries.map .entry) ↔
      ∃ entry ∈ p.timeline, name = entryVariable entry.name := by
  simp only [assignedBy, List.mem_filterMap]
  constructor
  · rintro ⟨t, ht, hname⟩
    obtain ⟨s, hs, rfl⟩ := List.mem_map.mp ht
    obtain ⟨i, hi, rfl⟩ := List.mem_iff_getElem.mp hs
    have hi' : i < p.timeline.length := by rwa [← hr.length_entryStatements hentries]
    refine ⟨p.timeline[i], List.getElem_mem hi', ?_⟩
    rw [← hr.clip_entryStatements hentries (List.getElem?_eq_getElem hi)
      (List.getElem?_eq_getElem hi')]
    exact (Option.some.inj hname).symm
  · rintro ⟨entry, hentry, rfl⟩
    obtain ⟨t, ht, s, rfl, hclip⟩ := hr.bound_entries hentries hentry
    exact ⟨.entry s, ht, congrArg some hclip⟩

/-- A script assigns exactly the names of elements, the letters of animated texts and the variables
of entries. -/
theorem mem_assignedBy_statements (hr : p.ResolvesTo r) {settings : ScriptSettings}
    {effects : EffectRegistry LetterEffect} {statements : List (Statement LetterEffect)}
    (h : r.statements settings effects = .ok statements) (name : String) :
    name ∈ assignedBy statements ↔
      (∃ e ∈ p.mergedElements, e.name = name) ∨
        (∃ e ∈ p.mergedElements, e.isAnimated effects ∧ name = lettersVariable e.name) ∨
        ∃ entry ∈ p.timeline, name = entryVariable entry.name := by
  obtain ⟨entries, layered, hentries, -, hstatements⟩ := hr.exists_statements settings effects
  obtain rfl := Except.ok.inj (h.symm.trans hstatements)
  have hlines : assignedBy [.importLibrary, .blank] = [] ∧ assignedBy [.blank] = [] := ⟨rfl, rfl⟩
  simp only [assignedBy_append, hlines, assignedBy_compositionStatements, List.nil_append,
    List.append_nil, List.mem_append, r.mem_assignedBy_clipStatements,
    hr.mem_assignedBy_entries hentries, hr.elements, or_assoc]

end Project.ResolvesTo

namespace Project

/-- In the script of a usable project, the variables that are assigned for the project are the names
of its elements, the letters of its animated texts and the variables of its entries. Such a variable
is also a global name of the script in two cases only: an element is named like a function of the
language, or an animated text is named like the first half of a function of the script. Both kinds
of names can be read off the text: together with what the script binds for itself, the variables are
what its lines bind, whatever its conditions come out as, and the global names are those that the
code of statements mentions. -/
theorem captured_iff {p : Project} (h : p.Usable) (settings : ScriptSettings)
    (effects : EffectRegistry LetterEffect) :
    ∃ r statements, p.resolve = .ok r ∧ r.statements settings effects = .ok statements ∧
      r.script settings effects = .ok (textOf (written [] statements)) ∧
      ∀ name,
        (name ∈ assignedBy (written [] statements) ↔
          (∃ e ∈ p.mergedElements, e.name = name) ∨
            (∃ e ∈ p.mergedElements, e.isAnimated effects ∧ name = lettersVariable e.name) ∨
            ∃ entry ∈ p.timeline, name = entryVariable entry.name) ∧
        (name ∈ assignedBy (written [] statements) ∧ IsGlobal name ↔
          (name ∈ calledFunctions ∧ ∃ e ∈ p.mergedElements, e.name = name) ∨
            ∃ e ∈ p.mergedElements, e.isAnimated effects ∧
              (e.name = "find" ∨ e.name = "move") ∧ name = lettersVariable e.name) ∧
        (IsGlobal name ↔ ∃ s : Statement LetterEffect, s.Mentions name) ∧
        ∀ answers : ℕ → Bool,
          (∃ line ∈ executed answers { } (codeOf (textOf (written [] statements))),
              name ∈ line.binds) ↔
            name ∈ assignedBy (written [] statements) ∨
              ∃ s ∈ written [] statements, name ∈ s.ownBindings := by
  obtain ⟨r, hr⟩ := h.exists_resolvesTo
  obtain ⟨statements, hstatements, hscript, hscoped⟩ := hr.exists_scoped_written h settings effects
  refine ⟨r, statements, hr.resolve, hstatements, hscript, fun name => ?_⟩
  have hassigned := hr.mem_assignedBy_statements hstatements name
  rw [← assignedBy_written [] statements] at hassigned
  have hcode : codeOf (textOf (written [] statements)) =
      (written [] statements).flatMap Statement.code :=
    codeOf_textOf fun s hs =>
      hr.wellFormed_statements h hstatements s ((written_sublist [] statements).subset hs)
  refine ⟨hassigned, ?_, isGlobal_iff_mentioned name, fun answers => ?_⟩
  · rw [hassigned]
    constructor
    · rintro ⟨⟨e, he, rfl⟩ | ⟨e, he, hanimated, rfl⟩ | ⟨entry, -, rfl⟩, hglobal⟩
      · have hown : e.name ∉ ownNames :=
          not_mem_ownNames_of_isVariable (h.names.merged.isVariable e he)
        have hcalled := ((isGlobal_iff e.name).mp hglobal).resolve_left hown
        exact Or.inl ⟨hcalled, e, he, rfl⟩
      · exact Or.inr ⟨e, he, hanimated, (isGlobal_lettersVariable_iff e.name).mp hglobal, rfl⟩
      · exact absurd hglobal (not_isGlobal_entryVariable entry.name)
    · rintro (⟨hcalled, hnamed⟩ | ⟨e, he, hanimated, hname, rfl⟩)
      · exact ⟨Or.inl hnamed, (isGlobal_iff name).mpr (Or.inr hcalled)⟩
      · exact ⟨Or.inr (Or.inl ⟨e, he, hanimated, rfl⟩),
          (isGlobal_lettersVariable_iff e.name).mpr hname⟩
  · rw [hcode]
    exact hscoped.exists_binds_iff answers { } name

/-- A film with a video and a text that no rule objects to, although their names are in use. -/
def clash : Project where
  outputName := "clash"
  elements :=
    [.video ⟨"len", "clips/length.mp4", none, []⟩,
      .text ⟨"find", "Find me", [.effect .grouping]⟩,
      .text ⟨"title", "Lost", [.effect .falling]⟩]
  groups := []
  timeline :=
    [⟨"#1", "len", .implicit, none, none⟩, ⟨"#2", "find", .implicit, none, none⟩,
      ⟨"#3", "title", .implicit, none, none⟩]

/-- A project without errors can capture names of the script: one that the language provides, and
one that the script defines. -/
theorem clash_captures :
    clash.Usable ∧ ∃ r statements, clash.resolve = .ok r ∧
      r.script { } .standard = .ok (textOf (written [] statements)) ∧
      ("len" ∈ assignedBy (written [] statements) ∧ IsGlobal "len") ∧
      ("find_letters" ∈ assignedBy (written [] statements) ∧ IsGlobal "find_letters") := by
  have husable : clash.Usable := by decide +kernel
  obtain ⟨r, statements, hresolve, -, hscript, hnames⟩ := captured_iff husable { } .standard
  refine ⟨husable, r, statements, hresolve, hscript, ?_, ?_⟩
  · exact (hnames "len").2.1.mpr (Or.inl (by decide +kernel))
  · exact (hnames "find_letters").2.1.mpr (Or.inr (by decide +kernel))

end Project

end Montage
