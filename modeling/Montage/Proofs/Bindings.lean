import Montage.Proofs.Flow
import Montage.Proofs.Layout

/-!
# Names are bound before they are read

What a line of a script needs is read off its tokens: the names it reads, the clip that a piece is
cut from, the clip that an entry shows and the entries that its start refers to, the clips that are
composed, and the functions that are called or handed over. All of this is bound by lines that were
run before, and by lines of the right kind. The references of statements are the bridge: whatever a
line of a statement needs is among them, and a statement that binds a reference has a line that
does.
-/

namespace Montage

namespace Script

/-! ## Kinds of lines -/

namespace CodeLine

/-- The line loads a file into a variable. -/
def Loads (clip : String) (l : CodeLine) : Prop :=
  ∃ kind ∈ ["VideoFileClip", "AudioFileClip"], ∃ rest,
    l.tokens = assignment clip (.word "moviepy" :: .mark '.' :: .word kind :: .mark '(' :: rest)

/-- The line cuts a piece from the clip in a variable. -/
def Cuts (clip source : String) (l : CodeLine) : Prop :=
  ∃ rest, l.tokens = assignment clip (.word source :: .mark '.' :: .word "subclipped" :: rest)

/-- The line makes the clip of a text. -/
def MakesText (clip : String) (l : CodeLine) : Prop :=
  ∃ rest, l.tokens =
    assignment clip (.word "moviepy" :: .mark '.' :: .word "TextClip" :: .mark '(' :: rest)

/-- The line puts the clip of an element on the timeline: it sets the start, the length, both or
nothing. -/
def Places (clip element : String) (call : List Token) (l : CodeLine) : Prop :=
  l.tokens = assignment clip (.word element :: call) ∧
    (call = [] ∨ ∃ setter ∈ ["with_start", "with_duration"], ∃ rest,
      call = .mark '.' :: .word setter :: rest)

/-- The line composes what stands in a list. -/
def Composes (rest : List Token) (l : CodeLine) : Prop :=
  ∃ kind ∈ ["CompositeVideoClip", "CompositeAudioClip"], ∃ clip, l.tokens = assignment clip
    (.word "moviepy" :: .mark '.' :: .word kind :: .mark '(' :: .mark '[' :: rest)

/-- The line hands the function of an effect to the function that moves letters. -/
def Animates (effect : String) (l : CodeLine) : Prop :=
  ∃ clip letters rest, l.tokens = assignment clip
    (.word "moviepy" :: .mark '.' :: .word "CompositeVideoClip" :: .mark '(' ::
      .word "move_letters" :: .mark '(' :: .word letters :: .mark ',' :: .word effect :: rest)

/-- The line is the first one of a function. -/
def Defines (name : String) (l : CodeLine) : Prop :=
  ∃ rest, l.tokens = .word "def" :: .word name :: .mark '(' :: rest

end CodeLine

/-- Whatever a line needs is bound by lines before it. -/
structure BoundBefore (before : List CodeLine) (line : CodeLine) : Prop where
  /-- The only name that is not bound is that of the function that makes a number of a text. -/
  reads : ∀ name ∈ line.reads, name = "float" ∨ ∃ l ∈ before, name ∈ l.binds
  source : ∀ clip source, line.Cuts clip source →
    ∃ l ∈ before, l.Loads source ∨ ∃ other, l.Cuts source other
  element : ∀ clip element call, line.Places clip element call →
    ∃ l ∈ before, l.Loads element ∨ (∃ source, l.Cuts element source) ∨ l.MakesText element
  start : ∀ clip element call, line.Places clip element call → ∀ name ∈ readNames call,
    name = "float" ∨ ∃ l ∈ before, ∃ element call, l.Places name element call
  composed : ∀ rest, line.Composes rest → ∀ name ∈ readNames rest,
    ∃ l ∈ before, ∃ element call, l.Places name element call
  called : ∀ name ∈ line.calls, name = "float" ∨ ∃ l ∈ before, l.Defines name
  animated : ∀ effect, line.Animates effect → ∃ l ∈ before, l.Defines effect

/-! ## What lines need -/

/-- The name under which a reference stands in a script. -/
def Reference.name : Reference → String
  | library => "moviepy"
  | source clip => clip
  | element clip => clip
  | entry clip => clip
  | letters clip => lettersVariable clip
  | function name => name
  | letterTools => "np"
  | effect e => e.holder
  | film => "final_video"
  | sound => "final_audio"

/-- Whatever a line needs is among some references. -/
structure Needs (references : List Reference) (line : CodeLine) : Prop where
  reads : ∀ name ∈ line.reads, name = "float" ∨ ∃ x ∈ references, x.name = name
  source : ∀ clip source, line.Cuts clip source → .source source ∈ references
  element : ∀ clip element call, line.Places clip element call → .element element ∈ references
  start : ∀ clip element call, line.Places clip element call → ∀ name ∈ readNames call,
    name = "float" ∨ .entry name ∈ references
  composed : ∀ rest, line.Composes rest → ∀ name ∈ readNames rest, .entry name ∈ references
  called : ∀ name ∈ line.calls, name = "float" ∨ .function name ∈ references
  animated : ∀ effect, line.Animates effect → .function effect ∈ references

section Needs

/-- What is evaluated are the tokens of the line, or nothing. -/
theorem CodeLine.forall_names_evaluated {test : Option Token → Bool} {l : CodeLine}
    {P : String → Prop} (h : ∀ name ∈ names test false l.tokens, P name) :
    ∀ name ∈ names test false l.evaluated, P name := by
  unfold CodeLine.evaluated
  split
  · simp
  · exact h

/-- Names that are read are no words of the language. -/
theorem forall_readNames {ts : List Token} {P : String → Prop}
    (h : ∀ name ∈ names isRead false ts, name ∈ keywords ∨ P name) :
    ∀ name ∈ readNames ts, P name := by
  intro name hname
  obtain ⟨hmem, hkeyword⟩ := List.mem_filter.mp hname
  exact (h name hmem).resolve_left (by simpa using hkeyword)

/-- A line of none of the kinds that ask for a line of a certain kind. -/
structure CodeLine.Bare (l : CodeLine) : Prop where
  cuts : ∀ clip source, ¬ l.Cuts clip source
  places : ∀ clip element call, ¬ l.Places clip element call
  composes : ∀ rest, ¬ l.Composes rest
  animates : ∀ effect, ¬ l.Animates effect

variable {refs : List Reference} {indent : ℕ} {ts : List Token}

/-- A bare line needs the names it reads and the functions it calls. -/
theorem CodeLine.Bare.needs (h : CodeLine.Bare ⟨indent, ts⟩)
    (hreads : ∀ name ∈ names isRead false ts,
      name ∈ keywords ∨ name = "float" ∨ ∃ x ∈ refs, x.name = name)
    (hcalls : ∀ name ∈ names isCalled false ts,
      name = "float" ∨ .function name ∈ refs) : Needs refs ⟨indent, ts⟩ where
  reads := forall_readNames (CodeLine.forall_names_evaluated hreads)
  source clip source hcuts := absurd hcuts (h.cuts clip source)
  element clip element call hplaces := absurd hplaces (h.places clip element call)
  start clip element call hplaces := absurd hplaces (h.places clip element call)
  composed rest hcomposes := absurd hcomposes (h.composes rest)
  called := CodeLine.forall_names_evaluated hcalls
  animated effect hanimates := absurd hanimates (h.animates effect)

/-- A line of which nothing is evaluated needs nothing. -/
theorem CodeLine.Bare.needs_of_evaluated {l : CodeLine} (h : l.Bare) (hl : l.evaluated = []) :
    Needs refs l where
  reads := by simp [CodeLine.reads, hl, readNames]
  source clip source hcuts := absurd hcuts (h.cuts clip source)
  element clip element call hplaces := absurd hplaces (h.places clip element call)
  start clip element call hplaces := absurd hplaces (h.places clip element call)
  composed rest hcomposes := absurd hcomposes (h.composes rest)
  called := by simp [CodeLine.calls, hl]
  animated effect hanimates := absurd hanimates (h.animates effect)

-- The kinds of lines are told apart by their first tokens.
attribute [local simp] assignment method CodeLine.Cuts CodeLine.Places CodeLine.Composes
  CodeLine.Animates Reference.name or_imp forall_and

/-- The change of a clip reads this clip. -/
theorem Adjustment.needs (clip : String) (a : Adjustment) (depth : ℕ) :
    Needs [.element clip] ⟨depth, a.tokens clip⟩ := by
  cases a with
  | resize r =>
    refine CodeLine.Bare.needs ?_ ?_ ?_
    · constructor <;> simp [tokens]
    · cases r <;> simp [tokens, Resize.tokens, named]
    · cases r <;> simp [tokens, Resize.tokens, named]
  | position p =>
    refine CodeLine.Bare.needs ?_ ?_ ?_
    · constructor <;> simp [tokens]
    · simp [tokens]
    · simp [tokens]

/-- A choice reads the clip that it changes. -/
theorem Choice.needs (clip : String) (canvas : Canvas) (depth : ℕ) (choice : Choice) :
    ∀ l ∈ choice.code clip canvas depth, Needs [.element clip] l := by
  refine Choice.forall_code (fun _ a => a.needs clip _) (fun _ t => ?_) (fun _ => ?_) depth choice
  · refine CodeLine.Bare.needs ?_ ?_ ?_
    · constructor <;> simp [RatioTest.tokens]
    · cases t <;> simp [RatioTest.tokens, RatioTest.operator, ratioTokens, keywords]
    · cases t <;> simp [RatioTest.tokens, RatioTest.operator, ratioTokens]
  · refine CodeLine.Bare.needs ?_ ?_ ?_
    · constructor <;> simp
    · simp [keywords]
    · simp

/-- Making an effect reads the library. -/
theorem ClipEffect.needs (effect : ClipEffect) :
    Needs [.library] ⟨0, assignment effect.holder effect.tokens⟩ := by
  refine CodeLine.Bare.needs ?_ ?_ ?_
  · cases effect <;> delta ClipEffect.tokens <;> constructor <;> simp [libraryEffect]
  · cases effect <;> delta ClipEffect.tokens <;> dsimp only <;>
      simp [libraryEffect, commaTokens, List.intercalate, named, keywords]
  · cases effect <;> delta ClipEffect.tokens <;> dsimp only <;>
      simp [libraryEffect, commaTokens, List.intercalate, named]

/-- Placing a clip reads the clip of its element and what its start refers to. -/
theorem needs_placement {clip element : String} {call : List Token} {entries : List Reference}
    (hcall : call = [] ∨ ∃ setter ∈ ["with_start", "with_duration"], ∃ rest,
      call = .mark '.' :: .word setter :: rest)
    (hreads : ∀ name ∈ names isRead false call,
      name = "float" ∨ .entry name ∈ entries)
    (hcalls : ∀ name ∈ names isCalled false call, name = "float") :
    Needs (.element element :: entries) ⟨0, assignment clip (.word element :: call)⟩ := by
  have hplaces {clip' element' : String} {call' : List Token}
      (h : CodeLine.Places clip' element' call' ⟨0, assignment clip (.word element :: call)⟩) :
      element = element' ∧ call = call' := by
    have htokens : clip = clip' ∧ element = element' ∧ call = call' := by simpa using h.1
    exact htokens.2
  -- What stands behind the element is a method that sets a time, or nothing.
  have hother : (∀ clip' source, ¬ CodeLine.Cuts clip' source ⟨0, assignment clip
        (.word element :: call)⟩) ∧
      (∀ rest, ¬ CodeLine.Composes rest ⟨0, assignment clip (.word element :: call)⟩) ∧
      ∀ effect, ¬ CodeLine.Animates effect ⟨0, assignment clip (.word element :: call)⟩ := by
    rcases hcall with rfl | ⟨setter, hsetter, rest, rfl⟩
    · simp
    · simp only [List.mem_cons, List.not_mem_nil, or_false] at hsetter
      rcases hsetter with rfl | rfl <;> simp
  constructor
  · refine forall_readNames (CodeLine.forall_names_evaluated ?_)
    have hname : ∀ name ∈ element :: names isRead false call,
        name = "float" ∨ ∃ x ∈ Reference.element element :: entries, x.name = name := by
      refine List.forall_mem_cons.mpr ⟨Or.inr ⟨_, List.mem_cons_self, rfl⟩, fun name hmem => ?_⟩
      exact (hreads name hmem).imp id fun hentry => ⟨_, List.mem_cons_of_mem _ hentry, rfl⟩
    intro name hmem
    refine Or.inr (hname name ?_)
    rcases hcall with rfl | ⟨setter, -, rest, rfl⟩ <;> simpa using hmem
  · exact fun clip' source hcuts => absurd hcuts (hother.1 clip' source)
  · intro clip' element' call' h
    rw [← (hplaces h).1]
    exact List.mem_cons_self
  · intro clip' element' call' h
    rw [← (hplaces h).2]
    refine forall_readNames fun name hmem => Or.inr ?_
    exact (hreads name hmem).imp id (List.mem_cons_of_mem _)
  · exact fun rest hcomposes => absurd hcomposes (hother.2.1 rest)
  · refine CodeLine.forall_names_evaluated fun name hmem => Or.inl (hcalls name ?_)
    rcases hcall with rfl | ⟨setter, -, rest, rfl⟩
    · simp at hmem
    · simpa using hmem
  · exact fun effect hanimates => absurd hanimates (hother.2.2 effect)

/-- The names in a start are those of entries. -/
theorem StartExpression.forall_names_tokens (e : StartExpression Float)
    (test : Option Token → Bool) {P : String → Prop} (hfloat : P "float")
    (hentry : test (some (.mark '.')) = true → ∀ name, .entry name ∈ e.references → P name)
    {rest : List Token} (hrest : ∀ name ∈ names test false rest, P name) :
    ∀ name ∈ names test false (e.tokens ++ .mark ')' :: rest), P name := by
  cases e with
  | instant t => simpa [tokens, hfloat] using hrest
  | relative clip anchor shift =>
    simp only [references, List.mem_singleton, Reference.entry.injEq, forall_eq] at hentry
    cases htest : test (some (.mark '.')) <;> rcases shift with _ | ⟨_ | _, t⟩ <;>
      simpa [tokens, htest, hfloat, hentry] using hrest

/-- The line of an entry places the clip of its element. -/
theorem EntryStatement.places (s : EntryStatement Float) :
    ∀ l ∈ (Statement.entry s).code, ∃ call, l.Places s.clip s.element call := by
  obtain ⟨clip, element, start, duration⟩ := s
  refine List.forall_mem_singleton.mpr ⟨_, rfl, ?_⟩
  cases start with
  | none => cases duration <;> simp
  | some e => exact Or.inr ⟨"with_start", by simp, _, rfl⟩

/-- Placing an entry reads the clip of its element and the entry that its start refers to. -/
theorem EntryStatement.needs (s : EntryStatement Float) :
    ∀ l ∈ (Statement.entry s).code, Needs (Statement.entry s).references l := by
  obtain ⟨clip, element, start, duration⟩ := s
  have hduration {test : Option Token → Bool} : ∀ name ∈ names test false
      (duration.toList.flatMap fun t => method "with_duration" (numberTokens t)),
      name = "float" := by
    cases duration <;> simp
  refine List.forall_mem_singleton.mpr (needs_placement ?_ ?_ ?_)
  · obtain ⟨call, htokens, hcall⟩ := (EntryStatement.mk clip element start duration).places _
      (List.mem_singleton.mpr rfl)
    have hcalls := (List.cons.inj (List.cons.inj (List.cons.inj htokens).2).2).2
    exact hcalls ▸ hcall
  · cases start with
    | none => exact fun name hname => Or.inl (hduration name hname)
    | some e =>
      have he := e.forall_names_tokens isRead
        (P := fun name => name = "float" ∨ .entry name ∈ e.references) (Or.inl rfl)
        (fun _ _ hname => Or.inr hname) fun name hname => Or.inl (hduration name hname)
      simpa using he
  · cases start with
    | none => exact hduration
    | some e =>
      have he := e.forall_names_tokens isCalled (P := (· = "float")) rfl (by simp) hduration
      simpa using he

/-- Composing reads the library and the entries in the list. -/
theorem needs_composition {kind : String}
    (hkind : kind ∈ ["CompositeVideoClip", "CompositeAudioClip"]) (clip : String)
    {list : List Token} {entries : List Reference}
    (hreads : ∀ name ∈ names isRead false list, .entry name ∈ entries)
    (hcalls : ∀ name ∈ names isCalled false list, name = "float") :
    Needs (.library :: entries) ⟨0, assignment clip
      (.word "moviepy" :: .mark '.' :: .word kind :: .mark '(' :: .mark '[' :: list)⟩ := by
  have hlist : ∀ name ∈ names isRead false list, ∃ x ∈ entries, x.name = name := fun name hname =>
    ⟨_, hreads name hname, rfl⟩
  simp only [List.mem_cons, List.not_mem_nil, or_false] at hkind
  constructor
  · refine forall_readNames (CodeLine.forall_names_evaluated ?_)
    simpa using fun name hname => Or.inr (Or.inr (Or.inr (hlist name hname)))
  · rcases hkind with rfl | rfl <;> simp
  · rcases hkind with rfl | rfl <;> simp
  · rcases hkind with rfl | rfl <;> simp
  · rintro rest ⟨other, -, clip', htokens⟩
    have hrest : clip = clip' ∧ kind = other ∧ list = rest := by simpa using htokens
    rw [← hrest.2.2]
    exact forall_readNames fun name hname => Or.inr (List.mem_cons_of_mem _ (hreads name hname))
  · refine CodeLine.forall_names_evaluated ?_
    simpa using fun name hname => Or.inl (hcalls name hname)
  · rcases hkind with rfl | rfl <;> simp

/-- Composing clips reads these clips. -/
theorem needs_composeVideo (clips : List String) (canvas : Canvas) :
    ∀ l ∈ (Statement.composeVideo clips canvas).code,
      Needs (Statement.composeVideo clips canvas).references l := by
  let list : List Token := commaTokens (clips.map fun clip => [.word clip]) ++ .mark ']' ::
    ([.mark ',', .word "size", .mark '='] ++ sizeTokens canvas.size ++ [.mark ')'])
  have hreads : ∀ name ∈ names isRead false list, .entry name ∈ clips.map Reference.entry := by
    refine forall_names_commaTokens (fun clip hclip c hc rest hrest => ?_) (by simp)
    simp only [List.mem_cons, List.not_mem_nil, or_false] at hc
    rcases hc with rfl | rfl <;> simpa [hclip] using hrest
  have hcalls : ∀ name ∈ names isCalled false list, name = "float" := by
    refine forall_names_commaTokens (fun clip hclip c hc rest hrest => ?_) (by simp)
    simp only [List.mem_cons, List.not_mem_nil, or_false] at hc
    rcases hc with rfl | rfl <;> simpa using hrest
  have hkind : "CompositeVideoClip" ∈ ["CompositeVideoClip", "CompositeAudioClip"] := by simp
  have hneeds := needs_composition hkind "final_video" hreads hcalls
  refine List.forall_mem_singleton.mpr ?_
  simpa [Statement.references, list] using hneeds

/-- Composing sounds reads the clips that they belong to. -/
theorem needs_composeAudio (tracks : List Track) :
    ∀ l ∈ (Statement.composeAudio tracks).code,
      Needs (Statement.composeAudio tracks).references l := by
  let list : List Token := commaTokens (tracks.map Track.tokens) ++ .mark ']' :: [.mark ')']
  have hreads : ∀ name ∈ names isRead false list,
      .entry name ∈ tracks.map fun t => Reference.entry t.clip := by
    refine forall_names_commaTokens (fun track htrack c hc rest hrest => ?_) (by simp)
    have hmem : ∃ t ∈ tracks, t.clip = track.clip := ⟨track, htrack, rfl⟩
    simp only [List.mem_cons, List.not_mem_nil, or_false] at hc
    unfold Track.tokens
    rcases hc with rfl | rfl <;> split <;> simpa [hmem] using hrest
  have hcalls : ∀ name ∈ names isCalled false list, name = "float" := by
    refine forall_names_commaTokens (fun track _ c hc rest hrest => ?_) (by simp)
    simp only [List.mem_cons, List.not_mem_nil, or_false] at hc
    unfold Track.tokens
    rcases hc with rfl | rfl <;> split <;> simpa using hrest
  have hkind : "CompositeAudioClip" ∈ ["CompositeVideoClip", "CompositeAudioClip"] := by simp
  have hneeds := needs_composition hkind "final_audio" hreads hcalls
  refine List.forall_mem_singleton.mpr ?_
  simpa [Statement.references, list] using hneeds

/-- Whatever the lines of a statement need is among its references. -/
theorem Statement.needs (s : Statement LetterEffect) :
    ∀ l ∈ s.runnable, Needs s.references l := by
  cases s with
  | importLibrary =>
    simp only [runnable, isChoice, code]
    refine List.forall_mem_singleton.mpr (CodeLine.Bare.needs_of_evaluated ?_ rfl)
    constructor <;> simp
  | blank => exact List.forall_mem_nil _
  | comment text => exact List.forall_mem_nil _
  | loadVideo | loadAudio | apply | opacity | findLetters | attachAudio | exportFilm =>
    refine List.forall_mem_singleton.mpr (CodeLine.Bare.needs ?_ ?_ ?_)
    · constructor <;> simp
    · simp [references]
    · simp [references]
  | cut clip source start stop =>
    refine List.forall_mem_singleton.mpr ⟨?_, ?_, ?_, ?_, ?_, ?_, ?_⟩
    · refine forall_readNames (CodeLine.forall_names_evaluated ?_)
      simp [references]
    · simp [references]
    · simp
    · simp
    · simp
    · refine CodeLine.forall_names_evaluated ?_
      simp
    · simp
  | adjust clip a => exact List.forall_mem_singleton.mpr (a.needs clip 0)
  | choose clip canvas choice => exact choice.needs clip canvas 0
  | prepare effect => exact List.forall_mem_singleton.mpr effect.needs
  | textClip clip arguments position =>
    refine List.forall_mem_singleton.mpr (CodeLine.Bare.needs ?_ ?_ ?_)
    · constructor <;> simp
    · cases hbackground : arguments.background <;>
        simp [references, TextArguments.arguments, hbackground, named]
    · cases hbackground : arguments.background <;>
        simp [references, TextArguments.arguments, hbackground, named]
  | letterHelpers =>
    have hevaluated : ∀ l ∈ letterHelpers.runnable, l.evaluated = [] ∧ l.Bare := by
      rw [runnable_letterHelpers]
      simp only [letterHelpersCode, List.cons_append, List.take_succ_cons, List.take_zero,
        List.forall_mem_cons, List.nil_append]
      refine ⟨⟨rfl, ?_⟩, ⟨rfl, ?_⟩, ⟨rfl, ?_⟩, ⟨rfl, ?_⟩, ⟨rfl, ?_⟩, by simp⟩ <;>
        constructor <;> simp [definition]
    intro l hl
    exact (hevaluated l hl).2.needs_of_evaluated (hevaluated l hl).1
  | letterMotion effect =>
    rw [runnable_letterMotion]
    refine List.forall_mem_singleton.mpr (CodeLine.Bare.needs_of_evaluated ?_ rfl)
    constructor <;> simp [definition]
  | animate clip effect canvas duration position =>
    refine List.forall_mem_singleton.mpr ⟨?_, ?_, ?_, ?_, ?_, ?_, ?_⟩
    · refine forall_readNames (CodeLine.forall_names_evaluated ?_)
      simp [references]
    · simp
    · simp
    · simp
    · simp
    · refine CodeLine.forall_names_evaluated ?_
      simp [references]
    · simp [references]
  | entry s => exact s.needs
  | composeVideo clips canvas => exact needs_composeVideo clips canvas
  | composeAudio tracks => exact needs_composeAudio tracks

end Needs

/-! ## What lines bind -/

/-- An assignment binds its variable. -/
theorem CodeLine.binds_assignment {l : CodeLine} {name : String} {value : List Token}
    (h : l.tokens = assignment name value) : l.binds = [name] := by
  simp [CodeLine.binds, h, assignment]

/-- The first line of a function binds its name. -/
theorem CodeLine.Defines.binds {l : CodeLine} {name : String} (h : l.Defines name) :
    l.binds = [name] := by
  obtain ⟨rest, hrest⟩ := h
  simp [CodeLine.binds, hrest]

/-- Some line binds what a reference refers to, and is of the right kind. -/
def Reference.MetBy (before : List CodeLine) : Reference → Prop
  | source clip => ∃ l ∈ before, l.Loads clip ∨ ∃ other, l.Cuts clip other
  | element clip =>
    ∃ l ∈ before, l.Loads clip ∨ (∃ source, l.Cuts clip source) ∨ l.MakesText clip
  | entry clip => ∃ l ∈ before, ∃ element call, l.Places clip element call
  | function name => ∃ l ∈ before, l.Defines name
  | x => ∃ l ∈ before, x.name ∈ l.binds

/-- Whatever the kind of a line, it binds the name of the reference. -/
theorem Reference.MetBy.binds {before : List CodeLine} {x : Reference} (h : x.MetBy before) :
    ∃ l ∈ before, x.name ∈ l.binds := by
  have hassigned {l : CodeLine} (hl : l ∈ before) {name : String} {value : List Token}
      (htokens : l.tokens = assignment name value) : ∃ l ∈ before, name ∈ l.binds :=
    ⟨l, hl, by simp [CodeLine.binds_assignment htokens]⟩
  cases x with
  | source clip =>
    obtain ⟨l, hl, ⟨kind, -, rest, htokens⟩ | ⟨other, rest, htokens⟩⟩ := h <;>
      exact hassigned hl htokens
  | element clip =>
    obtain ⟨l, hl, ⟨kind, -, rest, htokens⟩ | ⟨other, rest, htokens⟩ | ⟨rest, htokens⟩⟩ := h <;>
      exact hassigned hl htokens
  | entry clip =>
    obtain ⟨l, hl, element, call, htokens, -⟩ := h
    exact hassigned hl htokens
  | function name =>
    obtain ⟨l, hl, hdefines⟩ := h
    exact ⟨l, hl, by simp [hdefines.binds, Reference.name]⟩
  | library | letters | letterTools | effect | film | sound => exact h

/-- More lines bind as much. -/
theorem Reference.MetBy.mono {before more : List CodeLine} {x : Reference} (h : x.MetBy before)
    (hsubset : before ⊆ more) : x.MetBy more := by
  cases x <;> exact h.imp fun l hl => ⟨hsubset hl.1, hl.2⟩

/-- A statement that binds a reference has a line that does. -/
theorem Reference.BoundBy.metBy {s : Statement LetterEffect} {x : Reference} (h : x.BoundBy s) :
    s.isChoice = false ∧ x.MetBy s.runnable := by
  cases x with
  | library =>
    obtain rfl := h
    exact ⟨rfl, _, List.mem_singleton.mpr rfl, by decide⟩
  | source clip =>
    cases s <;> simp only [BoundBy, Statement.loaded?, Option.some.injEq, reduceCtorEq] at h
    case loadVideo | loadAudio =>
      subst h
      exact ⟨rfl, _, List.mem_singleton.mpr rfl, Or.inl ⟨_, by simp, _, rfl⟩⟩
    case cut =>
      subst h
      exact ⟨rfl, _, List.mem_singleton.mpr rfl, Or.inr ⟨_, _, rfl⟩⟩
  | element clip =>
    cases s <;>
      simp only [BoundBy, Statement.made?, Statement.loaded?, Option.some.injEq, reduceCtorEq] at h
    case loadVideo | loadAudio =>
      subst h
      exact ⟨rfl, _, List.mem_singleton.mpr rfl, Or.inl ⟨_, by simp, _, rfl⟩⟩
    case cut =>
      subst h
      exact ⟨rfl, _, List.mem_singleton.mpr rfl, Or.inr (Or.inl ⟨_, _, rfl⟩)⟩
    case textClip =>
      subst h
      exact ⟨rfl, _, List.mem_singleton.mpr rfl, Or.inr (Or.inr ⟨_, rfl⟩)⟩
  | entry clip =>
    obtain ⟨e, rfl, rfl⟩ := h
    exact ⟨rfl, _, List.mem_singleton.mpr rfl, e.element, e.places _ (List.mem_singleton.mpr rfl)⟩
  | letters clip =>
    obtain rfl := h
    exact ⟨rfl, _, List.mem_singleton.mpr rfl, List.mem_singleton.mpr rfl⟩
  | function name =>
    cases s <;> simp only [BoundBy, Statement.functions, List.mem_cons, List.not_mem_nil,
      or_false] at h
    case letterHelpers =>
      refine ⟨rfl, ?_⟩
      rw [Statement.runnable_letterHelpers]
      rcases h with rfl | rfl
      · exact ⟨⟨0, definition "find_letters" ["mask"]⟩, by simp, _, rfl⟩
      · exact ⟨⟨0, definition "move_letters" ["letters", "funcpos", "original_clip"]⟩, by simp, _,
          rfl⟩
    case letterMotion effect =>
      subst h
      refine ⟨rfl, ?_⟩
      rw [Statement.runnable_letterMotion]
      exact ⟨_, List.mem_singleton.mpr rfl, _, rfl⟩
  | letterTools =>
    obtain rfl := h
    refine ⟨rfl, _, List.mem_cons_self, by decide⟩
  | effect e =>
    obtain rfl := h
    exact ⟨rfl, _, List.mem_singleton.mpr rfl, List.mem_singleton.mpr rfl⟩
  | film =>
    obtain ⟨clips, canvas, rfl⟩ := h
    exact ⟨rfl, _, List.mem_singleton.mpr rfl, List.mem_singleton.mpr rfl⟩
  | sound =>
    obtain ⟨tracks, rfl⟩ := h
    exact ⟨rfl, _, List.mem_singleton.mpr rfl, List.mem_singleton.mpr rfl⟩

/-- A line is bound before if the references that it needs are met. -/
theorem Needs.boundBefore {references : List Reference} {line : CodeLine}
    (h : Needs references line) {before : List CodeLine}
    (hbefore : ∀ x ∈ references, x.MetBy before) : BoundBefore before line where
  reads name hname := (h.reads name hname).imp id fun ⟨x, hx, hsame⟩ =>
    hsame ▸ (hbefore x hx).binds
  source clip source hcuts := hbefore _ (h.source clip source hcuts)
  element clip element call hplaces := hbefore _ (h.element clip element call hplaces)
  start clip element call hplaces name hname :=
    (h.start clip element call hplaces name hname).imp id fun hentry =>
      hbefore (.entry name) hentry
  composed rest hcomposes name hname := hbefore _ (h.composed rest hcomposes name hname)
  called name hname := (h.called name hname).imp id fun hfunction =>
    hbefore (.function name) hfunction
  animated effect hanimates := hbefore _ (h.animated effect hanimates)

/-- Every line that scoped statements run is bound before. The induction is on the statements still
to come; the lines that were run for the statements before are passed. -/
theorem Scoped.boundBefore {asked ss : List (Statement LetterEffect)} (h : Scoped asked ss)
    {answers : ℕ → Bool} {c : Control} {passed : List CodeLine}
    (hpassed : ∀ t ∈ asked, t.isChoice = false → t.runnable ⊆ passed)
    {before after : List CodeLine} {line : CodeLine}
    (hsplit : executed answers c (ss.flatMap Statement.code) = before ++ line :: after) :
    BoundBefore (passed ++ before) line := by
  induction ss generalizing asked c passed before with
  | nil => simp [executed] at hsplit
  | cons s ss ih =>
    obtain ⟨hs, hss⟩ := h
    have hmet : ∀ x ∈ s.references, x.MetBy passed := by
      intro x hx
      obtain ⟨t, ht, hbound⟩ := hs x hx
      obtain ⟨hchoice, hmet⟩ := hbound.metBy
      exact hmet.mono (hpassed t ht hchoice)
    have hgrown : ∀ t ∈ asked ++ [s], t.isChoice = false →
        t.runnable ⊆ passed ++ executed answers c s.code := by
      intro t ht hchoice
      rcases List.mem_append.mp ht with ht | ht
      · exact List.subset_append_of_subset_left _ (hpassed t ht hchoice)
      · rw [List.mem_singleton.mp ht] at hchoice ⊢
        rw [s.executed_code answers c hchoice]
        exact List.subset_append_right _ _
    obtain ⟨c', hc'⟩ := executed_append answers c s.code (ss.flatMap Statement.code)
    rw [List.flatMap_cons, hc'] at hsplit
    rcases List.append_eq_append_iff.mp hsplit with ⟨rest, rfl, hrest⟩ | ⟨rest, hrun, hrest⟩
    · rw [← List.append_assoc]
      exact ih hss hgrown hrest
    · cases rest with
      | nil =>
        rw [List.append_nil] at hrun
        have hstart : BoundBefore (passed ++ executed answers c s.code ++ []) line :=
          ih hss hgrown hrest.symm
        rwa [hrun, List.append_nil] at hstart
      | cons first rest =>
        obtain ⟨rfl, -⟩ := List.cons.inj hrest
        have hline : line ∈ s.runnable :=
          s.executed_code_subset answers c (by rw [hrun]; simp)
        exact (s.needs line hline).boundBefore fun x hx =>
          (hmet x hx).mono (List.subset_append_left _ _)

end Script

open Script

/-- In the script of a usable project, whatever its settings and effects are and whatever its
conditions come out as, each line that is run finds what it needs bound by the lines that were run
before it. -/
theorem Project.script_binds_before_use {p : Project} (h : p.Usable) (settings : ScriptSettings)
    (effects : EffectRegistry LetterEffect) (answers : ℕ → Bool) :
    ∃ r script, p.resolve = .ok r ∧ r.script settings effects = .ok script ∧
      ∀ before line after, executed answers { } (codeOf script) = before ++ line :: after →
        BoundBefore before line := by
  obtain ⟨r, hr⟩ := h.exists_resolvesTo
  obtain ⟨statements, hstatements, hscript, hscoped⟩ := hr.exists_scoped_written h settings effects
  refine ⟨r, _, hr.resolve, hscript, fun before line after hsplit => ?_⟩
  have hwellFormed : ∀ s ∈ written [] statements, s.WellFormed := fun s hs =>
    hr.wellFormed_statements h hstatements s ((written_sublist [] statements).subset hs)
  rw [codeOf_textOf hwellFormed] at hsplit
  have hbound : BoundBefore ([] ++ before) line := hscoped.boundBefore (by simp) hsplit
  exact hbound

/-- In the script of the holiday film, everything is bound before it is used, even when another
effect is known under the name of the one it asks for. -/
theorem Project.holiday_script_binds_before_use :
    holiday.Usable ∧ ∃ r script, holiday.resolve = .ok r ∧
      r.script { } (.register .standard "grouping" .falling) = .ok script ∧
      ∀ before line after,
        executed (fun _ => true) { } (codeOf script) = before ++ line :: after →
          BoundBefore before line :=
  ⟨holiday_usable, script_binds_before_use holiday_usable _ _ _⟩

end Montage
