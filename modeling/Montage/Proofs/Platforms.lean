import Mathlib.Data.List.Forall2
import Montage.Proofs.Lines
import Montage.Proofs.Resolution

/-!
# What the platform changes

Fonts are named by their files on one platform and by their names on the other. Nothing else in a
script depends on the platform: for two platforms it is made of the same statements, except that the
text clips name their fonts differently. The two writers then stay alike in all but the fonts of
their texts: they are at the same level and have met the same keys. This holds with effects of any
type, as long as an effect does not look at the text that stands before it. A name of a font is a
literal within one line, whatever characters it has, so the lines of the two scripts stand side by
side, and those that differ are the font arguments of the text clips.
-/

namespace Montage

open Script

variable {E : Type}

/-! ## Fonts of statements -/

/-- The folder of the fonts, where they are files. -/
def Platform.fontFolder : Platform → String
  | windows => "C:/Windows/Fonts/"
  | other => ""

/-- The ending of the fonts, where they are files. -/
def Platform.fontEnding : Platform → String
  | windows => ".ttf"
  | other => ""

/-- The name that a font has on a platform. -/
def Platform.fontName (platform : Platform) (font : String) : String :=
  platform.fontFolder ++ font ++ platform.fontEnding

/-- The same settings for a platform. -/
def ScriptSettings.on (s : ScriptSettings) (platform : Platform) : ScriptSettings :=
  { s with platform := platform }

namespace Script

/-- A statement whose font has the name of a platform. -/
def Statement.onPlatform (platform : Platform) : Statement E → Statement E
  | textClip clip a position =>
    textClip clip { a with font := platform.fontName a.font } position
  | s => s

/-- A call that makes a text clip. -/
structure TextCall where
  clip : String
  arguments : TextArguments

/-- The text clip that a statement makes. -/
def Statement.textCall? : Statement E → Option TextCall
  | textClip clip a _ => some ⟨clip, a⟩
  | _ => none

variable (platform : Platform)

/-- A statement that makes no text clip is the same on all platforms. -/
theorem Statement.onPlatform_of_textCall? {s : Statement E} (h : s.textCall? = none) :
    s.onPlatform platform = s := by
  cases s with
  | textClip clip a position => simp [textCall?] at h
  | _ => rfl

/-- Statements that make no text clips. -/
def Textless (ss : List (Statement E)) : Prop :=
  ∀ s ∈ ss, s.textCall? = none

/-- No statements make no text clips. -/
@[simp] theorem textless_nil : Textless ([] : List (Statement E)) :=
  List.forall_mem_nil _

/-- Statements make no text clips if neither the first of them nor the others do. -/
@[simp] theorem textless_cons (s : Statement E) (ss : List (Statement E)) :
    Textless (s :: ss) ↔ s.textCall? = none ∧ Textless ss :=
  List.forall_mem_cons

/-- Statements make no text clips if neither of their two parts does. -/
@[simp] theorem textless_append (ss ts : List (Statement E)) :
    Textless (ss ++ ts) ↔ Textless ss ∧ Textless ts :=
  List.forall_mem_append

/-- Statements without text clips are the same on all platforms. -/
theorem Textless.map_onPlatform {ss : List (Statement E)} (h : Textless ss) :
    ss.map (Statement.onPlatform platform) = ss := by
  rw [List.map_congr_left fun s hs => Statement.onPlatform_of_textCall? platform (h s hs),
    List.map_id']

/-- Statements without text clips have no calls that make one. -/
theorem Textless.filterMap_textCall? {ss : List (Statement E)} (h : Textless ss) :
    ss.filterMap Statement.textCall? = [] :=
  List.filterMap_eq_nil_iff.mpr h

/-! ## Statements of a script -/

/-- Statements made from the members of a list have no text clips if none of them has. -/
theorem textless_map {α : Type} {f : α → Statement E} (h : ∀ x, (f x).textCall? = none)
    (xs : List α) : Textless (xs.map f) :=
  List.forall_mem_map.mpr fun x _ => h x

/-- Statements collected over a list have no text clips if those of its members have none. -/
theorem textless_flatMap {α : Type} {f : α → List (Statement E)} (h : ∀ x, Textless (f x))
    (xs : List α) : Textless (xs.flatMap f) := by
  intro s hs
  obtain ⟨x, -, hs⟩ := List.mem_flatMap.mp hs
  exact h x s hs

/-- Applying an effect makes no text clip. -/
theorem textless_effectStatements (clip title : String) (effect : ClipEffect) :
    Textless (E := E) (effectStatements clip title effect) := by
  simp [effectStatements, Statement.textCall?]

/-- Finishing a video makes no text clip. -/
theorem textless_finishVideo (p : Project) (canvas : Canvas) (e : Element)
    (options : List VideoOption) : Textless (E := E) (finishVideo p canvas e options) := by
  have hfit : Textless (E := E) (fitStatements e.name canvas (p.frameOf e)) := by
    cases p.frameOf e with
    | none => simp [fitStatements, Statement.textCall?]
    | some size =>
      have hsteps := textless_map (f := Statement.adjust (E := E) e.name) (fun _ => rfl)
        (fitSteps canvas (canvas.fit size))
      simp [fitStatements, Statement.textCall?, hsteps]
  have hoption (o : VideoOption) :
      Textless (E := E) (videoOptionStatements e.name canvas options o) := by
    cases o with
    | transition t => cases t <;> exact textless_effectStatements _ _ _
    | opacity x => simp [videoOptionStatements, Statement.textCall?]
    | resolution preset => simp [videoOptionStatements, Statement.textCall?]
    | size s => simp [videoOptionStatements, Statement.textCall?]
    | position q => simp [videoOptionStatements, Statement.textCall?]
    | _ => exact textless_effectStatements _ _ _
  simp only [finishVideo, textless_append]
  exact ⟨⟨hfit, textless_flatMap hoption options⟩, by simp [Statement.textCall?]⟩

/-- The clip of a video is no text clip. -/
theorem textless_videoStatements (p : Project) (canvas : Canvas) (e : Element) :
    Textless (E := E) (videoStatements p canvas e) := by
  have hfinish := textless_finishVideo (E := E) p canvas e
  cases e with
  | video v =>
    simp only [videoStatements, textless_append]
    exact ⟨by simp [Statement.textCall?], hfinish v.options⟩
  | videoExtract x =>
    simp only [videoStatements, textless_append]
    exact ⟨by simp [Statement.textCall?], hfinish x.options⟩
  | _ => simp [videoStatements]

/-- The clip of a sound is no text clip. -/
theorem textless_audioStatements (e : Element) : Textless (E := E) (audioStatements e) := by
  have hoption (clip : String) (o : AudioOption) :
      Textless (E := E) (audioOptionStatements clip o) := by
    cases o <;> exact textless_effectStatements _ _ _
  have hoptions (clip : String) (options : List AudioOption) :
      Textless (E := E) (options.flatMap (audioOptionStatements clip)) :=
    textless_flatMap (hoption clip) options
  cases e with
  | audio a =>
    simp only [audioStatements, textless_append]
    exact ⟨⟨by simp [Statement.textCall?], hoptions a.name a.options⟩,
      by simp [Statement.textCall?]⟩
  | audioExtract x =>
    simp only [audioStatements, textless_append]
    exact ⟨⟨by simp [Statement.textCall?], hoptions x.name x.options⟩,
      by simp [Statement.textCall?]⟩
  | _ => simp [audioStatements]

/-- Animating a clip makes no text clip. -/
theorem textless_animationStatements (clip : String) (effect : E) (canvas : Canvas)
    (duration : Float) (position : Point) :
    Textless (animationStatements clip effect canvas duration position) := by
  simp [animationStatements, Statement.textCall?]

/-- Composing the film makes no text clip. -/
theorem textless_compositionStatements (name : String) (canvas : Canvas)
    (entries : List (Entry × Element)) :
    Textless (E := E) (compositionStatements name canvas entries) := by
  unfold compositionStatements
  split <;> simp [Statement.textCall?]

/-- The clip of a text is made by one call; what else belongs to it is the same on all platforms. -/
theorem exists_textStatements (s : ScriptSettings) (effects : EffectRegistry E) (duration : Float)
    {e : Element} {t : TextBlock} (ht : e.textBlock? = some t) :
    ∃ title position rest, Textless rest ∧ ∀ platform,
      textStatements (s.on platform) effects duration e =
        .comment title :: .textClip t.name (textArguments (s.on platform) t) position :: rest := by
  refine ⟨if e.isSubtitle then "Load the subtitle clip" else "Load the text clip",
    textPosition s e t.options, (chosenEffect? effects t.options).elim [] (fun effect =>
      animationStatements t.name effect s.canvas duration (textPosition s e t.options)) ++ [.blank],
    ?_, fun platform => ?_⟩
  · rw [textless_append]
    refine ⟨?_, by simp [Statement.textCall?]⟩
    cases chosenEffect? effects t.options with
    | none => simp
    | some effect => exact textless_animationStatements _ _ _ _ _
  · simp only [textStatements, ht]
    cases chosenEffect? effects t.options <;> rfl

/-- What a text clip is made from depends on the platform by the name of the font. -/
theorem textArguments_on (s : ScriptSettings) (platform : Platform) (t : TextBlock) :
    textArguments (s.on platform) t = { textArguments (s.on .other) t with
      font := platform.fontName (textArguments (s.on .other) t).font } := by
  have hfont (font : Option String) : (s.on platform).fontArgument font =
      platform.fontName ((s.on .other).fontArgument font) := by
    cases platform with
    | windows => rfl
    | other => simp [Platform.fontName, Platform.fontFolder, Platform.fontEnding]
  unfold textArguments
  rw [hfont]
  rfl

/-- The clip of a text is made by the same statements, with the font of the platform. -/
theorem textStatements_on (s : ScriptSettings) (effects : EffectRegistry E) (duration : Float)
    (e : Element) :
    textStatements (s.on platform) effects duration e =
      (textStatements (s.on .other) effects duration e).map (Statement.onPlatform platform) := by
  cases ht : e.textBlock? with
  | none => simp [textStatements, ht]
  | some t =>
    obtain ⟨title, position, rest, hrest, heq⟩ := exists_textStatements s effects duration ht
    rw [heq platform, heq .other, List.map_cons, List.map_cons, hrest.map_onPlatform,
      textArguments_on]
    rfl

/-- A text is made by one call. -/
theorem filterMap_textCall?_textStatements (s : ScriptSettings) (effects : EffectRegistry E)
    (duration : Float) (e : Element) :
    (textStatements s effects duration e).filterMap Statement.textCall? =
      (e.textBlock?.map fun t => ⟨t.name, textArguments s t⟩).toList := by
  cases ht : e.textBlock? with
  | none => simp [textStatements, ht]
  | some t =>
    obtain ⟨title, position, rest, hrest, heq⟩ := exists_textStatements s effects duration ht
    have hs : textStatements s effects duration e =
        .comment title :: .textClip t.name (textArguments s t) position :: rest := heq s.platform
    have hcall : Statement.textCall? (E := E) (.textClip t.name (textArguments s t) position) =
        some ⟨t.name, textArguments s t⟩ := rfl
    rw [hs, List.filterMap_cons_none rfl, List.filterMap_cons_some hcall,
      hrest.filterMap_textCall?]
    rfl

end Script

namespace Resolved

variable (r : Resolved) (s : ScriptSettings) (effects : EffectRegistry E)

/-- All clips are made by the same statements, with the fonts of the platform. -/
theorem clipStatements_on (platform : Platform) :
    r.clipStatements (s.on platform) effects =
      (r.clipStatements (s.on .other) effects).map (Statement.onPlatform platform) := by
  simp only [clipStatements, List.map_append]
  congr 1
  · congr 1
    · exact ((textless_flatMap (textless_videoStatements r.project s.canvas) _).map_onPlatform
        platform).symm
    · rw [List.map_flatMap]
      exact List.flatMap_congr fun e _ => textStatements_on platform s effects _ e
  · exact ((textless_flatMap textless_audioStatements _).map_onPlatform platform).symm

/-- The calls that make text clips are those of the texts, in their order. -/
theorem filterMap_textCall?_clipStatements :
    (r.clipStatements s effects).filterMap Statement.textCall? =
      (r.project.elements.filterMap Element.textBlock?).map fun t =>
        ⟨t.name, textArguments s t⟩ := by
  have htextual (e : Element) :
      (if e.isTextual then e.textBlock? else none) = e.textBlock? := by
    cases e <;> rfl
  have hcalls : (r.project.elements.filter Element.isTextual).filterMap Element.textBlock? =
      r.project.elements.filterMap Element.textBlock? := by
    rw [List.filterMap_filter]
    simp only [htextual]
  unfold clipStatements
  rw [List.filterMap_append, List.filterMap_append,
    (textless_flatMap (textless_videoStatements _ _) _).filterMap_textCall?,
    (textless_flatMap textless_audioStatements _).filterMap_textCall?,
    List.nil_append, List.append_nil, List.filterMap_flatMap, ← hcalls, List.map_filterMap,
    List.filterMap_eq_flatMap_toList]
  simp only [filterMap_textCall?_textStatements]

/-- The script is made by the same statements, with the fonts of the platform. -/
theorem statements_on (platform : Platform) :
    r.statements (s.on platform) effects =
      (r.statements (s.on .other) effects).map (List.map (Statement.onPlatform platform)) := by
  have hduration : (s.on platform).defaultTextDuration = (s.on .other).defaultTextDuration := rfl
  have hcanvas : (s.on platform).canvas = (s.on .other).canvas := rfl
  rw [statements, statements, hduration, hcanvas, r.clipStatements_on s effects platform]
  cases r.entryStatements (s.on .other).defaultTextDuration with
  | error e => rfl
  | ok entries =>
    cases r.layered with
    | error e => rfl
    | ok layered =>
      have hcomposition := (textless_compositionStatements (E := E) r.project.outputName
        (s.on .other).canvas layered).map_onPlatform platform
      simp only [bind, Except.bind, pure, Except.pure, Except.map, List.map_append, List.map_map,
        hcomposition]
      rfl

end Resolved

/-- The calls of a script that make text clips are those of the texts, in their order. -/
theorem Project.ResolvesTo.filterMap_textCall? {p : Project} {r : Resolved} (hr : p.ResolvesTo r)
    {s : ScriptSettings} {effects : EffectRegistry E} {ss : List (Statement E)}
    (hss : r.statements s effects = .ok ss) :
    ss.filterMap Statement.textCall? =
      (r.project.elements.filterMap Element.textBlock?).map fun t =>
        ⟨t.name, textArguments s t⟩ := by
  obtain ⟨entries, layered, -, -, hstatements⟩ := hr.exists_statements s effects
  obtain rfl := Except.ok.inj (hstatements.symm.trans hss)
  have hentries : Textless (E := E) (entries.map .entry) := textless_map (fun _ => rfl) entries
  have hopening : Textless (E := E) [.importLibrary, .blank] := by simp [Statement.textCall?]
  have hblank : Textless (E := E) [.blank] := by simp [Statement.textCall?]
  rw [List.filterMap_append, List.filterMap_append, List.filterMap_append, List.filterMap_append,
    hopening.filterMap_textCall?, hentries.filterMap_textCall?, hblank.filterMap_textCall?,
    (textless_compositionStatements _ _ _).filterMap_textCall?, List.nil_append, List.append_nil,
    List.append_nil, List.append_nil, r.filterMap_textCall?_clipStatements]

/-! ## Writers on two platforms -/

/-- Effects that define their functions without looking at the text of the script so far. What they
do may depend on the level of the writer and on the keys that it has met. -/
def TextEffect.Oblivious (E : Type) [TextEffect E] : Prop :=
  ∀ (effect : E) (w : Writer) (text : String),
    TextEffect.definition effect { w with output := text } = TextEffect.definition effect w

/-- The built-in effects do not look at the writer at all. -/
theorem oblivious_letterEffect : TextEffect.Oblivious LetterEffect :=
  fun _ _ _ => rfl

namespace Script

namespace Writer

/-- A writer with a text in front of its own. -/
def behind (w : Writer) (text : String) : Writer :=
  { w with output := text ++ w.output }

/-- What actions append does not depend on the text before it. -/
theorem actAll_behind (w : Writer) (text : String) (actions : List Action) :
    (w.behind text).actAll actions = (w.actAll actions).behind text := by
  have hact (w : Writer) (a : Action) : (w.behind text).act a = (w.act a).behind text := by
    cases a <;> simp [act, add, line, indent, dedent, mark, behind, String.append_assoc]
  induction actions generalizing w with
  | nil => rfl
  | cons a actions ih =>
    have hstep (w : Writer) : w.actAll (a :: actions) = (w.act a).actAll actions := rfl
    rw [hstep, hstep, hact, ih]

variable [TextEffect E]

/-- What a statement appends does not depend on the text before it. -/
theorem emit_behind (h : TextEffect.Oblivious E) (w : Writer) (text : String) (s : Statement E) :
    (w.behind text).emit s = (w.emit s).behind text := by
  have hactions (w : Writer) : s.actions (w.behind text) = s.actions w := by
    cases s with
    | letterMotion effect => exact h effect w _
    | _ => rfl
  have hmark (key : String) : (w.behind text).mark key = (w.mark key).behind text := rfl
  unfold emit
  cases s.onceKey? with
  | none => exact (congrArg _ (hactions w)).trans (actAll_behind w text _)
  | some key =>
    by_cases hkey : key ∈ w.written
    · have hkey' : key ∈ (w.behind text).written := hkey
      simp only [once, if_pos hkey, if_pos hkey']
    · have hkey' : key ∉ (w.behind text).written := hkey
      simp only [once, if_neg hkey, if_neg hkey', hmark, hactions, actAll_behind]

/-- What statements append does not depend on the text before it. -/
theorem emitAll_behind (h : TextEffect.Oblivious E) (w : Writer) (text : String)
    (ss : List (Statement E)) : (w.behind text).emitAll ss = (w.emitAll ss).behind text := by
  induction ss generalizing w with
  | nil => rfl
  | cons s ss ih =>
    have hstep (w : Writer) : w.emitAll (s :: ss) = (w.emit s).emitAll ss := rfl
    rw [hstep, hstep, emit_behind h, ih]

end Writer

/-! ## Scripts with their fonts left open -/

/-- A line at a depth. -/
def indented (depth : ℕ) (text : String) : List Char :=
  List.replicate (4 * depth) ' ' ++ text.toList

/-- The line that names the font of a text clip. Only the name of the font needs escapes. -/
def fontLine (platform : Platform) (depth : ℕ) (font : String) : List Char :=
  indented (depth + 1)
    s!"font=\"{platform.fontFolder}{String.ofList (font.toList.flatMap escape)}{platform.fontEnding}\","

/-- A call that makes a text clip at a depth, up to the line that names the font. -/
def TextCall.head (call : TextCall) (depth : ℕ) : List Char :=
  indented depth s!"{call.clip} = moviepy.TextClip(\n" ++
    indented (depth + 1) s!"text={textLiteral call.arguments.text},\n" ++
    call.arguments.background.toList.flatMap fun color =>
      indented (depth + 1) s!"bg_color={textLiteral color},\n"

/-- A call that makes a text clip, with the text between its font and the next such call. -/
structure TextPart where
  call : TextCall
  depth : ℕ
  rest : List Char

/-- The text of a part on a platform. -/
def TextPart.text (platform : Platform) (part : TextPart) : List Char :=
  part.call.head part.depth ++
    fontLine platform part.depth part.call.arguments.font ++ '\n' :: part.rest

/-- The text of a script for all platforms. -/
structure Template where
  opening : List Char
  parts : List TextPart

namespace Template

variable (t : Template)

/-- The calls that make text clips. -/
def calls : List TextCall :=
  t.parts.map TextPart.call

/-- The text of a script on a platform. -/
def text (platform : Platform) : List Char :=
  t.opening ++ t.parts.flatMap (TextPart.text platform)

end Template

/-- Two lines that are the same, or that name one font on two platforms. -/
inductive SameButFont (a b : Platform) : List Char → List Char → Prop
  | same (line : List Char) : SameButFont a b line line
  | font (depth : ℕ) (name : String) :
      SameButFont a b (fontLine a depth name) (fontLine b depth name)

/-- The font argument is the literal of what the font is called on the platform. -/
theorem fontLine_eq (platform : Platform) (depth : ℕ) (font : String) :
    fontLine platform depth font =
      indented (depth + 1) s!"font={textLiteral (platform.fontName font)}," := by
  have hfolder : platform.fontFolder.toList.flatMap escape = platform.fontFolder.toList := by
    cases platform <;> decide +kernel
  have hending : platform.fontEnding.toList.flatMap escape = platform.fontEnding.toList := by
    cases platform <;> decide +kernel
  simp [fontLine, indented, textLiteral, Platform.fontName, toString_text, hfolder, hending]

/-- The font argument is on one line, whatever the font is called. -/
theorem lineFeed_notMem_fontLine (platform : Platform) (depth : ℕ) (font : String) :
    '\n' ∉ fontLine platform depth font := by
  have hplain : Plain s!"font={textLiteral (platform.fontName font)}," := by
    simp +decide [toString_text]
  rw [fontLine_eq, indented, List.mem_append]
  rintro (hblank | hfeed)
  · exact absurd (List.eq_of_mem_replicate hblank) (by decide)
  · exact absurd (hplain _ hfeed) (by decide)

/-- What stands before a font ends in a line feed. -/
theorem TextCall.exists_head_eq (call : TextCall) (depth : ℕ) :
    ∃ lines, call.head depth = lines ++ ['\n'] := by
  cases hbackground : call.arguments.background with
  | none =>
    refine ⟨indented depth s!"{call.clip} = moviepy.TextClip(\n" ++
      indented (depth + 1) s!"text={textLiteral call.arguments.text},", ?_⟩
    simp [head, hbackground, indented, toString_text]
  | some color =>
    refine ⟨indented depth s!"{call.clip} = moviepy.TextClip(\n" ++
      indented (depth + 1) s!"text={textLiteral call.arguments.text},\n" ++
      indented (depth + 1) s!"bg_color={textLiteral color},", ?_⟩
    simp [head, hbackground, indented, toString_text]

/-- The lines around a font are those before it, the font argument, and those behind it. -/
theorem TextCall.exists_splitOn_eq (call : TextCall) (depth : ℕ) (opening : List Char) :
    ∃ before, ∀ platform rest,
      (opening ++ (call.head depth ++ fontLine platform depth call.arguments.font ++
        '\n' :: rest)).splitOn '\n' =
        before ++ fontLine platform depth call.arguments.font :: rest.splitOn '\n' := by
  obtain ⟨lines, hhead⟩ := call.exists_head_eq depth
  refine ⟨(opening ++ lines).splitOn '\n', fun platform rest => ?_⟩
  have hfont := List.splitOn_eq_singleton
    (lineFeed_notMem_fontLine platform depth call.arguments.font)
  have hshape : opening ++ (call.head depth ++ fontLine platform depth call.arguments.font ++
      '\n' :: rest) = (opening ++ lines) ++ '\n' ::
        (fontLine platform depth call.arguments.font ++ '\n' :: rest) := by
    simp [hhead]
  rw [hshape, List.splitOn_append_cons_self, List.splitOn_append_cons_self, hfont]
  rfl

/-- On two platforms, the lines of a script stand side by side. The induction is on the parts: the
text behind a font opens the parts that follow. -/
theorem Template.forall₂_lines (t : Template) (a b : Platform) :
    List.Forall₂ (SameButFont a b) ((t.text a).splitOn '\n') ((t.text b).splitOn '\n') := by
  obtain ⟨opening, parts⟩ := t
  have hsame (ls : List (List Char)) : List.Forall₂ (SameButFont a b) ls ls :=
    List.forall₂_same.mpr fun line _ => .same line
  induction parts generalizing opening with
  | nil =>
    simp only [text, List.flatMap_nil]
    exact hsame _
  | cons part parts ih =>
    obtain ⟨before, hsplit⟩ := part.call.exists_splitOn_eq part.depth opening
    have htext (platform : Platform) : (Template.text ⟨opening, part :: parts⟩ platform) =
        opening ++ (part.call.head part.depth ++
          fontLine platform part.depth part.call.arguments.font ++
          '\n' :: Template.text ⟨part.rest, parts⟩ platform) := by
      simp [text, TextPart.text]
    rw [htext, htext, hsplit, hsplit]
    exact List.rel_append (hsame before) (.cons (.font _ _) (ih part.rest))

/-- Every text clip names its font. -/
theorem Template.exists_fontLine_mem (t : Template) (platform : Platform) {call : TextCall}
    (h : call ∈ t.calls) :
    ∃ depth, fontLine platform depth call.arguments.font ∈ (t.text platform).splitOn '\n' := by
  obtain ⟨part, hpart, rfl⟩ := List.mem_map.mp h
  obtain ⟨earlier, later, hparts⟩ := List.append_of_mem hpart
  obtain ⟨before, hsplit⟩ := part.call.exists_splitOn_eq part.depth
    (t.opening ++ earlier.flatMap (TextPart.text platform))
  refine ⟨part.depth, ?_⟩
  have htext : t.text platform = (t.opening ++ earlier.flatMap (TextPart.text platform)) ++
      (part.call.head part.depth ++ fontLine platform part.depth part.call.arguments.font ++
        '\n' :: (part.rest ++ later.flatMap (TextPart.text platform))) := by
    simp [text, hparts, TextPart.text]
  rw [htext, hsplit]
  simp

/-! ## Templates of statements -/

/-- A line that ends in words stands behind the blanks of its depth. -/
theorem toList_linesText_cons (depth : ℕ) (text : String) {words : String} (hne : words ≠ "")
    (ls : List Line) : (linesText (⟨depth, text ++ words⟩ :: ls)).toList =
      indented depth (text ++ words ++ "\n") ++ (linesText ls).toList := by
  simp [linesText_cons, Writer.lineText, Writer.indentation, indented, hne]

/-- The lines of a call that makes a text clip, behind the font. -/
def restLines (a : TextArguments) (position : Point) : List Line :=
  [⟨1, s!"font_size={pixelsLiteral a.fontSize},"⟩, ⟨1, s!"color={textLiteral a.color},"⟩,
    ⟨1, s!"text_align={textLiteral a.alignment.text},"⟩, ⟨1, s!"size={sizeLiteral a.size},"⟩,
    flat s!").with_position({pointLiteral position})"]

/-- The lines of a text clip, at a depth, are those up to the font, the font and the rest. -/
theorem toList_linesText_textClip (platform : Platform) (clip : String) (a : TextArguments)
    (position : Point) (depth : ℕ) :
    (linesText (atDepth depth (Statement.textClip clip
      { a with font := platform.fontName a.font } position).lines)).toList =
        TextPart.text platform
          ⟨⟨clip, a⟩, depth, (linesText (atDepth depth (restLines a position))).toList⟩ := by
  rw [Statement.lines_textClip, TextArguments.lines_eq, TextPart.text, TextCall.head, fontLine_eq]
  cases a.background with
  | none =>
    simp [deeper, flat, toList_linesText_cons, restLines, indented, toString_text, Nat.add_comm]
  | some color =>
    simp [deeper, flat, toList_linesText_cons, restLines, indented, toString_text, Nat.add_comm]

/-- A call that makes a text clip is written with the font of the platform; what follows the font
does not depend on it. -/
theorem emit_textClip [TextEffect E] (platform : Platform) (clip : String) (a : TextArguments)
    (position : Point) (level : ℕ) (keys : List String) :
    Writer.emit ⟨"", level, keys⟩
        ((Statement.textClip clip a position : Statement E).onPlatform platform) =
      ⟨String.ofList (TextPart.text platform ⟨⟨clip, a⟩, level,
        (linesText (atDepth level (restLines a position))).toList⟩), level, keys⟩ := by
  have hwritten : Writer.emit ⟨"", level, keys⟩
      ((Statement.textClip clip a position : Statement E).onPlatform platform) =
        Writer.add ⟨"", level, keys⟩ (linesText (atDepth level (Statement.textClip clip
          { a with font := platform.fontName a.font } position).lines)) :=
    Writer.actAll_actions ⟨"", level, keys⟩ .empty (.textClip clip _ position)
  rw [hwritten, ← toList_linesText_textClip, String.ofList_toList]
  simp [Writer.add]

/-- Statements make the same script on all platforms, but for the fonts of their text clips. The
induction is on the statements, from any level and with any keys. -/
theorem exists_template [TextEffect E] (h : TextEffect.Oblivious E) (ss : List (Statement E))
    (level : ℕ) (keys : List String) :
    ∃ t : Template, t.calls = ss.filterMap Statement.textCall? ∧ ∀ platform,
      (Writer.emitAll ⟨"", level, keys⟩ (ss.map (Statement.onPlatform platform))).output.toList =
        t.text platform := by
  induction ss generalizing level keys with
  | nil => exact ⟨⟨[], []⟩, rfl, fun platform => rfl⟩
  | cons s ss ih =>
    have hstep (platform : Platform) (v : Writer)
        (hv : Writer.emit ⟨"", level, keys⟩ (s.onPlatform platform) = v) :
        Writer.emitAll ⟨"", level, keys⟩ ((s :: ss).map (Statement.onPlatform platform)) =
          (Writer.emitAll ⟨"", v.level, v.written⟩
            (ss.map (Statement.onPlatform platform))).behind v.output := by
      have hv' : v = Writer.behind ⟨"", v.level, v.written⟩ v.output := by simp [Writer.behind]
      rw [← Writer.emitAll_behind h, ← hv', ← hv]
      rfl
    cases hs : s.textCall? with
    | none =>
      -- The text of the statement comes before the one that opens the rest.
      obtain ⟨⟨opening, parts⟩, hcalls, htext⟩ := ih
        (Writer.emit ⟨"", level, keys⟩ s).level (Writer.emit ⟨"", level, keys⟩ s).written
      refine ⟨⟨(Writer.emit ⟨"", level, keys⟩ s).output.toList ++ opening, parts⟩, ?_,
        fun platform => ?_⟩
      · rw [List.filterMap_cons_none hs]
        exact hcalls
      · rw [hstep platform _ (by rw [s.onPlatform_of_textCall? platform hs]), Writer.behind,
          String.toList_append, htext]
        simp [Template.text]
    | some call =>
      -- The call is a part of its own, and the text that opened the rest belongs to it.
      cases s with
      | textClip clip a position =>
        obtain rfl := Option.some.inj hs
        obtain ⟨⟨opening, parts⟩, hcalls, htext⟩ := ih level keys
        refine ⟨⟨[], ⟨⟨clip, a⟩, level, (linesText (atDepth level
          (restLines a position))).toList ++ opening⟩ :: parts⟩, ?_, fun platform => ?_⟩
        · rw [List.filterMap_cons_some hs]
          exact congrArg (List.cons _) hcalls
        · rw [hstep platform _ (emit_textClip platform clip a position level keys), Writer.behind,
            String.toList_append, htext]
          simp [Template.text, TextPart.text]
      | _ => simp [Statement.textCall?] at hs

end Script

namespace Project

variable {p : Project} {r : Resolved} [TextEffect E]

/-- The scripts of a resolved project on all platforms come from one template. -/
theorem ResolvesTo.exists_template (hr : p.ResolvesTo r) (h : TextEffect.Oblivious E)
    (s : ScriptSettings) (effects : EffectRegistry E) :
    ∃ t : Template,
      (t.calls = (r.project.elements.filterMap Element.textBlock?).map fun block =>
        ⟨block.name, textArguments (s.on .other) block⟩) ∧
      ∀ platform, ∃ script, r.script (s.on platform) effects = .ok script ∧
        script.toList = t.text platform := by
  obtain ⟨ss, hss, -⟩ := hr.script_eq_render (s.on .other) effects
  obtain ⟨t, hcalls, htext⟩ := Script.exists_template h ss 0 []
  refine ⟨t, hcalls.trans (hr.filterMap_textCall? hss), fun platform => ?_⟩
  obtain ⟨ss', hss', hscript⟩ := hr.script_eq_render (s.on platform) effects
  rw [r.statements_on, hss] at hss'
  obtain rfl := Except.ok.inj hss'
  exact ⟨_, hscript, htext platform⟩

/-- An effect of the caller: letters rise to their place, at a speed. -/
structure Rising where
  speed : ℕ

instance : TextEffect Rising where
  name _ := "rising"
  description _ := "Letters rise to their place"
  definition effect _ :=
    [.mark "rising", .line "def rising(screenpos, i, nletters):", .indent,
      .line s!"return lambda t: screenpos + np.array([0, {Decimal.natText effect.speed} / (1 + t)])",
      .dedent]

/-- A film with two texts. The font of the second one has a line feed and a quote in its name, and
the letters of the first one are animated. -/
def credits : Project where
  outputName := "credits"
  elements :=
    [.text ⟨"title", "The end", [.effect .falling]⟩,
      .text ⟨"cast", "Cast", [.font "Fira\n\"Sans"]⟩]
  groups := []
  timeline := [⟨"#1", "title", .implicit, none, none⟩, ⟨"#2", "cast", .implicit, none, none⟩]

end Project

end Montage
