import Montage.Proofs.Blocks
import Montage.Proofs.Tokens

/-!
# The code of statements

Every statement is read back from the lines that are written for it. What is assigned, what is
called and what is handed over stand in the code as tokens; what the project brings in are names,
numbers and literals, which are read as what they are. So the code of a script is the code of its
statements, one after the other.
-/

namespace Montage.Script

/-! ## Code as tokens -/

/-- An assignment. -/
def assignment (name : String) (value : List Token) : List Token :=
  .word name :: .mark '=' :: value

/-- A call of a method. -/
def method (name : String) (arguments : List Token) : List Token :=
  .mark '.' :: .word name :: .mark '(' :: arguments ++ [.mark ')']

/-- A named argument. -/
def named (name : String) (value : List Token) : List Token :=
  .word name :: .mark '=' :: value

/-- Values with commas between them. -/
def commaTokens (items : List (List Token)) : List Token :=
  [Token.mark ','].intercalate items

/-- The argument of a resizing call. -/
def Resize.tokens : Resize → List Token
  | size s => sizeTokens s
  | width n => named "width" [.number (pixelsLiteral n)]
  | height n => named "height" [.number (pixelsLiteral n)]

/-- The code that changes a clip. -/
def Adjustment.tokens (clip : String) : Adjustment → List Token
  | resize r => assignment clip (.word clip :: method "resized" r.tokens)
  | position p => assignment clip (.word clip :: method "with_position" (pointTokens p))

/-- The code of a quotient in lowest terms. -/
def ratioTokens (width height : UInt32) : List Token :=
  let divisor := max (commonDivisor width height) 1
  [.number (pixelsLiteral (width / divisor)), .mark '/', .number (pixelsLiteral (height / divisor))]

/-- The code of a comparison. -/
def RatioTest.operator : RatioTest → List Token
  | equal => [.mark '=', .mark '=']
  | wider => [.mark '>']

/-- The code of a condition. -/
def RatioTest.tokens (clip : String) (canvas : Canvas) (t : RatioTest) : List Token :=
  [.word "if", .word clip, .mark '.', .word "size", .mark '[', .number "0", .mark ']', .mark '/',
    .word clip, .mark '.', .word "size", .mark '[', .number "1", .mark ']'] ++ t.operator ++
    ratioTokens canvas.width canvas.height ++ [.mark ':']

/-- The code of a choice, from a depth on. -/
def Choice.code (clip : String) (canvas : Canvas) (depth : ℕ) : Choice → List CodeLine
  | plain steps => steps.map fun a => ⟨4 * depth, a.tokens clip⟩
  | test t yes no after =>
    ⟨4 * depth, t.tokens clip canvas⟩ :: yes.code clip canvas (depth + 1) ++
      ⟨4 * depth, [.word "else", .mark ':']⟩ :: no.code clip canvas (depth + 1) ++
      after.map fun a => ⟨4 * depth, a.tokens clip⟩

/-- What holds of all changes of a clip, of all tests and of the line between two branches holds of
the code of a choice. -/
theorem Choice.forall_code {P : CodeLine → Prop} {clip : String} {canvas : Canvas}
    (hstep : ∀ indent (a : Adjustment), P ⟨indent, a.tokens clip⟩)
    (htest : ∀ indent (t : RatioTest), P ⟨indent, t.tokens clip canvas⟩)
    (helse : ∀ indent, P ⟨indent, [.word "else", .mark ':']⟩) (depth : ℕ) (choice : Choice) :
    ∀ l ∈ choice.code clip canvas depth, P l := by
  have hsteps (depth : ℕ) (steps : List Adjustment) :
      ∀ l ∈ steps.map fun a => (⟨4 * depth, a.tokens clip⟩ : CodeLine), P l :=
    List.forall_mem_map.mpr fun a _ => hstep _ a
  induction choice generalizing depth with
  | plain steps => exact hsteps depth steps
  | test t yes no after ihyes ihno =>
    simp only [Choice.code, List.cons_append, List.forall_mem_cons, List.forall_mem_append]
    exact ⟨htest _ t, ⟨ihyes (depth + 1), helse _, ihno (depth + 1)⟩, hsteps depth after⟩

/-- The code that makes an effect of the library, for pictures or for sound. -/
def libraryEffect (kind name : String) (arguments : List Token) : List Token :=
  [.word "moviepy", .mark '.', .word kind, .mark '.', .word "fx"] ++ method name arguments

/-- The code that makes an effect. -/
def ClipEffect.tokens : ClipEffect → List Token
  | brightness x => libraryEffect "video" "MultiplyColor" (named "factor" (numberTokens x))
  | scale x => libraryEffect "video" "Resize" (numberTokens x)
  | contrast x => libraryEffect "video" "LumContrast" (commaTokens
      [named "lum" [.number "20"], named "contrast" (numberTokens x),
        named "contrast_threshold" [.number "127"]])
  | saturation x => libraryEffect "video" "Painting" (commaTokens
      [named "saturation" (numberTokens x), named "black" [.number "0.0"]])
  | rotation x => libraryEffect "video" "Rotate" (commaTokens
      [named "angle" (numberTokens x), named "unit" [literal "deg"],
        named "resample" [literal "bicubic"], named "expand" [.word "True"]])
  | crossFadeIn => libraryEffect "video" "CrossFadeIn" [.number "1"]
  | crossFadeOut => libraryEffect "video" "CrossFadeOut" [.number "1"]
  | volume x => libraryEffect "audio" "MultiplyStereoVolume" (commaTokens
      [named "left" (numberTokens x), named "right" (numberTokens x)])
  | audioFadeIn x => libraryEffect "audio" "AudioFadeIn" (numberTokens x)
  | audioFadeOut x => libraryEffect "audio" "AudioFadeOut" (numberTokens x)
  | stereoVolume l r => libraryEffect "audio" "MultiplyStereoVolume" (commaTokens
      [named "left" (numberTokens l), named "right" (numberTokens r)])
  | normalize => libraryEffect "audio" "AudioNormalize" []

/-- The arguments of a text clip, one by one. -/
def TextArguments.arguments (a : TextArguments) : List (List Token) :=
  [named "text" [literal a.text, .mark ',']] ++
    (a.background.toList.map fun color => named "bg_color" [literal color, .mark ',']) ++
    [named "font" [literal a.font, .mark ','],
      named "font_size" [.number (pixelsLiteral a.fontSize), .mark ','],
      named "color" [literal a.color, .mark ','],
      named "text_align" [literal a.alignment.text, .mark ','],
      named "size" (sizeTokens a.size ++ [.mark ','])]

/-- The code of a start. -/
def StartExpression.tokens : StartExpression Float → List Token
  | instant t => numberTokens t
  | relative clip anchor shift =>
    [.word clip, .mark '.', .word (match anchor with | .start => "start" | .stop => "end")] ++
      (match shift with
        | none => []
        | some (.plus, t) => .mark '+' :: numberTokens t
        | some (.minus, t) => .mark '-' :: numberTokens t)

/-- The code of what is heard. -/
def Track.tokens (t : Track) : List Token :=
  if t.ofVideo then [.word t.clip, .mark '.', .word "audio"] else [.word t.clip]

/-- A line as code. -/
def Line.code (l : Line) : CodeLine :=
  ⟨4 * l.level, tokens l.text.toList⟩

/-- The first line of a function. -/
def definition (name : String) (parameters : List String) : List Token :=
  .word "def" :: .word name :: .mark '(' :: commaTokens (parameters.map fun p => [.word p]) ++
    [.mark ')', .mark ':']

/-- The code of a function. -/
def functionCode (name : String) (parameters : List String) (body : List CodeLine) :
    List CodeLine :=
  ⟨0, definition name parameters⟩ :: body

/-- The code of the functions that split a text into letters and move them. -/
def letterHelpersCode : List CodeLine :=
  [⟨0, [.word "import", .word "numpy", .word "as", .word "np"]⟩,
    ⟨0, [.word "from", .word "scipy", .mark '.', .word "ndimage", .word "import", .word "label",
      .mark ',', .word "find_objects"]⟩,
    ⟨0, assignment "rotMatrix" (.word "lambda" :: .word "a" ::
      tokens ": np.array([[np.cos(a), np.sin(a)], [-np.sin(a), np.cos(a)]])".toList)⟩] ++
  functionCode "find_letters" ["mask"]
    [Line.code ⟨1, "labeled_array, num_features = label(mask)"⟩,
      Line.code ⟨1, "return find_objects(labeled_array)"⟩] ++
  functionCode "move_letters" ["letters", "funcpos", "original_clip"]
    [Line.code ⟨1, "animated_letters = []"⟩,
      Line.code ⟨1, "for i, letter_slice in enumerate(letters):"⟩,
      Line.code ⟨2, "x_min, x_max = letter_slice[1].start, letter_slice[1].stop"⟩,
      Line.code ⟨2, "y_min, y_max = letter_slice[0].start, letter_slice[0].stop"⟩,
      Line.code ⟨2, "cropped_letter = original_clip.cropped(x1=x_min, x2=x_max, y1=y_min, y2=y_max)"⟩,
      Line.code ⟨2, "animated_letters.append(cropped_letter.with_position(funcpos((x_min, y_min), i, len(letters))))"⟩,
      Line.code ⟨1, "return animated_letters"⟩]

/-- The code of the function that says where the letters of an effect are. -/
def letterMotionCode (effect : LetterEffect) : List CodeLine :=
  functionCode effect.name ["screenpos", "i", "nletters"] <|
    match effect with
    | .grouping =>
      [Line.code ⟨1, "d = lambda t: 1.0 / (0.3 + t**8)"⟩,
        Line.code ⟨1, "a = i * np.pi / nletters"⟩,
        Line.code ⟨1, "v = rotMatrix(a).dot([-1, 0])"⟩,
        Line.code ⟨1, "if i % 2:"⟩,
        Line.code ⟨2, "v[1] = -v[1]"⟩,
        Line.code ⟨1, "return lambda t: screenpos + 400 * d(t) * rotMatrix(0.5 * d(t) * a).dot(v)"⟩]
    | .falling =>
      [Line.code ⟨1, "v = np.array([0, -1])"⟩,
        Line.code ⟨1, "d = lambda t: 1 if t < 0 else abs(np.sinc(t) / (1 + t**4))"⟩,
        Line.code ⟨1, "return lambda t: screenpos + v * 400 * d(t - 0.15 * i)"⟩]

/-- The code of a statement. -/
def Statement.code : Statement LetterEffect → List CodeLine
  | importLibrary => [⟨0, [.word "import", .word "moviepy"]⟩]
  | blank => []
  | comment _ => []
  | loadVideo clip path =>
    [⟨0, assignment clip (.word "moviepy" :: method "VideoFileClip" [literal path])⟩]
  | loadAudio clip path =>
    [⟨0, assignment clip (.word "moviepy" :: method "AudioFileClip" [literal path])⟩]
  | cut clip source start stop =>
    [⟨0, assignment clip (.word source :: method "subclipped"
      (numberTokens start.toFloat ++ .mark ',' :: numberTokens stop.toFloat))⟩]
  | adjust clip a => [⟨0, a.tokens clip⟩]
  | choose clip canvas choice => choice.code clip canvas 0
  | prepare effect => [⟨0, assignment effect.holder effect.tokens⟩]
  | apply clip effect => [⟨0, assignment clip (.word effect.holder :: method "apply" [.word clip])⟩]
  | opacity clip value =>
    [⟨0, assignment clip (.word clip :: method "with_opacity" (numberTokens value))⟩]
  | textClip clip arguments position =>
    [⟨0, assignment clip (.word "moviepy" :: method "TextClip" arguments.arguments.flatten ++
      method "with_position" (pointTokens position))⟩]
  | letterHelpers => letterHelpersCode
  | letterMotion effect => letterMotionCode effect
  | findLetters clip =>
    [⟨0, assignment (lettersVariable clip)
      ([.word "find_letters", .mark '(', .word clip, .mark '.', .word "mask"] ++
        method "get_frame" [.number "0"] ++ [.mark ')'])⟩]
  | animate clip effect canvas duration position =>
    [⟨0, assignment clip (.word "moviepy" :: method "CompositeVideoClip"
        ([.word "move_letters", .mark '(', .word (lettersVariable clip), .mark ',',
          .word effect.name, .mark ',', .word clip, .mark ')', .mark ',', .word "size",
          .mark '='] ++ sizeTokens canvas.size ++ [.mark ',']) ++
      method "subclipped" (.number "0" :: .mark ',' :: numberTokens duration) ++
      method "with_position" (pointTokens position))⟩]
  | entry s =>
    [⟨0, assignment s.clip (.word s.element ::
      s.start.toList.flatMap (fun e => method "with_start" e.tokens) ++
      s.duration.toList.flatMap (fun t => method "with_duration" (numberTokens t)))⟩]
  | composeVideo clips canvas =>
    [⟨0, assignment "final_video" (.word "moviepy" :: method "CompositeVideoClip"
      (.mark '[' :: commaTokens (clips.map fun clip => [.word clip]) ++
        [.mark ']', .mark ',', .word "size", .mark '='] ++ sizeTokens canvas.size))⟩]
  | composeAudio tracks =>
    [⟨0, assignment "final_audio" (.word "moviepy" :: method "CompositeAudioClip"
      (.mark '[' :: commaTokens (tracks.map Track.tokens) ++ [.mark ']']))⟩]
  | attachAudio =>
    [⟨0, [.word "final_video", .mark '.', .word "audio", .mark '=', .word "final_audio"]⟩]
  | exportFilm name =>
    [⟨0, .word "final_video" :: method "write_videofile" [literal (filmFile name)]⟩]

/-! ## Lines as tokens -/

section Scanning

-- A line is scanned by computing with its fixed words and by one lemma for each other piece.
attribute [local simp] tokens scan Mode.next Mode.start Mode.pending Mode.continuesNumber isNamePart
  isNameStart toString_text scan_textLiteral_append scan_pointLiteral_append
  scan_sizeLiteral_append scan_numberLiteral_append scan_natText_append assignment method named

variable {clip source : String}

/-- Loading a file. -/
theorem tokens_load (h : IsName clip) (path : String) :
    tokens (s!"{clip} = moviepy.VideoFileClip({textLiteral path})").toList =
        assignment clip (.word "moviepy" :: method "VideoFileClip" [literal path]) ∧
      tokens (s!"{clip} = moviepy.AudioFileClip({textLiteral path})").toList =
        assignment clip (.word "moviepy" :: method "AudioFileClip" [literal path]) := by
  simp [h.scan_append]

/-- Cutting a piece. -/
theorem tokens_cut (h : IsName clip) (hsource : IsName source) (x y : Float) :
    tokens (s!"{clip} = {source}.subclipped({numberLiteral x}, {numberLiteral y})").toList =
      assignment clip (.word source :: method "subclipped"
        (numberTokens x ++ .mark ',' :: numberTokens y)) := by
  simp [h.scan_append, hsource.scan_append]

/-- Changing the frame of a clip. -/
theorem Adjustment.tokens_text (h : IsName clip) (a : Adjustment) :
    Script.tokens (a.text clip).toList = a.tokens clip := by
  cases a with
  | position p => simp [text, Adjustment.tokens, h.scan_append]
  | resize r =>
    cases r <;>
      simp [text, Adjustment.tokens, Resize.text, Resize.tokens, pixelsLiteral, h.scan_append]

/-- Asking for the ratio of a frame. -/
theorem RatioTest.tokens_text (h : IsName clip) (canvas : Canvas) (t : RatioTest) :
    Script.tokens (s!"if {t.text clip canvas}:").toList = t.tokens clip canvas := by
  cases t <;>
    simp [text, RatioTest.tokens, operator, ratioLiteral, ratioTokens, pixelsLiteral,
      h.scan_append]

/-- The words of effects have no other meaning. -/
theorem ClipEffect.isName_holder (effect : ClipEffect) : IsName effect.holder := by
  cases effect <;> exact (isIdentifier_iff _).mp (by simp only [holder]; decide)

/-- Making an effect. -/
theorem ClipEffect.tokens_expression (effect : ClipEffect) :
    Script.tokens effect.expression.toList = effect.tokens := by
  have hdeg : literal "deg" = .quoted "deg".toList := by decide
  have hbicubic : literal "bicubic" = .quoted "bicubic".toList := by decide
  cases effect <;> delta expression ClipEffect.tokens <;> dsimp only <;>
    simp [libraryEffect, commaTokens, List.intercalate, hdeg, hbicubic]

/-- Keeping an effect in its variable. -/
theorem tokens_prepare (effect : ClipEffect) :
    tokens (s!"{effect.holder} = {effect.expression}").toList =
      assignment effect.holder effect.tokens := by
  have hscan : tokens (s!"{effect.holder} = {effect.expression}").toList =
      assignment effect.holder (tokens effect.expression.toList) := by
    simp [effect.isName_holder.scan_append]
  rw [hscan, effect.tokens_expression]

/-- Applying an effect. -/
theorem tokens_apply (h : IsName clip) (effect : ClipEffect) :
    tokens (s!"{clip} = {effect.holder}.apply({clip})").toList =
      assignment clip (.word effect.holder :: method "apply" [.word clip]) := by
  simp [h.scan_append, effect.isName_holder.scan_append]

/-- Making a clip see-through. -/
theorem tokens_opacity (h : IsName clip) (x : Float) :
    tokens (s!"{clip} = {clip}.with_opacity({numberLiteral x})").toList =
      assignment clip (.word clip :: method "with_opacity" (numberTokens x)) := by
  simp [h.scan_append]

/-- The variable of letters is a name. -/
theorem isName_lettersVariable (h : IsName clip) : IsName (lettersVariable clip) :=
  h.append ((isIdentifier_iff "_letters").mp (by decide)).continuesName

/-- Finding the letters of a clip. -/
theorem tokens_findLetters (h : IsName clip) :
    tokens (s!"{lettersVariable clip} = find_letters({clip}.mask.get_frame(0))").toList =
      assignment (lettersVariable clip)
        ([.word "find_letters", .mark '(', .word clip, .mark '.', .word "mask"] ++
          method "get_frame" [.number "0"] ++ [.mark ')']) := by
  simp [h.scan_append, (isName_lettersVariable h).scan_append]

/-- The names of effects are names of functions. -/
theorem isName_effectName (effect : LetterEffect) : IsName effect.name := by
  cases effect <;> exact (isIdentifier_iff _).mp (by simp only [LetterEffect.name]; decide)

/-- The start of a clip. -/
theorem StartExpression.WellFormed.scan_append {e : StartExpression Float} (h : e.WellFormed)
    (rest : List Char) :
    scan .idle (e.text.toList ++ ')' :: rest) = e.tokens ++ .mark ')' :: scan .idle rest := by
  cases e with
  | instant t => simp [StartExpression.text, StartExpression.tokens]
  | relative clip anchor shift =>
    have hclip : IsName clip := h
    rcases shift with _ | ⟨sign, t⟩
    · cases anchor <;>
        simp [StartExpression.text, StartExpression.tokens, anchorAttribute, hclip.scan_append]
    · cases anchor <;> cases sign <;>
        simp [StartExpression.text, StartExpression.tokens, anchorAttribute, Sign.symbol,
          hclip.scan_append]

/-- Putting a clip on the timeline. -/
theorem tokens_entry {s : EntryStatement Float} (hclip : IsName s.clip)
    (helement : IsName s.element) (hstart : ∀ e ∈ s.start, e.WellFormed) :
    tokens s.text.toList = assignment s.clip (.word s.element ::
      s.start.toList.flatMap (fun e => method "with_start" e.tokens) ++
      s.duration.toList.flatMap (fun t => method "with_duration" (numberTokens t))) := by
  obtain ⟨clip, element, start, duration⟩ := s
  have hend : scan .idle element.toList = [.word element] := helement.tokens_eq
  cases start with
  | none =>
    cases duration <;>
      simp [EntryStatement.text, hclip.scan_append, helement.scan_append, hend]
  | some e =>
    have he := (hstart e rfl).scan_append
    cases duration <;>
      simp [EntryStatement.text, hclip.scan_append, helement.scan_append, he]

/-- The code of a list is that of its members. -/
theorem scan_commas_append {α : Type} (f : α → String) (g : α → List Token) (xs : List α)
    (h : ∀ a ∈ xs, ∀ c rest, Mode.continuesNumber c = false →
      scan .idle ((f a).toList ++ c :: rest) = g a ++ scan .idle (c :: rest)) (rest : List Char) :
    scan .idle ((commas (xs.map f)).toList ++ ']' :: rest) =
      commaTokens (xs.map g) ++ .mark ']' :: scan .idle rest := by
  induction xs with
  | nil => rfl
  | cons a xs ih =>
    obtain ⟨ha, hxs⟩ := List.forall_mem_cons.mp h
    cases xs with
    | nil => simp [commas, commaTokens, List.intercalate, ha]
    | cons b xs =>
      have htext : (commas ((a :: b :: xs).map f)).toList =
          (f a).toList ++ ',' :: ' ' :: (commas ((b :: xs).map f)).toList := by
        simp [commas, String.toList_intercalate, List.intercalate]
      have htokens : commaTokens ((a :: b :: xs).map g) =
          g a ++ .mark ',' :: commaTokens ((b :: xs).map g) := by
        simp [commaTokens, List.intercalate]
      have hcomma (cs : List Char) :
          scan .idle (',' :: ' ' :: cs) = .mark ',' :: scan .idle cs := rfl
      rw [htext, htokens, List.append_assoc, List.cons_append, List.cons_append,
        ha _ _ (by decide), hcomma, ih hxs, List.append_assoc, List.cons_append]

/-- Composing clips. -/
theorem tokens_composeVideo {clips : List String} (h : ∀ clip ∈ clips, IsName clip)
    (canvas : Canvas) :
    tokens (s!"final_video = moviepy.CompositeVideoClip([{commas clips}], size={sizeLiteral canvas.size})").toList =
      assignment "final_video" (.word "moviepy" :: method "CompositeVideoClip"
        (.mark '[' :: commaTokens (clips.map fun clip => [.word clip]) ++
          [.mark ']', .mark ',', .word "size", .mark '='] ++ sizeTokens canvas.size)) := by
  have hlist := scan_commas_append id (fun clip => [.word clip]) clips <| by
    intro clip hclip c rest hc
    exact (h clip hclip).scan_append_cons hc rest
  rw [List.map_id] at hlist
  simp [hlist]

/-- Composing sounds. -/
theorem tokens_composeAudio {tracks : List Track} (h : ∀ track ∈ tracks, IsName track.clip) :
    tokens (s!"final_audio = moviepy.CompositeAudioClip([{commas (tracks.map Track.text)}])").toList =
      assignment "final_audio" (.word "moviepy" :: method "CompositeAudioClip"
        (.mark '[' :: commaTokens (tracks.map Track.tokens) ++ [.mark ']'])) := by
  have hlist := scan_commas_append Track.text Track.tokens tracks <| by
    intro track htrack c rest hc
    have haudio : IsName "audio" := (isIdentifier_iff _).mp (by decide)
    cases hvideo : track.ofVideo with
    | true =>
      have htext : track.text.toList ++ c :: rest =
          track.clip.toList ++ '.' :: ("audio".toList ++ c :: rest) := by
        simp [Track.text, hvideo]
      have hpoint (cs : List Char) : scan (.word track.clip.toList.reverse) ('.' :: cs) =
          .word track.clip :: .mark '.' :: scan .idle cs := by simp
      rw [htext, (h track htrack).scan_append, hpoint, haudio.scan_append_cons hc, Track.tokens,
        if_pos hvideo]
      rfl
    | false =>
      rw [Track.text, Track.tokens, if_neg (by simp [hvideo]), if_neg (by simp [hvideo])]
      exact (h track htrack).scan_append_cons hc rest
  simp [hlist]

/-- Exporting the film. -/
theorem tokens_export (file : String) :
    tokens (s!"final_video.write_videofile({textLiteral file})").toList =
      .word "final_video" :: method "write_videofile" [literal file] := by
  simp

/-- The lines of the arguments of a text clip. -/
theorem TextArguments.map_tokens_lines (a : TextArguments) :
    a.lines.map (fun l => tokens l.text.toList) = a.arguments := by
  rw [a.lines_eq, arguments]
  cases a.background <;> simp [flat, pixelsLiteral]

/-- The first and the last line of a text clip. -/
theorem tokens_textClip (h : IsName clip) (position : Point) :
    tokens (s!"{clip} = moviepy.TextClip(").toList =
        assignment clip [.word "moviepy", .mark '.', .word "TextClip", .mark '('] ∧
      tokens (s!").with_position({pointLiteral position})").toList =
        .mark ')' :: method "with_position" (pointTokens position) := by
  simp [h.scan_append]

/-- The lines of an animation. -/
theorem tokens_animate (h : IsName clip) (effect : LetterEffect) (canvas : Canvas)
    (duration : Float) (position : Point) :
    tokens (s!"{clip} = moviepy.CompositeVideoClip(").toList =
        assignment clip [.word "moviepy", .mark '.', .word "CompositeVideoClip", .mark '('] ∧
      tokens (s!"move_letters({lettersVariable clip}, {effect.name}, {clip}),").toList =
        [.word "move_letters", .mark '(', .word (lettersVariable clip), .mark ',',
          .word effect.name, .mark ',', .word clip, .mark ')', .mark ','] ∧
      tokens (s!"size={sizeLiteral canvas.size},").toList =
        named "size" (sizeTokens canvas.size ++ [.mark ',']) ∧
      tokens (s!").subclipped(0, {numberLiteral duration}).with_position({pointLiteral position})").toList =
        .mark ')' :: method "subclipped" (.number "0" :: .mark ',' :: numberTokens duration) ++
          method "with_position" (pointTokens position) := by
  simp [h.scan_append, (isName_lettersVariable h).scan_append,
    (isName_effectName effect).scan_append]

end Scanning

/-! ## Brackets -/

/-- Words open no brackets. -/
@[simp] theorem opened_word (name : String) : (Token.word name).opened = 0 :=
  rfl

/-- Numbers open no brackets. -/
@[simp] theorem opened_number (digits : String) : (Token.number digits).opened = 0 :=
  rfl

/-- Literals open no brackets. -/
@[simp] theorem opened_literal (s : String) : (literal s).opened = 0 :=
  rfl

/-- An assignment leaves the brackets of its value open. -/
@[simp] theorem opened_assignment (name : String) (value : List Token) :
    opened (assignment name value) = opened value := by
  simp +decide [assignment, Token.opened]

/-- A named argument leaves the brackets of its value open. -/
@[simp] theorem opened_named (name : String) (value : List Token) :
    opened (named name value) = opened value := by
  simp +decide [named, Token.opened]

/-- A call leaves the brackets of its arguments open. -/
@[simp] theorem opened_method (name : String) (arguments : List Token) :
    opened (method name arguments) = opened arguments := by
  simp +decide [method, Token.opened]

/-- The code of a list starts with its first member. -/
theorem commaTokens_cons_cons (item next : List Token) (items : List (List Token)) :
    commaTokens (item :: next :: items) = item ++ .mark ',' :: commaTokens (next :: items) := by
  simp [commaTokens, List.intercalate]

/-- A list closes its brackets if its members do. -/
theorem opened_commaTokens {items : List (List Token)} (h : ∀ item ∈ items, opened item = 0) :
    opened (commaTokens items) = 0 := by
  induction items with
  | nil => rfl
  | cons item items ih =>
    obtain ⟨hitem, hitems⟩ := List.forall_mem_cons.mp h
    cases items with
    | nil => simpa [commaTokens, List.intercalate] using hitem
    | cons next items =>
      rw [commaTokens_cons_cons, opened_append, opened_cons, hitem, ih hitems]
      rfl

/-- The change of a clip closes its brackets. -/
@[simp] theorem Adjustment.opened_tokens (clip : String) (a : Adjustment) :
    opened (a.tokens clip) = 0 := by
  cases a with
  | resize r => cases r <;> simp [Adjustment.tokens, Resize.tokens]
  | position p => simp [Adjustment.tokens]

/-- Making an effect closes its brackets. -/
@[simp] theorem ClipEffect.opened_tokens (effect : ClipEffect) : opened effect.tokens = 0 := by
  have hlibrary (kind name : String) (arguments : List Token) :
      opened (libraryEffect kind name arguments) = opened arguments := by
    simp +decide [libraryEffect, Token.opened]
  cases effect <;> delta ClipEffect.tokens <;> dsimp only <;> rw [hlibrary] <;>
    simp [opened_commaTokens]

/-- A condition closes its brackets. -/
@[simp] theorem RatioTest.opened_tokens (clip : String) (canvas : Canvas) (t : RatioTest) :
    opened (t.tokens clip canvas) = 0 := by
  cases t <;> simp +decide [RatioTest.tokens, operator, ratioTokens, Token.opened]

/-- A start closes its brackets. -/
@[simp] theorem StartExpression.opened_tokens (e : StartExpression Float) :
    opened e.tokens = 0 := by
  cases e with
  | instant t => exact opened_numberTokens t
  | relative clip anchor shift =>
    rcases shift with _ | ⟨sign, t⟩
    · simp +decide [StartExpression.tokens, Token.opened]
    · cases sign <;> simp +decide [StartExpression.tokens, Token.opened]

/-- The arguments of a text clip close their brackets. -/
theorem TextArguments.opened_arguments (a : TextArguments) :
    ∀ argument ∈ a.arguments, opened argument = 0 := by
  have hcomma : (Token.mark ',').opened = 0 := by decide
  unfold arguments
  cases a.background <;> simp [hcomma]

/-! ## Lines of fixed text -/

section Fixed

variable {cs : List Char} {ls code : List CodeLine}

/-- A line of fixed text is read as its characters are. -/
theorem code_ofList {ts : List Token} (depth : ℕ) (h : tokens cs = ts) :
    Line.code ⟨depth, String.ofList cs⟩ = ⟨4 * depth, ts⟩ := by
  rw [Line.code, String.toList_ofList, h]

/-- A line of fixed text that closes its brackets is a line of code. -/
theorem Joins.cons_ofList (depth : ℕ) (h : opened (tokens cs) = 0 ∧ tokens cs ≠ [])
    (hls : Joins ls code) :
    Joins (Line.code ⟨depth, String.ofList cs⟩ :: ls)
      (Line.code ⟨depth, String.ofList cs⟩ :: code) := by
  refine (Joins.line (l := Line.code ⟨depth, String.ofList cs⟩) ?_ ?_).append hls
  · rw [code_ofList depth rfl]
    exact h.1
  · rw [code_ofList depth rfl]
    exact h.2

/-- A line of fixed text without tokens is left out. -/
theorem Joins.skip_ofList (depth : ℕ) (h : tokens cs = []) (hls : Joins ls code) :
    Joins (Line.code ⟨depth, String.ofList cs⟩ :: ls) code := by
  rw [code_ofList depth h]
  exact (Joins.empty (4 * depth)).append hls

/-- The helpers of letters are read as they stand above. -/
theorem joins_letterHelpers :
    Joins ((layout 0 letterHelpersDefinition).map Line.code) letterHelpersCode := by
  have himport : (flat "import numpy as np").code =
      ⟨0, [.word "import", .word "numpy", .word "as", .word "np"]⟩ :=
    code_ofList 0 (by decide +kernel)
  have hfrom : (flat "from scipy.ndimage import label, find_objects").code =
      ⟨0, [.word "from", .word "scipy", .mark '.', .word "ndimage", .word "import", .word "label",
        .mark ',', .word "find_objects"]⟩ :=
    code_ofList 0 (by decide +kernel)
  have hmatrix : (flat
      "rotMatrix = lambda a: np.array([[np.cos(a), np.sin(a)], [-np.sin(a), np.cos(a)]])").code =
      ⟨0, assignment "rotMatrix" (.word "lambda" :: .word "a" ::
        tokens ": np.array([[np.cos(a), np.sin(a)], [-np.sin(a), np.cos(a)]])".toList)⟩ :=
    code_ofList 0 (by rw [String.toList_ofList]; decide +kernel)
  have hfind : (flat "def find_letters(mask):").code = ⟨0, definition "find_letters" ["mask"]⟩ :=
    code_ofList 0 (by decide +kernel)
  have hmove : (flat "def move_letters(letters, funcpos, original_clip):").code =
      ⟨0, definition "move_letters" ["letters", "funcpos", "original_clip"]⟩ :=
    code_ofList 0 (by decide +kernel)
  rw [letterHelpersCode, functionCode, functionCode, ← himport, ← hfrom, ← hmatrix, ← hfind,
    ← hmove]
  refine .skip_ofList 0 ?_ <| .cons_ofList 0 ?_ <| .cons_ofList 0 ?_ <| .skip_ofList 0 ?_ <|
    .cons_ofList 0 ?_ <| .skip_ofList 0 ?_ <| .cons_ofList 0 ?_ <| .cons_ofList 1 ?_ <|
    .cons_ofList 1 ?_ <| .skip_ofList 0 ?_ <| .cons_ofList 0 ?_ <| .cons_ofList 1 ?_ <|
    .cons_ofList 1 ?_ <| .cons_ofList 2 ?_ <| .cons_ofList 2 ?_ <| .cons_ofList 2 ?_ <|
    .cons_ofList 2 ?_ <| .cons_ofList 1 ?_ <| .skip_ofList 0 ?_ .nil
  all_goals decide +kernel

/-- The motion of letters is read as it stands above. -/
theorem joins_letterMotion (effect : LetterEffect) :
    Joins ((layout 0 effect.definition).map Line.code) (letterMotionCode effect) := by
  cases effect with
  | grouping =>
    have hhead : (flat "def grouping(screenpos, i, nletters):").code =
        ⟨0, definition LetterEffect.grouping.name ["screenpos", "i", "nletters"]⟩ :=
      code_ofList 0 (by decide +kernel)
    rw [letterMotionCode, functionCode, ← hhead]
    refine .cons_ofList 0 ?_ <| .cons_ofList 1 ?_ <| .cons_ofList 1 ?_ <| .cons_ofList 1 ?_ <|
      .cons_ofList 1 ?_ <| .cons_ofList 2 ?_ <| .cons_ofList 1 ?_ <| .skip_ofList 0 ?_ .nil
    all_goals decide +kernel
  | falling =>
    have hhead : (flat "def falling(screenpos, i, nletters):").code =
        ⟨0, definition LetterEffect.falling.name ["screenpos", "i", "nletters"]⟩ :=
      code_ofList 0 (by decide +kernel)
    rw [letterMotionCode, functionCode, ← hhead]
    refine .cons_ofList 0 ?_ <| .cons_ofList 1 ?_ <| .cons_ofList 1 ?_ <| .cons_ofList 1 ?_ <|
      .skip_ofList 0 ?_ .nil
    all_goals decide +kernel

end Fixed

/-! ## The code of a script -/

/-- A line that is put below another one. -/
theorem Line.code_flat (depth : ℕ) {text : String} {ts : List Token}
    (h : tokens text.toList = ts) :
    Line.code ⟨(flat text).level + depth, (flat text).text⟩ = ⟨4 * depth, ts⟩ := by
  rw [Line.code, flat, Nat.zero_add, h]

/-- The code of adjustments. -/
theorem map_code_adjustmentLines {clip : String} (h : IsName clip) (depth : ℕ)
    (steps : List Adjustment) :
    (atDepth depth (adjustmentLines clip steps)).map Line.code =
      steps.map fun a => ⟨4 * depth, a.tokens clip⟩ := by
  rw [atDepth, adjustmentLines, List.map_map, List.map_map]
  refine List.map_congr_left fun a _ => ?_
  exact Line.code_flat depth (a.tokens_text h)

/-- The code of a choice. -/
theorem Choice.map_code_lines {clip : String} (h : IsName clip) (canvas : Canvas) (depth : ℕ)
    (choice : Choice) :
    (atDepth depth (choice.lines clip canvas)).map Line.code = choice.code clip canvas depth := by
  induction choice generalizing depth with
  | plain steps => rw [lines_plain, map_code_adjustmentLines h, Choice.code]
  | test t yes no after ihyes ihno =>
    have helse : tokens "else:".toList = [.word "else", .mark ':'] := by decide +kernel
    simp only [lines_test, deeper, List.cons_append, atDepth_cons, atDepth_append, atDepth_atDepth,
      List.map_cons, List.map_append, Nat.add_comm 1 depth, ihyes, ihno,
      map_code_adjustmentLines h, Line.code_flat depth (t.tokens_text h canvas),
      Line.code_flat depth helse, Choice.code]

/-- Every line of a choice is a line of code. -/
theorem Choice.opened_code (clip : String) (canvas : Canvas) (depth : ℕ) (choice : Choice) :
    ∀ l ∈ choice.code clip canvas depth, opened l.tokens = 0 ∧ l.tokens ≠ [] := by
  have hsteps (depth : ℕ) (steps : List Adjustment) :
      ∀ l ∈ steps.map fun a => (⟨4 * depth, a.tokens clip⟩ : CodeLine),
        opened l.tokens = 0 ∧ l.tokens ≠ [] := by
    simp only [List.forall_mem_map]
    intro a _
    exact ⟨a.opened_tokens clip, by cases a <;> simp [Adjustment.tokens, assignment]⟩
  induction choice generalizing depth with
  | plain steps => exact hsteps depth steps
  | test t yes no after ihyes ihno =>
    simp only [Choice.code, List.cons_append, List.forall_mem_cons, List.forall_mem_append]
    exact ⟨⟨t.opened_tokens clip canvas, by simp [RatioTest.tokens]⟩,
      ⟨ihyes (depth + 1), ⟨by decide, by simp⟩, ihno (depth + 1)⟩, hsteps depth after⟩

/-- A text clip is one line of code. -/
theorem joins_textClip {clip : String} (h : IsName clip) (arguments : TextArguments)
    (position : Point) :
    Joins ((Statement.textClip clip arguments position).lines.map Line.code)
      (Statement.textClip clip arguments position).code := by
  obtain ⟨hfirst, hlast⟩ := tokens_textClip h position
  have hlevel : ∀ l ∈ arguments.lines, l.level = 0 := by
    rw [arguments.lines_eq]
    cases arguments.background <;> simp [flat]
  have hbody : (deeper arguments.lines).map Line.code =
      arguments.arguments.map (CodeLine.mk 4) := by
    rw [← arguments.map_tokens_lines, deeper, atDepth, List.map_map, List.map_map]
    refine List.map_congr_left fun l hl => ?_
    simp [Line.code, hlevel l hl]
  have hhead : (flat s!"{clip} = moviepy.TextClip(").code =
      ⟨0, assignment clip [.word "moviepy", .mark '.', .word "TextClip", .mark '(']⟩ :=
    congrArg (CodeLine.mk 0) hfirst
  have htail : (flat s!").with_position({pointLiteral position})").code =
      ⟨0, .mark ')' :: method "with_position" (pointTokens position)⟩ :=
    congrArg (CodeLine.mk 0) hlast
  have hjoins := Joins.block
    ⟨0, assignment clip [.word "moviepy", .mark '.', .word "TextClip", .mark '(']⟩
    (arguments.arguments.map (CodeLine.mk 4))
    ⟨0, .mark ')' :: method "with_position" (pointTokens position)⟩
    (by simp +decide [Token.opened])
    (List.forall_mem_map.mpr fun argument hmem => arguments.opened_arguments argument hmem)
    (by simp +decide [Token.opened])
  rw [List.flatMap_map, List.flatMap_id'] at hjoins
  rw [Statement.lines_textClip, List.cons_append, List.map_cons, List.map_append, hbody,
    List.map_singleton, hhead, htail]
  simpa [Statement.code, assignment, method] using hjoins

/-- An animation is one line of code. -/
theorem joins_animate {clip : String} (h : IsName clip) (effect : LetterEffect) (canvas : Canvas)
    (duration : Float) (position : Point) :
    Joins ((Statement.animate clip effect canvas duration position).lines.map Line.code)
      (Statement.animate clip effect canvas duration position).code := by
  obtain ⟨hfirst, hmove, hsize, hlast⟩ := tokens_animate h effect canvas duration position
  have hlines : (Statement.animate clip effect canvas duration position).lines.map Line.code =
      [⟨0, assignment clip [.word "moviepy", .mark '.', .word "CompositeVideoClip", .mark '(']⟩,
        ⟨4, [.word "move_letters", .mark '(', .word (lettersVariable clip), .mark ',',
          .word effect.name, .mark ',', .word clip, .mark ')', .mark ',']⟩,
        ⟨4, named "size" (sizeTokens canvas.size ++ [.mark ','])⟩,
        ⟨0, .mark ')' :: method "subclipped" (.number "0" :: .mark ',' :: numberTokens duration) ++
          method "with_position" (pointTokens position)⟩] := by
    rw [← hfirst, ← hmove, ← hsize, ← hlast]
    rfl
  rw [hlines]
  have hjoins := Joins.block
    ⟨0, assignment clip [.word "moviepy", .mark '.', .word "CompositeVideoClip", .mark '(']⟩
    [⟨4, [.word "move_letters", .mark '(', .word (lettersVariable clip), .mark ',',
        .word effect.name, .mark ',', .word clip, .mark ')', .mark ',']⟩,
      ⟨4, named "size" (sizeTokens canvas.size ++ [.mark ','])⟩]
    ⟨0, .mark ')' :: method "subclipped" (.number "0" :: .mark ',' :: numberTokens duration) ++
      method "with_position" (pointTokens position)⟩
    (by simp +decide [Token.opened]) (by simp +decide [Token.opened])
    (by simp +decide [Token.opened])
  simpa [Statement.code, assignment, method, named] using hjoins

/-- The lines of a well-formed statement are read as its code. -/
theorem Statement.WellFormed.joins {s : Statement LetterEffect} (h : s.WellFormed) :
    Joins (s.lines.map Line.code) s.code := by
  have hline {text : String} {ts : List Token} (hts : tokens text.toList = ts)
      (hopened : opened ts = 0) (hne : ts ≠ []) :
      Joins ([flat text].map Line.code) [⟨0, ts⟩] := by
    have hcode : (flat text).code = ⟨0, ts⟩ := congrArg (CodeLine.mk 0) hts
    rw [List.map_singleton, hcode]
    exact Joins.line hopened hne
  have hassign {text name : String} {ts : List Token}
      (hts : tokens text.toList = assignment name ts) (hopened : opened ts = 0) :
      Joins ([flat text].map Line.code) [⟨0, assignment name ts⟩] :=
    hline hts (by rw [opened_assignment, hopened]) (by simp [assignment])
  cases s with
  | importLibrary => exact hline (by decide +kernel) (by decide) (by simp)
  | blank => exact Joins.empty 0
  | comment text =>
    have hcode : (flat s!"# {text}").code = ⟨0, []⟩ := by
      refine congrArg (CodeLine.mk 0) ?_
      simp [flat, toString_text]
    have hlines : (comment text).lines.map Line.code = [⟨0, []⟩] := congrArg (fun l => [l]) hcode
    rw [hlines]
    exact Joins.empty 0
  | loadVideo clip path => exact hassign (tokens_load h path).1 (by simp)
  | loadAudio clip path => exact hassign (tokens_load h path).2 (by simp)
  | cut clip source start stop =>
    exact hassign (tokens_cut h.1 h.2 _ _) (by simp +decide [Token.opened])
  | adjust clip a =>
    exact hline (a.tokens_text h) (by simp) (by cases a <;> simp [Adjustment.tokens, assignment])
  | choose clip canvas choice =>
    have hcode := choice.map_code_lines h.1 canvas 0
    rw [atDepth_zero] at hcode
    have hopened := choice.opened_code clip canvas 0
    have hjoins := Joins.filter fun l hl => (hopened l hl).1
    rw [List.filter_eq_self.mpr fun l hl => by simpa using (hopened l hl).2] at hjoins
    exact hcode ▸ hjoins
  | prepare effect => exact hassign (tokens_prepare effect) (by simp)
  | apply clip effect => exact hassign (tokens_apply h effect) (by simp)
  | opacity clip value => exact hassign (tokens_opacity h value) (by simp)
  | textClip clip arguments position => exact joins_textClip h arguments position
  | letterHelpers => exact joins_letterHelpers
  | letterMotion effect => exact joins_letterMotion effect
  | findLetters clip => exact hassign (tokens_findLetters h) (by simp +decide [Token.opened])
  | animate clip effect canvas duration position =>
    exact joins_animate h effect canvas duration position
  | entry s =>
    exact hassign (tokens_entry h.1 h.2.1 h.2.2) (by cases s.start <;> cases s.duration <;> simp)
  | composeVideo clips canvas =>
    exact hassign (tokens_composeVideo h canvas)
      (by simp +decide [opened_commaTokens, Token.opened])
  | composeAudio tracks =>
    have htracks : opened (commaTokens (tracks.map Track.tokens)) = 0 := by
      refine opened_commaTokens (List.forall_mem_map.mpr fun t _ => ?_)
      unfold Track.tokens
      split <;> rfl
    exact hassign (tokens_composeAudio h) (by simp +decide [htracks, Token.opened])
  | attachAudio => exact hline (by decide +kernel) (by decide) (by simp)
  | exportFilm name => exact hline (tokens_export _) (by simp) (by simp)

/-- A sound line is read with its depth, unless it is empty. -/
theorem Line.Sound.read_chars {l : Line} (h : l.Sound) :
    (CodeLine.read l.chars).tokens = l.code.tokens ∧
      (l.code.tokens ≠ [] → CodeLine.read l.chars = l.code) := by
  by_cases hempty : l.text = ""
  · have htokens : l.code.tokens = [] := by rw [Line.code, hempty]; rfl
    have hchars : l.chars = [] := (Line.chars_eq_nil_iff l).mpr hempty
    rw [hchars, htokens]
    exact ⟨rfl, fun hne => absurd rfl hne⟩
  · have htokens : tokens l.chars = tokens l.text.toList := by simp [Line.chars, hempty]
    have hread : CodeLine.read l.chars = l.code := by
      rw [CodeLine.read, (h.indent_chars hempty).1, htokens, Line.code]
    rw [hread]
    exact ⟨rfl, fun _ => rfl⟩

/-- Lines are read with their depths. Where there are no tokens, the depth is not looked at. -/
theorem joined_map_read {ls : List Line} (h : ∀ l ∈ ls, l.Sound) (first : Option CodeLine) :
    joined first (ls.map fun l => .read l.chars) = joined first (ls.map Line.code) := by
  induction ls generalizing first with
  | nil => rfl
  | cons l ls ih =>
    obtain ⟨hl, hls⟩ := List.forall_mem_cons.mp h
    obtain ⟨htokens, hread⟩ := hl.read_chars
    by_cases hne : l.code.tokens = []
    · cases first with
      | none => simp [joined, CodeLine.after, htokens, hne, ih hls]
      | some first =>
        have hsame : (CodeLine.read l.chars).after (some first) = l.code.after (some first) := by
          simp [CodeLine.after, htokens]
        rw [List.map_cons, List.map_cons, joined, joined, hsame, ih hls, ih hls]
    · rw [List.map_cons, List.map_cons, joined, joined, hread hne, ih hls, ih hls]

/-- The code of the text of well-formed statements is the code of the statements. -/
theorem codeOf_textOf {ss : List (Statement LetterEffect)} (h : ∀ s ∈ ss, s.WellFormed) :
    codeOf (textOf ss) = ss.flatMap Statement.code := by
  have hsound : ∀ l ∈ ss.flatMap Statement.lines ++ [flat ""], l.Sound := by
    rw [List.forall_mem_append, List.forall_mem_flatMap, List.forall_mem_singleton]
    exact ⟨fun s hs => (h s hs).blocks.sound, by decide, by simp [flat]⟩
  have hlines : (linesOf (textOf ss)).map CodeLine.read =
      (ss.flatMap Statement.lines ++ [flat ""]).map fun l => .read l.chars := by
    rw [linesOf_textOf fun s hs => (h s hs).blocks.sound, List.map_append, List.map_append,
      List.map_map]
    rfl
  have hjoins := Joins.flatMap (f := fun s => s.lines.map Line.code) (g := Statement.code)
    fun s hs => (h s hs).joins
  rw [codeOf, hlines, joined_map_read hsound, List.map_append, List.map_flatMap, hjoins]
  exact List.append_nil _

end Montage.Script
