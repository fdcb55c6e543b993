import Mathlib.Data.List.Chain
import Montage.Proofs.Blocks
import Montage.Proofs.Scope

/-!
# The layout of scripts

The statements of a usable project are well-formed: the names of its elements and the variables of
its entries are names, and comments are the program's own. So the lines of its script form blocks.
Read from the text alone, this says that lines are indented in steps of four blanks, that exactly
the lines below a colon or an opening bracket are deeper than the line before, by one step, and that
the script starts and ends without indentation.
-/

namespace Montage

namespace Script

/-! ## The statements of a usable project -/

section Statements

variable {clip : String}

/-- Applying an effect makes well-formed statements. -/
theorem wellFormed_effectStatements (h : IsName clip) {title : String}
    (htitle : (Statement.comment title).WellFormed) (effect : ClipEffect) :
    ∀ s ∈ effectStatements clip title effect, s.WellFormed := by
  simp only [effectStatements, List.forall_mem_cons]
  exact ⟨htitle, trivial, h, by simp⟩

/-- The options of a video make well-formed statements. -/
theorem wellFormed_videoOptionStatements (h : IsName clip) (canvas : Canvas)
    (options : List VideoOption) (o : VideoOption) :
    ∀ s ∈ videoOptionStatements clip canvas options o, s.WellFormed := by
  cases o with
  | transition t =>
    cases t <;> exact wellFormed_effectStatements h (whole_ofList (by decide)) _
  | opacity x | resolution x | size x | position x =>
    simp only [videoOptionStatements, List.forall_mem_cons]
    exact ⟨whole_ofList (by decide), h, by simp⟩
  | _ => exact wellFormed_effectStatements h (whole_ofList (by decide)) _

/-- The options of a sound make well-formed statements. -/
theorem wellFormed_audioOptionStatements (h : IsName clip) (o : AudioOption) :
    ∀ s ∈ audioOptionStatements clip o, s.WellFormed := by
  cases o <;> exact wellFormed_effectStatements h (whole_ofList (by decide)) _

/-- Fitting a video makes well-formed statements, also when its frame is not known. -/
theorem wellFormed_fitStatements (h : IsName clip) (canvas : Canvas) (frame : Option PixelSize) :
    ∀ s ∈ fitStatements clip canvas frame, s.WellFormed := by
  have htitle : (Statement.comment "Resize the video clip").WellFormed := whole_ofList (by decide)
  cases frame with
  | none =>
    have hchoice : (fitChoice canvas).Filled := by simp [fitChoice, Choice.Filled]
    simp only [fitStatements, List.forall_mem_cons]
    exact ⟨htitle, ⟨h, hchoice⟩, by simp⟩
  | some size =>
    simp only [fitStatements, List.forall_mem_cons, List.forall_mem_map]
    exact ⟨htitle, fun _ _ => h⟩

/-- Finishing a video makes well-formed statements. -/
theorem wellFormed_finishVideo {e : Element} (h : IsName e.name) (p : Project) (canvas : Canvas)
    (options : List VideoOption) : ∀ s ∈ finishVideo p canvas e options, s.WellFormed := by
  simp only [finishVideo, List.forall_mem_append, List.forall_mem_flatMap]
  refine ⟨⟨wellFormed_fitStatements h canvas _, fun o _ => ?_⟩, ?_⟩
  · exact wellFormed_videoOptionStatements h canvas options o
  · simp [Statement.WellFormed]

/-- The clip of a video is made by well-formed statements. -/
theorem wellFormed_videoStatements {e : Element} (h : IsName e.name)
    (hsource : ∀ source, e.source? = some source → IsName source) (p : Project) (canvas : Canvas) :
    ∀ s ∈ videoStatements p canvas e, s.WellFormed := by
  have hfinish := wellFormed_finishVideo h p canvas
  cases e with
  | video v =>
    simp only [videoStatements, List.forall_mem_append, List.forall_mem_cons]
    exact ⟨⟨whole_ofList (by decide), h, by simp⟩, hfinish v.options⟩
  | videoExtract x =>
    simp only [videoStatements, List.forall_mem_append, List.forall_mem_cons]
    exact ⟨⟨whole_ofList (by decide), ⟨h, hsource x.source rfl⟩, by simp⟩, hfinish x.options⟩
  | _ => simp [videoStatements]

/-- The clip of a sound is made by well-formed statements. -/
theorem wellFormed_audioStatements {e : Element} (h : IsName e.name)
    (hsource : ∀ source, e.source? = some source → IsName source) :
    ∀ s ∈ audioStatements e, s.WellFormed := by
  cases e with
  | audio a =>
    simp only [audioStatements, List.forall_mem_append, List.forall_mem_cons,
      List.forall_mem_flatMap]
    exact ⟨⟨⟨whole_ofList (by decide), h, by simp⟩,
      fun o _ => wellFormed_audioOptionStatements h o⟩, trivial, by simp⟩
  | audioExtract x =>
    simp only [audioStatements, List.forall_mem_append, List.forall_mem_cons,
      List.forall_mem_flatMap]
    exact ⟨⟨⟨whole_ofList (by decide), ⟨h, hsource x.source rfl⟩, by simp⟩,
      fun o _ => wellFormed_audioOptionStatements h o⟩, trivial, by simp⟩
  | _ => simp [audioStatements]

/-- An animation is made by well-formed statements. -/
theorem wellFormed_animationStatements (h : IsName clip) (effect : LetterEffect) (canvas : Canvas)
    (duration : Float) (position : Point) :
    ∀ s ∈ animationStatements clip effect canvas duration position, s.WellFormed := by
  have htitle : Whole s!"Animate the letters of {clip}" := (begun_ofList (by decide)).whole h.whole
  simp only [animationStatements, List.forall_mem_cons]
  exact ⟨trivial, trivial, htitle, h, h, by simp⟩

/-- The clip of a text is made by well-formed statements. -/
theorem wellFormed_textStatements {e : Element} (h : IsName e.name) (settings : ScriptSettings)
    (effects : EffectRegistry LetterEffect) (duration : Float) :
    ∀ s ∈ textStatements settings effects duration e, s.WellFormed := by
  unfold textStatements
  cases htext : e.textBlock? with
  | none => simp
  | some t =>
    have hname : t.name = e.name := by
      cases e <;> simp only [Element.textBlock?, Option.some.injEq, reduceCtorEq] at htext <;>
        subst htext <;> rfl
    rw [← hname] at h
    simp only [List.forall_mem_append, List.forall_mem_cons]
    refine ⟨⟨⟨?_, h, by simp⟩, ?_⟩, trivial, by simp⟩
    · split <;> exact whole_ofList (by decide)
    · split
      · exact wellFormed_animationStatements h _ _ _ _
      · simp

/-- The composition is made of well-formed statements if its entries have variables. -/
theorem wellFormed_compositionStatements {entries : List (Entry × Element)}
    (h : ∀ x ∈ entries, IsName (entryVariable x.1.name)) (name : String) (canvas : Canvas) :
    ∀ s ∈ compositionStatements name canvas entries, s.WellFormed := by
  have hvideo : (Statement.composeVideo (visualClips entries) canvas).WellFormed := by
    intro clip hclip
    obtain ⟨x, hx, rfl⟩ := exists_of_mem_visualClips hclip
    exact h x hx
  have haudio : (Statement.composeAudio (audibleTracks entries)).WellFormed := by
    intro track htrack
    obtain ⟨x, hx, hclip⟩ := exists_of_mem_audibleTracks htrack
    rw [hclip]
    exact h x hx
  simp only [compositionStatements, List.forall_mem_append, List.forall_mem_cons]
  refine ⟨⟨⟨whole_ofList (by decide), hvideo, trivial, by simp⟩, ?_⟩,
    whole_ofList (by decide), trivial, by simp⟩
  split
  · simp only [List.forall_mem_cons]
    exact ⟨whole_ofList (by decide), haudio, trivial, whole_ofList (by decide), trivial, trivial,
      by simp⟩
  · simp

end Statements

end Script

open Script

namespace Project.ResolvesTo

variable {p : Project} {r : Resolved}

/-- The variables of entries are names. -/
theorem isName_entryVariable (h : p.Usable) {entry : Entry} (hentry : entry ∈ p.timeline) :
    IsName (entryVariable entry.name) :=
  ((isVariable_iff _).mp (h.names.wellNamed entry hentry).isVariable_entryVariable).1

/-- All clips of a usable project are made by well-formed statements. -/
theorem wellFormed_clipStatements (hr : p.ResolvesTo r) (h : p.Usable) (settings : ScriptSettings)
    (effects : EffectRegistry LetterEffect) :
    ∀ s ∈ r.clipStatements settings effects, s.WellFormed := by
  have hname : ∀ e ∈ r.project.elements, IsName e.name := fun e he =>
    ((isVariable_iff _).mp ((hr.names h).isVariable e he)).1
  have hsource : ∀ e ∈ r.project.elements, ∀ source, e.source? = some source → IsName source := by
    intro e he source hsource
    obtain ⟨before, after, helements⟩ := List.append_of_mem he
    obtain ⟨x, hx, rfl, -⟩ := (hr.references h).source before e after source helements hsource
    exact hname x (by simp [helements, hx])
  simp only [Resolved.clipStatements, List.forall_mem_append, List.forall_mem_flatMap,
    List.mem_filter, and_imp]
  refine ⟨⟨fun e he _ => ?_, fun e he _ => ?_⟩, fun e he _ => ?_⟩
  · exact wellFormed_videoStatements (hname e he) (hsource e he) _ _
  · exact wellFormed_textStatements (hname e he) _ _ _
  · exact wellFormed_audioStatements (hname e he) (hsource e he)

/-- The entries of a usable project are put on the timeline by well-formed statements. -/
theorem wellFormed_entry (hr : p.ResolvesTo r) (h : p.Usable) {defaultText : Float}
    {entries : List (EntryStatement Float)} (hentries : r.entryStatements defaultText = .ok entries)
    {s : EntryStatement Float} (hs : s ∈ entries) : (Statement.entry s).WellFormed := by
  obtain ⟨i, hi⟩ := List.mem_iff_getElem?.mp hs
  obtain ⟨entry, e, hentry, he, -, rfl⟩ := hr.getElem?_entryStatements hentries hi
  refine ⟨isName_entryVariable h (List.mem_of_getElem? hentry), ?_, ?_⟩
  · have hvariable := (isVariable_iff _).mp (h.names.isVariable e he)
    simpa [entryStatement] using hvariable.1
  · intro start hstart
    cases start with
    | instant t => trivial
    | relative clip anchor shift =>
      have hreference : Reference.entry clip ∈
          ((startExpression? (T := Float) p.timeline i entry.placement).map
            StartExpression.references).getD [] := by
        have hsome : startExpression? (T := Float) p.timeline i entry.placement =
            some (.relative clip anchor shift) := hstart
        simp [hsome, StartExpression.references]
      obtain ⟨j, -, before, hbefore, hclip⟩ := h.entry_of_mem_start hentry hreference
      rw [Reference.entry.inj hclip]
      exact isName_entryVariable h (List.mem_of_getElem? hbefore)

/-- The script of a usable project is made of well-formed statements. -/
theorem wellFormed_statements (hr : p.ResolvesTo r) (h : p.Usable) {settings : ScriptSettings}
    {effects : EffectRegistry LetterEffect} {ss : List (Statement LetterEffect)}
    (hss : r.statements settings effects = .ok ss) : ∀ s ∈ ss, s.WellFormed := by
  obtain ⟨entries, layered, hentries, hlayered, hstatements⟩ :=
    hr.exists_statements settings effects
  obtain rfl := Except.ok.inj (hstatements.symm.trans hss)
  simp only [List.forall_mem_append, List.forall_mem_cons, List.forall_mem_map]
  refine ⟨⟨⟨⟨⟨trivial, trivial, by simp⟩, hr.wellFormed_clipStatements h settings effects⟩,
    fun s hs => hr.wellFormed_entry h hentries hs⟩, trivial, by simp⟩, ?_⟩
  apply wellFormed_compositionStatements
  intro x hx
  exact isName_entryVariable h (hr.mem_timeline_of_mem_layered hlayered hx)

/-- The last statement of a script exports the film. -/
theorem getLast?_statements (hr : p.ResolvesTo r) {settings : ScriptSettings}
    {effects : EffectRegistry LetterEffect} {ss : List (Statement LetterEffect)}
    (hss : r.statements settings effects = .ok ss) :
    ss.getLast? = some (.exportFilm r.project.outputName) := by
  obtain ⟨entries, layered, -, -, hstatements⟩ := hr.exists_statements settings effects
  obtain rfl := Except.ok.inj (hstatements.symm.trans hss)
  simp only [compositionStatements, List.getLast?_append]
  rfl

end Project.ResolvesTo

namespace Script

/-! ## The layout of a text -/

/-- Lines that are laid out in blocks, as far as the text tells. -/
structure LaidOut (lines : List (List Char)) : Prop where
  printed : ∀ line ∈ lines, ∀ c ∈ line, isControl c = false
  /-- A line that is not empty has its blanks in steps of four, and something behind them. -/
  levels : ∀ line ∈ lines, line ≠ [] → 4 ∣ indent line ∧ indent line < line.length
  /-- Of two lines without another one between them, except empty ones, the lower is deeper exactly
  when the upper opens a block, and then by one step. -/
  nested : (lines.filter (· ≠ [])).IsChain fun upper lower =>
    (indent upper < indent lower ↔ opensBlock upper = true) ∧
      (indent upper < indent lower → indent lower = indent upper + 4)
  first : ∃ line ∈ (lines.filter (· ≠ [])).head?, indent line = 0
  last : ∃ line ∈ (lines.filter (· ≠ [])).getLast?, indent line = 0

/-- The lines of a text that are not empty are the lines that are shown. -/
theorem filter_chars (ls : List Line) :
    (ls.map Line.chars ++ [[]]).filter (· ≠ []) = (shown ls).map Line.chars := by
  simp [shown, List.filter_map, Function.comp_def]

/-- Whole blocks at depth zero are laid out in blocks if their last line is at depth zero, too. -/
theorem Blocks.laidOut {ls : List Line} (h : Blocks 0 ls)
    (hlast : ∃ l ∈ (shown ls).getLast?, l.level = 0) : LaidOut (ls.map Line.chars ++ [[]]) := by
  have hshown : ∀ l ∈ shown ls, l.Sound ∧ l.text ≠ "" := by
    intro l hl
    obtain ⟨hmem, hne⟩ := List.mem_filter.mp hl
    exact ⟨h.sound l hmem, by simpa using hne⟩
  have hindent : ∀ l ∈ shown ls, indent l.chars = 4 * l.level := fun l hl =>
    ((hshown l hl).1.indent_chars (hshown l hl).2).1
  refine ⟨?_, ?_, ?_, ?_, ?_⟩
  · simp only [List.forall_mem_append, List.forall_mem_map, List.forall_mem_cons]
    exact ⟨fun l hl => (h.sound l hl).isControl, by simp, by simp⟩
  · simp only [List.forall_mem_append, List.forall_mem_map, List.forall_mem_cons]
    refine ⟨fun l hl hne => ?_, by simp, by simp⟩
    obtain ⟨hlevel, hlength⟩ := (h.sound l hl).indent_chars (by simpa using hne)
    exact ⟨⟨l.level, hlevel⟩, hlength⟩
  · rw [filter_chars, List.isChain_map]
    refine h.chain.imp_of_mem_imp fun upper lower hupper hlower hbelow => ?_
    rw [hindent upper hupper, hindent lower hlower, Line.opensBlock_chars (hshown upper hupper).2]
    unfold Line.Below Line.opens at hbelow
    cases hopens : opensBlock upper.text.toList with
    | true =>
      rw [hopens, if_pos rfl] at hbelow
      simp only [iff_true]
      omega
    | false =>
      rw [hopens, if_neg Bool.false_ne_true] at hbelow
      simp only [Bool.false_eq_true, iff_false]
      omega
  · obtain ⟨l, hl, hlevel⟩ := hlast
    obtain ⟨first, hfirst⟩ : ∃ first, (shown ls).head? = some first := by
      cases hlines : shown ls with
      | nil => simp [hlines] at hl
      | cons first rest => exact ⟨first, rfl⟩
    refine ⟨first.chars, ?_, ?_⟩
    · rw [filter_chars, List.head?_map, hfirst]
      rfl
    · rw [hindent first (List.mem_of_head? hfirst), h.first first hfirst]
  · obtain ⟨l, hl, hlevel⟩ := hlast
    refine ⟨l.chars, ?_, ?_⟩
    · rw [filter_chars, List.getLast?_map, hl]
      rfl
    · rw [hindent l (List.mem_of_getLast? hl), hlevel]

/-- The text of well-formed statements, of which the last one exports a film, is laid out in
blocks. -/
theorem laidOut_textOf_written {ss : List (Statement LetterEffect)}
    (h : ∀ s ∈ ss, s.WellFormed) {name : String}
    (hlast : ss.getLast? = some (.exportFilm name)) :
    LaidOut (linesOf (textOf (written [] ss))) := by
  have hwritten : ∀ s ∈ written [] ss, s.WellFormed := fun s hs =>
    h s ((written_sublist [] ss).subset hs)
  rw [linesOf_textOf fun s hs => (hwritten s hs).blocks.sound]
  refine (Blocks.flatMap fun s hs => (hwritten s hs).blocks).laidOut ?_
  obtain ⟨before, rfl⟩ := List.getLast?_eq_some_iff.mp hlast
  rw [written_append (List.forall_mem_singleton.mpr rfl), List.flatMap_append, shown_append]
  have hexport : Begun s!"final_video.write_videofile({textLiteral (filmFile name)})" :=
    (begun_ofList (by decide)).append (plain_textLiteral _) |>.words (by decide)
  refine ⟨flat s!"final_video.write_videofile({textLiteral (filmFile name)})", ?_, rfl⟩
  have hlines : (Statement.exportFilm name).lines =
      [flat s!"final_video.write_videofile({textLiteral (filmFile name)})"] := rfl
  rw [List.flatMap_singleton, hlines, flat, shown_cons hexport]
  simp [shown]

end Script

end Montage
