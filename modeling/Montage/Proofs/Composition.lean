import Mathlib.Data.List.Sort
import Mathlib.Data.List.Sigma
import Montage.Proofs.Assignments
import Montage.Proofs.Layers
import Montage.Proofs.Resolution
import Montage.Proofs.Written

/-!
# The composition follows the layers

The clips of a film are composed in the order in which the indices of their entries are sorted by
layer. Sorting is stable, so entries of one layer stay in the order of the timeline, and it only
permutes, so no entry is lost or composed twice. One pass over the sorted entries collects what is
seen and what is heard, and nothing before it composes anything. Layers follow relations, so an
entry above another one comes after it.
-/

namespace Montage

open Script

/-! ## Sorting by layer -/

/-- The sorted indices are all indices. -/
theorem compositionOrder_perm (layers : List ℤ) :
    (compositionOrder layers).Perm (List.range layers.length) := by
  have hperm := (layers.zipIdx.mergeSort_perm fun a b => a.1 ≤ b.1).map Prod.snd
  rwa [List.zipIdx_map_snd, ← List.range_eq_range'] at hperm

/-- Layers are sorted with their indices, and equal layers stay in the order of their indices. -/
theorem pairwise_mergeSort_zipIdx (layers : List ℤ) :
    (layers.zipIdx.mergeSort fun a b => a.1 ≤ b.1).Pairwise
      fun a b => a.1 < b.1 ∨ a.1 = b.1 ∧ a.2 < b.2 := by
  -- Stability: sorting gives what sorting by layer and place gives, and a place is an index here.
  have htrans : ∀ a b c : ℤ × ℕ, decide (a.1 ≤ b.1) = true → decide (b.1 ≤ c.1) = true →
      decide (a.1 ≤ c.1) = true := by
    intro a b c hab hbc
    exact decide_eq_true ((of_decide_eq_true hab).trans (of_decide_eq_true hbc))
  have htotal : ∀ a b : ℤ × ℕ, (decide (a.1 ≤ b.1) || decide (b.1 ≤ a.1)) = true := by
    intro a b
    simpa using le_total a.1 b.1
  have hle := List.pairwise_mergeSort (List.zipIdxLE_trans htrans) (List.zipIdxLE_total htotal)
    layers.zipIdx.zipIdx
  have hplace : ∀ x ∈ layers.zipIdx.zipIdx.mergeSort (List.zipIdxLE fun a b => a.1 ≤ b.1),
      x.2 = x.1.2 := by
    intro x hx
    rw [List.mem_mergeSort, List.mem_zipIdx_iff_getElem?, List.getElem?_zipIdx] at hx
    obtain ⟨l, -, hl⟩ := Option.map_eq_some_iff.mp hx
    simp [← hl]
  have hnodup : (layers.zipIdx.mergeSort fun a b => a.1 ≤ b.1).Nodup :=
    (List.mergeSort_perm _ _).nodup_iff.mpr (List.Nodup.of_map _ (List.nodup_zipIdx_map_snd layers))
  rw [← List.mergeSort_zipIdx] at hnodup ⊢
  rw [List.Nodup, List.pairwise_map] at hnodup
  rw [List.pairwise_map]
  refine (hle.and hnodup).imp_of_mem ?_
  intro a b ha hb hab
  obtain ⟨hle, hne⟩ := hab
  have hsame : a.1.1 = b.1.1 → a.1.2 ≠ b.1.2 := fun hlayer hindex => hne (Prod.ext hlayer hindex)
  simp only [List.zipIdxLE, hplace a ha, hplace b hb] at hle
  grind

/-- Indices are sorted by layer, and those of one layer stay in order. -/
theorem compositionOrder_pairwise (layers : List ℤ) :
    (compositionOrder layers).Pairwise fun i j => ∃ k l, layers[i]? = some k ∧
      layers[j]? = some l ∧ (k < l ∨ k = l ∧ i < j) := by
  rw [compositionOrder, List.pairwise_map]
  refine (pairwise_mergeSort_zipIdx layers).imp_of_mem ?_
  intro a b ha hb hab
  rw [List.mem_mergeSort, List.mem_zipIdx_iff_getElem?] at ha hb
  exact ⟨a.1, b.1, ha, hb, hab⟩

/-- Looking up every index of a list gives its members with their indices. -/
theorem filterMap_range_getElem? {α : Type} (xs : List α) :
    (List.range xs.length).filterMap (fun i => xs[i]?.map (·, i)) = xs.zipIdx := by
  rw [List.range_eq_range', ← List.zipIdx_map_snd 0 xs, List.filterMap_map]
  have hsome : ∀ x ∈ xs.zipIdx, ((fun i => xs[i]?.map (·, i)) ∘ Prod.snd) x = some x := by
    intro x hx
    simp [List.mem_zipIdx_iff_getElem?.mp hx]
  rw [List.filterMap_congr hsome, List.filterMap_some]

namespace Project

/-- The category of the element that an entry shows. -/
def categoryOf? (p : Project) (entry : Entry) : Option Category :=
  (p.element? entry.element).map Element.category

/-- Whether an entry shows a video or a text. -/
def isSeen (p : Project) (entry : Entry) : Bool :=
  p.categoryOf? entry = some .video || p.categoryOf? entry = some .textual

/-- What is heard of an entry: a sound itself, and the sound of a video. -/
def heard? (p : Project) (entry : Entry) : Option String :=
  match p.categoryOf? entry with
  | some .video => some (entryVariable entry.name ++ ".audio")
  | some .audio => some (entryVariable entry.name)
  | _ => none

/-- All entries with their indices, each one once, from the lowest layer to the highest; those of
one layer are in the order of the timeline. -/
structure LayerOrder (p : Project) (order : List (Entry × ℕ)) : Prop where
  perm : order.Perm p.timeline.zipIdx
  sorted : order.Pairwise fun a b => ∃ k l, p.layerOf a.1 = .ok k ∧ p.layerOf b.1 = .ok l ∧
    (k < l ∨ k = l ∧ a.2 < b.2)

variable {p : Project} {r : Resolved}

/-- Resolution finds the layer of every entry. -/
theorem ResolvesTo.exists_layerOf (hr : p.ResolvesTo r) {i : ℕ} {entry : Entry}
    (hentry : p.timeline[i]? = some entry) :
    ∃ l, r.layers[i]? = some l ∧ p.layerOf entry = .ok l := by
  obtain ⟨-, -, hlayers, -⟩ := resolve_eq_ok hr.resolve
  exact getElem?_of_mapM_eq_ok _ _ _ hlayers i entry hentry

/-- Entries are composed in the order of layers. -/
theorem ResolvesTo.exists_layerOrder (hr : p.ResolvesTo r) :
    ∃ order, p.LayerOrder order ∧ r.byLayer = order.map Prod.fst := by
  obtain ⟨-, -, hlayers, -⟩ := resolve_eq_ok hr.resolve
  have hlength : r.layers.length = p.timeline.length :=
    ((mapM_eq_ok_iff _ _ _).mp hlayers).length_eq.symm
  refine ⟨(compositionOrder r.layers).filterMap fun i => p.timeline[i]?.map (·, i),
    ⟨?_, ?_⟩, ?_⟩
  · rw [← filterMap_range_getElem?, ← hlength]
    exact (compositionOrder_perm r.layers).filterMap _
  · rw [List.pairwise_filterMap]
    refine (compositionOrder_pairwise r.layers).imp ?_
    intro i j hij a ha b hb
    obtain ⟨k, l, hk, hl, hlt⟩ := hij
    obtain ⟨entry, hentry, rfl⟩ := Option.map_eq_some_iff.mp ha
    obtain ⟨other, hother, rfl⟩ := Option.map_eq_some_iff.mp hb
    obtain ⟨k', hk', hlayer⟩ := hr.exists_layerOf hentry
    obtain ⟨l', hl', hlayer'⟩ := hr.exists_layerOf hother
    obtain rfl := Option.some.inj (hk.symm.trans hk')
    obtain rfl := Option.some.inj (hl.symm.trans hl')
    exact ⟨k, l, hlayer, hlayer', hlt⟩
  · rw [Resolved.byLayer, hr.timeline, List.map_filterMap]
    simp [Function.comp_def]

/-- There is only one such order. -/
theorem LayerOrder.unique {order order' : List (Entry × ℕ)} (h : p.LayerOrder order)
    (h' : p.LayerOrder order') : order = order' := by
  refine (h.perm.trans h'.perm.symm).eq_of_pairwise ?_ h.sorted h'.sorted
  rintro a b - - ⟨k, l, hk, hl, hlt⟩ ⟨l', k', hl', hk', hlt'⟩
  obtain rfl := Except.ok.inj (hl.symm.trans hl')
  obtain rfl := Except.ok.inj (hk.symm.trans hk')
  omega

/-- Of the entries that are chosen, one on a lower layer comes before one on a higher layer. -/
theorem LayerOrder.sublist_of_lt {order : List (Entry × ℕ)} (h : p.LayerOrder order)
    {chosen : Entry × ℕ → Bool} {x y : Entry × ℕ} (hx : x ∈ order.filter chosen)
    (hy : y ∈ order.filter chosen) {k l : ℤ} (hk : p.layerOf x.1 = .ok k)
    (hl : p.layerOf y.1 = .ok l) (hlt : k < l) : [x, y].Sublist (order.filter chosen) := by
  obtain ⟨before, after, hsplit⟩ := List.append_of_mem hx
  rw [hsplit, List.mem_append, List.mem_cons] at hy
  rw [hsplit]
  rcases hy with hy | rfl | hy
  · -- The other order would contradict the sorting.
    have hpair : [y, x].Sublist (order.filter chosen) := by
      rw [hsplit]
      exact (List.singleton_sublist.mpr hy).append (List.singleton_sublist.mpr List.mem_cons_self)
    obtain ⟨l', k', hl', hk', hle⟩ :=
      List.pairwise_iff_forall_sublist.mp h.sorted (hpair.trans List.filter_sublist)
    obtain rfl := Except.ok.inj (hl.symm.trans hl')
    obtain rfl := Except.ok.inj (hk.symm.trans hk')
    omega
  · obtain rfl := Except.ok.inj (hk.symm.trans hl)
    exact absurd hlt (lt_irrefl _)
  · have hpair : [x, y].Sublist (x :: after) := (List.singleton_sublist.mpr hy).cons_cons x
    exact hpair.trans (List.sublist_append_right _ _)

/-- An entry of the timeline is in the order of layers. -/
theorem LayerOrder.mem {order : List (Entry × ℕ)} (h : p.LayerOrder order) {i : ℕ} {entry : Entry}
    (hentry : p.timeline[i]? = some entry) : (entry, i) ∈ order :=
  h.perm.mem_iff.mpr (List.mem_zipIdx_iff_getElem?.mpr hentry)

/-- An entry is composed after the entry that it is above, and before the entry that it is under, if
both are chosen. -/
theorem LayerOrder.sublist_of_relation (hr : p.ResolvesTo r) {order : List (Entry × ℕ)}
    (h : p.LayerOrder order) {chosen : Entry → Bool} {i j : ℕ} {entry other : Entry}
    {target : String} (hentry : p.timeline[i]? = some entry) (hfirst : p.FirstNamed target j)
    (hother : p.timeline[j]? = some other) (hchosen : chosen entry = true)
    (hchosen' : chosen other = true) :
    (entry.layer = some (.above target) →
      [(other, j), (entry, i)].Sublist (order.filter fun x => chosen x.1)) ∧
    (entry.layer = some (.under target) →
      [(entry, i), (other, j)].Sublist (order.filter fun x => chosen x.1)) := by
  obtain ⟨l, -, hl⟩ := hr.exists_layerOf hentry
  have hmem : (entry, i) ∈ order.filter fun x => chosen x.1 :=
    List.mem_filter.mpr ⟨h.mem hentry, hchosen⟩
  have hmem' : (other, j) ∈ order.filter fun x => chosen x.1 :=
    List.mem_filter.mpr ⟨h.mem hother, hchosen'⟩
  have hlayer : ∀ relation : LayerRelation, relation.target = target →
      entry.layer = some relation → p.layerOf other = .ok (l - relation.step) := by
    rintro relation rfl hrelation
    obtain ⟨k, next, hnext, hk, hlayer⟩ := layerOf_of_relation hl hrelation
    rw [← entryIndex?_eq_some_iff] at hfirst hnext
    obtain rfl := Option.some.inj (hfirst.symm.trans hnext)
    rwa [Option.some.inj (hother.symm.trans hk)]
  constructor
  · intro habove
    have hlt : l - 1 < l := by omega
    exact h.sublist_of_lt hmem' hmem (hlayer _ rfl habove) hl hlt
  · intro hunder
    have hlt : l < l - -1 := by omega
    exact h.sublist_of_lt hmem hmem' hl (hlayer _ rfl hunder) hlt

/-! ## One pass over the sorted entries -/

/-- What is layered are the sorted entries, each with an element of the category that it shows. -/
theorem ResolvesTo.layered_eq (hr : p.ResolvesTo r) {layered : List (Entry × Element)}
    (h : r.layered = .ok layered) :
    layered.map Prod.fst = r.byLayer ∧
      ∀ x ∈ layered, p.categoryOf? x.1 = some x.2.category := by
  have hfst : ∀ entry x, (do
      let element ← r.requireElement entry
      return (entry, element)) = Except.ok x → entry = x.1 := by
    intro entry x hx
    cases hrequire : r.requireElement entry with
    | error e => simp [hrequire, bind, Except.bind] at hx
    | ok e =>
      simp only [hrequire, bind, Except.bind, pure, Except.pure, Except.ok.injEq] at hx
      rw [← hx]
  constructor
  · have hall := ((mapM_eq_ok_iff _ _ _).mp h).imp hfst
    rw [← List.forall₂_map_right_iff, List.forall₂_eq_eq_eq] at hall
    exact hall.symm
  · intro x hx
    obtain ⟨entry, hentry, hx⟩ := exists_of_mem_of_mapM_eq_ok _ _ _ h x hx
    obtain ⟨e, -, -, he, hrequire⟩ := hr.shown entry (hr.mem_timeline_of_mem_byLayer hentry)
    simp only [hrequire, bind, Except.bind, pure, Except.pure, Except.ok.injEq] at hx
    simp [← hx, categoryOf?, he]

/-- The pass collects the entries that are seen. -/
theorem visualClips_eq {layered : List (Entry × Element)}
    (h : ∀ x ∈ layered, p.categoryOf? x.1 = some x.2.category) :
    visualClips layered =
      ((layered.map Prod.fst).filter p.isSeen).map fun entry => entryVariable entry.name := by
  induction layered with
  | nil => rfl
  | cons x rest ih =>
    obtain ⟨hx, hrest⟩ := List.forall_mem_cons.mp h
    have hseen : p.isSeen x.1 = x.2.isVisual := by simp [isSeen, hx, Element.isVisual]
    have hcons : visualClips (x :: rest) =
        (if x.2.isVisual then [entryVariable x.1.name] else []) ++ visualClips rest := by
      cases hvisual : x.2.isVisual <;> simp [visualClips, hvisual]
    rw [hcons, ih hrest, List.map_cons, List.filter_cons, hseen]
    split <;> rfl

/-- The pass collects what is heard of the entries. -/
theorem map_text_audibleTracks {layered : List (Entry × Element)}
    (h : ∀ x ∈ layered, p.categoryOf? x.1 = some x.2.category) :
    (audibleTracks layered).map Track.text = (layered.map Prod.fst).filterMap p.heard? := by
  rw [audibleTracks, List.map_filterMap, List.filterMap_map]
  refine List.filterMap_congr ?_
  intro x hx
  simp only [Function.comp_apply, heard?, h x hx]
  cases x.2.category <;> rfl

/-- The pass meets a sound exactly if some entry shows one. -/
theorem hasSound_iff {layered : List (Entry × Element)}
    (h : ∀ x ∈ layered, p.categoryOf? x.1 = some x.2.category) :
    hasSound layered = true ↔
      ∃ entry ∈ layered.map Prod.fst, p.categoryOf? entry = some .audio := by
  simp only [hasSound, List.any_eq_true, decide_eq_true_eq, List.mem_map]
  constructor
  · rintro ⟨x, hx, hcategory⟩
    exact ⟨x.1, ⟨x, hx, rfl⟩, by rw [h x hx, hcategory]⟩
  · rintro ⟨_, ⟨x, hx, rfl⟩, hcategory⟩
    rw [h x hx, Option.some.injEq] at hcategory
    exact ⟨x, hx, hcategory⟩

end Project

/-! ## Nothing else composes -/

namespace Script

/-- Whether a statement makes a part of the finished film. -/
def Statement.composes : Statement LetterEffect → Bool
  | composeVideo _ _ => true
  | composeAudio _ => true
  | attachAudio => true
  | _ => false

/-- Statements that adapt a clip do not compose. -/
theorem Statement.composes_of_adapts {s : Statement LetterEffect} {clip : String}
    (h : s.adapts clip = true) : s.composes = false := by
  cases s with
  | composeVideo | composeAudio | attachAudio => simp [adapts] at h
  | _ => rfl

/-- Statements that open a clip and adapt it do not compose. -/
theorem composes_of_openedBy {e : Element} {ss : List (Statement LetterEffect)} (h : e.OpenedBy ss)
    {s : Statement LetterEffect} (hs : s ∈ ss) : s.composes = false := by
  obtain ⟨title, opening, rest, rfl, hopening, hrest⟩ := h
  simp only [List.mem_cons] at hs
  rcases hs with rfl | rfl | hs
  · rfl
  · cases e <;> simp only [Element.opening?, Option.some.injEq, reduceCtorEq] at hopening <;>
      subst hopening <;> rfl
  · exact Statement.composes_of_adapts (hrest s hs)

/-- The statements of a text do not compose. -/
theorem composes_of_mem_textStatements {settings : ScriptSettings}
    {effects : EffectRegistry LetterEffect} {duration : Float} {e : Element}
    {s : Statement LetterEffect}
    (hs : s ∈ textStatements settings effects duration e) : s.composes = false := by
  unfold textStatements at hs
  cases htext : e.textBlock? with
  | none => simp [htext] at hs
  | some t =>
    cases heffect : chosenEffect? effects t.options with
    | none =>
      simp only [htext, heffect, List.mem_append, List.mem_cons, List.not_mem_nil, or_false] at hs
      rcases hs with (rfl | rfl) | rfl <;> rfl
    | some effect =>
      simp only [htext, heffect, animationStatements, List.mem_append, List.mem_cons,
        List.not_mem_nil, or_false] at hs
      rcases hs with ((rfl | rfl) | rfl | rfl | rfl | rfl | rfl) | rfl <;> rfl

/-- The lines that compose clips on a canvas, compose sounds and attach them if there are some, and
export a film to a file. -/
def compositionLines (clips : List String) (canvas : Canvas) (sounds : Option (List String))
    (file : String) : List Line :=
  [flat "# Concatenate all clips",
    flat ("final_video = moviepy.CompositeVideoClip([" ++ ", ".intercalate clips ++
      s!"], size=({pixelsLiteral canvas.width}, {pixelsLiteral canvas.height}))"),
    flat ""] ++
    (match sounds with
      | some tracks =>
        [flat "# Concatenate all audios",
          flat ("final_audio = moviepy.CompositeAudioClip([" ++ ", ".intercalate tracks ++ "])"),
          flat "",
          flat "# Assign audio's concatenation to the final video",
          flat "final_video.audio = final_audio",
          flat ""]
      | none => []) ++
    [flat "# Export the final video", flat s!"final_video.write_videofile({textLiteral file})"]

/-- The last statements of a script are written as they stand above. -/
theorem textOf_compositionStatements (name : String) (canvas : Canvas)
    (entries : List (Entry × Element)) :
    textOf (compositionStatements name canvas entries) =
      linesText (compositionLines (visualClips entries) canvas
        (if hasSound entries = true then some ((audibleTracks entries).map Track.text) else none)
        (name ++ ".mp4")) := by
  have hvideo (clips : List String) : (Statement.composeVideo clips canvas).lines =
      [flat ("final_video = moviepy.CompositeVideoClip([" ++ ", ".intercalate clips ++
        s!"], size=({pixelsLiteral canvas.width}, {pixelsLiteral canvas.height}))")] := by
    refine congrArg (fun text => [flat text]) (String.toList_inj.mp ?_)
    simp [commas, sizeLiteral, Canvas.size, toString_text]
  rw [textOf, compositionStatements]
  congr 1
  split <;> simp only [List.flatMap_append, List.flatMap_cons, List.flatMap_nil, hvideo] <;> rfl

/-- The last statements of a script may all be repeated. -/
theorem onceKey?_of_mem_compositionStatements {name : String} {canvas : Canvas}
    {entries : List (Entry × Element)} :
    ∀ s ∈ compositionStatements (E := LetterEffect) name canvas entries, s.onceKey? = none := by
  unfold compositionStatements
  split <;> simp [Statement.onceKey?]

end Script

/-- The clips of elements are made without composing. -/
theorem Resolved.composes_of_mem_clipStatements {r : Resolved} {settings : ScriptSettings}
    {effects : EffectRegistry LetterEffect} {s : Statement LetterEffect}
    (hs : s ∈ r.clipStatements settings effects) : s.composes = false := by
  simp only [Resolved.clipStatements, List.mem_append, List.mem_flatMap, List.mem_filter,
    decide_eq_true_eq] at hs
  rcases hs with (⟨e, ⟨-, hcategory⟩, hs⟩ | ⟨e, -, hs⟩) | ⟨e, ⟨-, hcategory⟩, hs⟩
  · exact composes_of_openedBy (openedBy_videoStatements hcategory) hs
  · exact composes_of_mem_textStatements hs
  · exact composes_of_openedBy (openedBy_audioStatements hcategory) hs

namespace Project

/-- The script of a resolved project ends with a text that composes the clips of exactly those
entries that show a video or a text, each one once, from the lowest layer to the highest and on one
layer in the order of the timeline; so a clip comes after the clip that it is above and before the
one that it is under. Sounds are composed and attached there exactly if an entry shows one; then all
sounds and the sounds of all videos are composed, each one once, in the same order. What is written
before this text composes nothing. -/
theorem composition_follows_layers {p : Project} {r : Resolved} (h : p.resolve = .ok r)
    (settings : ScriptSettings) (effects : EffectRegistry LetterEffect) :
    ∃ order before, p.LayerOrder order ∧ (∀ s ∈ before, s.composes = false) ∧
      r.script settings effects = .ok (textOf before ++
        linesText (compositionLines
          ((order.filter fun x => p.isSeen x.1).map fun x => entryVariable x.1.name)
          settings.canvas
          (if ∃ entry ∈ p.timeline, p.categoryOf? entry = some .audio then
            some (order.filterMap fun x => p.heard? x.1)
          else none)
          (p.outputName ++ ".mp4"))) ∧
      ∀ i entry j other target, p.timeline[i]? = some entry → p.FirstNamed target j →
        p.timeline[j]? = some other → p.isSeen entry = true → p.isSeen other = true →
        (entry.layer = some (.above target) →
          [(other, j), (entry, i)].Sublist (order.filter fun x => p.isSeen x.1)) ∧
        (entry.layer = some (.under target) →
          [(entry, i), (other, j)].Sublist (order.filter fun x => p.isSeen x.1)) := by
  have hr := resolvesTo_of_resolve h
  obtain ⟨entries, layered, -, hlayered, hstatements⟩ := hr.exists_statements settings effects
  obtain ⟨order, horder, hbyLayer⟩ := hr.exists_layerOrder
  obtain ⟨hfst, hcategory⟩ := hr.layered_eq hlayered
  refine ⟨order, written [] ([.importLibrary, .blank] ++ r.clipStatements settings effects ++
    entries.map .entry ++ [.blank]), horder, ?_, ?_, ?_⟩
  · intro s hs
    have hs := (written_sublist [] _).subset hs
    simp only [List.mem_append, List.mem_cons, List.not_mem_nil, or_false, List.mem_map] at hs
    rcases hs with (((rfl | rfl) | hs) | ⟨e, -, rfl⟩) | rfl
    · rfl
    · rfl
    · exact Resolved.composes_of_mem_clipStatements hs
    · rfl
    · rfl
  · have hsound : hasSound layered = true ↔
        ∃ entry ∈ p.timeline, p.categoryOf? entry = some .audio := by
      have hmem : ∀ entry, entry ∈ order.map Prod.fst ↔ entry ∈ p.timeline := by
        intro entry
        rw [(horder.perm.map Prod.fst).mem_iff, List.zipIdx_map_fst]
      simp only [hasSound_iff hcategory, hfst, hbyLayer, hmem]
    have hscript : r.script settings effects = .ok (render _) :=
      congrArg (Except.map render) hstatements
    rw [hscript, render_eq_textOf, written_append onceKey?_of_mem_compositionStatements,
      textOf_append, textOf_compositionStatements]
    simp only [visualClips_eq hcategory, map_text_audibleTracks hcategory, hsound, hfst, hbyLayer,
      List.filter_map, List.map_map, List.filterMap_map, hr.project]
    rfl
  · intro i entry j other target hentry hfirst hother hseen hseen'
    exact horder.sublist_of_relation hr hentry hfirst hother hseen hseen'

/-- In the holiday film the title is on top of both views of the beach and of the caption, and the
music is heard with the sound of the beach. -/
theorem holiday_composition :
    ∃ r before, holiday.resolve = .ok r ∧ (∀ s ∈ before, s.composes = false) ∧
      r.script { } .standard = .ok (textOf before ++
        "# Concatenate all clips\n" ++
        "final_video = moviepy.CompositeVideoClip([timeline_element_1, timeline_element_3, " ++
        "timeline_element_4, timeline_element_2], size=(1920, 1080))\n" ++
        "\n" ++
        "# Concatenate all audios\n" ++
        "final_audio = moviepy.CompositeAudioClip([timeline_element_1.audio, " ++
        "timeline_element_music, timeline_element_4.audio])\n" ++
        "\n" ++
        "# Assign audio's concatenation to the final video\n" ++
        "final_video.audio = final_audio\n" ++
        "\n" ++
        "# Export the final video\n" ++
        "final_video.write_videofile(\"holiday.mp4\")\n") := by
  obtain ⟨r, hr⟩ := holiday_usable.exists_resolvesTo
  obtain ⟨order, before, horder, hbefore, hscript, -⟩ :=
    composition_follows_layers hr.resolve { } .standard
  let sorted := [0, 2, 3, 4, 1].filterMap fun i => holiday.timeline[i]?.map (·, i)
  have hlayer : ∀ x ∈ sorted, holiday.layerOf x.1 = .ok (if x.2 = 1 then 1 else 0) := by
    decide +kernel
  have hpairs : sorted.Pairwise fun a b =>
      (if a.2 = 1 then (1 : ℤ) else 0) < (if b.2 = 1 then 1 else 0) ∨
        (if a.2 = 1 then (1 : ℤ) else 0) = (if b.2 = 1 then 1 else 0) ∧ a.2 < b.2 := by
    decide
  have hsorted : holiday.LayerOrder sorted :=
    ⟨by decide, hpairs.imp_of_mem fun ha hb hab => ⟨_, _, hlayer _ ha, hlayer _ hb, hab⟩⟩
  rw [horder.unique hsorted] at hscript
  refine ⟨r, before, hr.resolve, hbefore, ?_⟩
  simp only [String.append_assoc] at hscript ⊢
  exact hscript.trans (congrArg (fun text => Except.ok (textOf before ++ text)) (by decide +kernel))

end Project

end Montage
