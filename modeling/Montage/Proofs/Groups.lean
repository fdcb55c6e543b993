import Mathlib.Data.List.Permutation
import Montage.Proofs.Layers
import Montage.Proofs.Merging
import Montage.Proofs.Resolution

/-!
# What groups do to a resolution

Groups give options to elements and do nothing else. Whether a project resolves depends on the names
and sources of its elements and on its timeline, and so do the layers. So a project can be resolved
once more after its options were merged, with the same result, since the options of its groups are
all there already. And two neighbouring groups can change places if no element takes options from
both: then every element finds the options of its groups in the same order, and the script does not
look at groups at all.
-/

namespace Montage

open Script

/-! ## What resolution looks at -/

/-- A search for a layer looks at nothing but the timeline. -/
theorem LayerSearch.run_eq_of_timeline {p q : Project} (h : p.timeline = q.timeline)
    (s : LayerSearch) : s.run p = s.run q := by
  have hfollow (s : LayerSearch) (relation : LayerRelation) :
      s.follow p relation = s.follow q relation := by
    simp only [follow, Project.entry?, h]
  fun_induction s.run p with
  | case1 s hlayer => exact (run_of_none hlayer).symm
  | case2 s relation hlayer e hfailed =>
    rw [hfollow] at hfailed
    rw [run, hlayer]
    dsimp only
    split
    · rename_i e' hfailed'
      rw [Except.error.inj (hfailed.symm.trans hfailed')]
    · rename_i next hnext
      simp [hnext] at hfailed
  | case3 s relation hlayer next hnext hahead ih =>
    rw [hfollow] at hnext
    rw [ih, Step.run_eq ⟨relation, hlayer, hnext⟩]

namespace Project

/-- Two projects with the same timeline and with elements of the same names and sources. -/
structure SameReferences (p q : Project) : Prop where
  elements : p.elements.map (fun e => (e.name, e.source?)) =
    q.elements.map fun e => (e.name, e.source?)
  timeline : p.timeline = q.timeline

variable {p q : Project}

/-- Layers depend on the timeline. -/
theorem SameReferences.layers (h : p.SameReferences q) : p.layers = q.layers := by
  have hlayer : p.layerOf = q.layerOf := by
    funext entry
    exact LayerSearch.run_eq_of_timeline h.timeline _
  rw [Project.layers, Project.layers, hlayer, h.timeline]

/-- Circles depend on the timeline. -/
theorem SameReferences.checkAcyclic (h : p.SameReferences q) : p.checkAcyclic = q.checkAcyclic := by
  have hlink : p.startLink = q.startLink := by
    funext i
    simp only [startLink, entryIndex?, h.timeline]
  cases hcheck : q.checkAcyclic with
  | ok u =>
    rw [q.checkAcyclic_eq_ok_iff] at hcheck
    rwa [p.checkAcyclic_eq_ok_iff, h.timeline, hlink]
  | error e =>
    rw [q.checkAcyclic_eq_error_iff] at hcheck
    simpa only [p.checkAcyclic_eq_error_iff, Chain.report_iff, entryNames, h.timeline, hlink]
      using hcheck

/-- The same names lead somewhere. -/
theorem SameReferences.isSome_element? (h : p.SameReferences q) (name : String) :
    (p.element? name).isSome = (q.element? name).isSome := by
  have hfound (p : Project) : (p.element? name).isSome =
      (p.elements.map fun e => (e.name, e.source?)).any fun x => x.1 = name := by
    simp only [element?, List.isSome_find?, List.any_map, Function.comp_def]
  rw [hfound, hfound, h.elements]

/-- The same references fail. -/
theorem SameReferences.checkReferences (h : p.SameReferences q) :
    p.checkReferences = q.checkReferences := by
  have hsources : p.elements.forM p.checkSource = q.elements.forM q.checkSource := by
    refine forM_eq_of_map_eq h.elements fun x y hview => ?_
    have hsource : x.source? = y.source? := congrArg Prod.snd hview
    simp only [checkSource, hsource, h.isSome_element?]
  have hentry : p.checkEntry = q.checkEntry := by
    funext entry
    have hmissing : (p.element? entry.element).isNone = (q.element? entry.element).isNone := by
      rw [← Option.not_isSome, ← Option.not_isSome, h.isSome_element?]
    have hfound : p.entry? = q.entry? := by
      funext name
      rw [ entry?, entry?, h.timeline]
    rw [checkEntry, checkEntry, hmissing, hfound]
  rw [Project.checkReferences, Project.checkReferences, hsources, hentry, h.timeline]

/-- Projects with the same references resolve alike: the failure is the same, and so are the
layers; what differs is the project that is resolved. -/
theorem SameReferences.resolve (h : p.SameReferences q) :
    q.resolve = p.resolve.map fun r => ⟨{ q with elements := q.mergedElements }, r.layers⟩ := by
  rw [Project.resolve, Project.resolve, h.checkReferences, h.checkAcyclic, h.layers]
  cases q.checkReferences with
  | error e => rfl
  | ok u =>
    cases q.checkAcyclic with
    | error e => rfl
    | ok v => cases q.layers <;> rfl

/-! ## Resolving again -/

end Project

/-- An element without its options. -/
def Element.bare : Element → Element
  | .video v => .video { v with options := [] }
  | .videoExtract e => .videoExtract { e with options := [] }
  | .audio a => .audio { a with options := [] }
  | .audioExtract e => .audioExtract { e with options := [] }
  | .text t => .text { t with options := [] }
  | .subtitle t => .subtitle { t with options := [] }

namespace Project

variable {p : Project} {r : Resolved}

/-- Merging changes nothing of an element but its options. -/
theorem bare_mergeInto (p : Project) (e : Element) : (p.mergeInto e).bare = e.bare := by
  cases e <;> rfl

/-- The options of groups are merged into an element once and for all. -/
theorem mergeInto_mergeInto {p q : Project} (h : q.groups = p.groups) (e : Element) :
    q.mergeInto (p.mergeInto e) = p.mergeInto e := by
  cases e <;>
    simp only [mergeInto, videoGroupsOf, audioGroupsOf, textGroupsOf, h, mergeOptions_mergeOptions]

/-- Merging options keeps all references. -/
theorem sameReferences_merged (p : Project) :
    p.SameReferences { p with elements := p.mergedElements } where
  elements := by simp [mergedElements, Function.comp_def]
  timeline := rfl

/-- A project that was resolved differs from the project it was made from in the options of its
elements only, and it resolves to itself, with the same layers. -/
theorem resolved_resolves_to_itself (h : p.resolve = .ok r) :
    r.project.outputName = p.outputName ∧ r.project.groups = p.groups ∧
      r.project.timeline = p.timeline ∧
      r.project.elements.map Element.bare = p.elements.map Element.bare ∧
      r.project.resolve = .ok r := by
  obtain ⟨project, layers⟩ := r
  obtain ⟨-, -, -, rfl⟩ := resolve_eq_ok h
  refine ⟨rfl, rfl, rfl, ?_, ?_⟩
  · simp [mergedElements, bare_mergeInto, Function.comp_def]
  · have hmerged : ({ p with elements := p.mergedElements } : Project).mergedElements =
        p.mergedElements := by
      simp only [mergedElements, List.map_map]
      exact List.map_congr_left fun e _ => mergeInto_mergeInto rfl e
    rw [(sameReferences_merged p).resolve, h, hmerged]
    rfl

/-- A gala with elements of all kinds and groups of all categories, some of whose options compete
with each other or with those of an element. -/
def gala : Project where
  outputName := "gala"
  elements :=
    [.video ⟨"stage", "clips/stage.mp4", none, [.transition .fadeIn, .size ⟨1280, 720⟩]⟩,
      .videoExtract ⟨"bow", "stage", .read "01:10", .read "01:15", [.position ⟨none, none⟩]⟩,
      .audio ⟨"choir", "audio/choir.wav", [.normalize]⟩,
      .audioExtract ⟨"verse", "choir", .read "00:20", .read "00:50", [.normalize, .volume 0.5]⟩,
      .text ⟨"title", "Gala", [.effect .grouping, .fontSize 72]⟩,
      .subtitle ⟨"caption", "All together", []⟩]
  groups :=
    [.video ⟨"frames", ["stage"], [.resolution .webcam, .transition .fadeOut]⟩,
      .video ⟨"light", ["bow"], [.brightness 2.0, .resolution .webcam]⟩,
      .audio ⟨"level", ["choir", "verse"], [.volume 0.75, .normalize]⟩,
      .text ⟨"letters", ["title", "caption"], [.size ⟨640, 120⟩, .fontSize 48]⟩]
  timeline :=
    [⟨"#1", "stage", .implicit, none, none⟩, ⟨"#2", "bow", .implicit, none, some (.above "#1")⟩,
      ⟨"song", "verse", .relative "#2" .start none, none, none⟩,
      ⟨"#3", "caption", .relative "#2" .stop none, none, some (.above "#2")⟩]

/-- No rule finds an error in the gala. -/
theorem gala_usable : gala.Usable := by decide +kernel

/-- The gala takes options from its groups when it is resolved, and nothing when it is resolved
again. -/
theorem gala_resolves_to_itself : ∃ r, gala.resolve = .ok r ∧
    r.project.element? "stage" = some (.video ⟨"stage", "clips/stage.mp4", none,
      [.size ⟨1280, 720⟩, .transition .fadeIn, .transition .fadeOut]⟩) ∧
    r.project.resolve = .ok r := by
  obtain ⟨r, hr⟩ := gala_usable.exists_resolvesTo
  obtain ⟨-, -, -, -, hagain⟩ := resolved_resolves_to_itself hr.resolve
  refine ⟨r, hr.resolve, ?_, hagain⟩
  have hgroups : (gala.videoGroupsOf "stage").flatMap (·.options) =
      [.resolution .webcam, .transition .fadeOut] := rfl
  have hmerged : mergeOptions [VideoOption.transition .fadeIn, .size ⟨1280, 720⟩]
      [.resolution .webcam, .transition .fadeOut] =
      [.size ⟨1280, 720⟩, .transition .fadeIn, .transition .fadeOut] := by cbv
  rw [hr.project, element?_merged, ← hmerged, ← hgroups]
  rfl

end Project

/-! ## Groups that change places -/

/-- What kind of elements a group gives options to. -/
def OptionGroup.category : OptionGroup → Category
  | video _ => .video
  | audio _ => .audio
  | text _ => .textual

/-- Two groups that give options to different elements: they are of different categories, or they
have no member in common. -/
def OptionGroup.Independent (g h : OptionGroup) : Prop :=
  g.category ≠ h.category ∨ ∀ name ∈ g.members, name ∉ h.members

/-- Neighbours of which one gives nothing can change places. -/
theorem filterMap_swap {α β : Type} {f : α → Option β} {a b : α} (h : f a = none ∨ f b = none)
    (before after : List α) :
    (before ++ b :: a :: after).filterMap f = (before ++ a :: b :: after).filterMap f := by
  rcases h with h | h <;> simp [List.filterMap_cons, h]

/-- Of two independent groups, at most one is for an element. -/
theorem OptionGroup.Independent.eq_none {g h : OptionGroup} (hindependent : g.Independent h)
    {O : Type} {category? : OptionGroup → Option (Group O)} (category : Category)
    (hcategory : ∀ group x, category? group = some x →
      group.category = category ∧ group.members = x.members) (element : String) :
    (category? g).filter (fun x => x.appliesTo element) = none ∨
      (category? h).filter (fun x => x.appliesTo element) = none := by
  rw [or_iff_not_imp_left]
  intro hg
  obtain ⟨x, hx⟩ := Option.ne_none_iff_exists'.mp hg
  rw [Option.filter_eq_none_iff]
  intro y hy happlies
  obtain ⟨hx, hxmember⟩ := Option.filter_eq_some_iff.mp hx
  obtain ⟨hgcategory, hgmembers⟩ := hcategory g x hx
  obtain ⟨hhcategory, hhmembers⟩ := hcategory h y hy
  rcases hindependent with hne | hdisjoint
  · exact hne (hgcategory.trans hhcategory.symm)
  · refine hdisjoint element ?_ ?_
    · rw [hgmembers]
      exact List.contains_iff_mem.mp hxmember
    · rw [hhmembers]
      exact List.contains_iff_mem.mp happlies

namespace Project

section Swap

variable {p : Project} {before after : List OptionGroup} {g h : OptionGroup}

/-- The project with other groups. -/
def withGroups (p : Project) (groups : List OptionGroup) : Project :=
  { p with groups := groups }

/-- For every category, an element has the same groups in the same order when independent neighbours
change places. -/
theorem groups_swap (hgroups : p.groups = before ++ g :: h :: after)
    (hindependent : g.Independent h) {O : Type} {category? : OptionGroup → Option (Group O)}
    (category : Category) (hcategory : ∀ group x, category? group = some x →
      group.category = category ∧ group.members = x.members) (element : String) :
    ((before ++ h :: g :: after).filterMap category?).filter (fun x => x.appliesTo element) =
      (p.groups.filterMap category?).filter fun x => x.appliesTo element := by
  rw [hgroups, List.filter_filterMap, List.filter_filterMap]
  apply filterMap_swap
  exact hindependent.eq_none category hcategory element

/-- Elements take the same options when independent neighbours change places. -/
theorem mergeInto_swap (hgroups : p.groups = before ++ g :: h :: after)
    (hindependent : g.Independent h) :
    (p.withGroups (before ++ h :: g :: after)).mergeInto = p.mergeInto := by
  have hvideo (element : String) :
      (p.withGroups (before ++ h :: g :: after)).videoGroupsOf element = p.videoGroupsOf element :=
    groups_swap hgroups hindependent .video
      (fun x g hx => x.eq_of_category.1 g hx ▸ ⟨rfl, rfl⟩) element
  have haudio (element : String) :
      (p.withGroups (before ++ h :: g :: after)).audioGroupsOf element = p.audioGroupsOf element :=
    groups_swap hgroups hindependent .audio
      (fun x g hx => x.eq_of_category.2.1 g hx ▸ ⟨rfl, rfl⟩) element
  have htext (element : String) :
      (p.withGroups (before ++ h :: g :: after)).textGroupsOf element = p.textGroupsOf element :=
    groups_swap hgroups hindependent .textual
      (fun x g hx => x.eq_of_category.2.2 g hx ▸ ⟨rfl, rfl⟩) element
  funext e
  cases e <;> simp only [mergeInto, hvideo, haudio, htext]

end Swap

/-- The frame of an element does not depend on groups. -/
theorem frameWithin_withGroups (p : Project) (groups : List OptionGroup) (steps : ℕ) (e : Element) :
    (p.withGroups groups).frameWithin steps e = p.frameWithin steps e := by
  induction steps generalizing e with
  | zero => rfl
  | succ steps ih =>
    cases e with
    | videoExtract x =>
      have hsource : (p.withGroups groups).element? x.source = p.element? x.source := rfl
      simp only [frameWithin, hsource, ih]
    | _ => rfl

end Project

namespace Resolved

/-- The resolved project with other groups. -/
def withGroups (r : Resolved) (groups : List OptionGroup) : Resolved :=
  { r with project := r.project.withGroups groups }

/-- The script of a resolved project does not depend on groups. -/
theorem script_withGroups {E : Type} [TextEffect E] (r : Resolved) (groups : List OptionGroup)
    (settings : ScriptSettings) (effects : EffectRegistry E) :
    (r.withGroups groups).script settings effects = r.script settings effects := by
  have hvideo : videoStatements (E := E) (r.withGroups groups).project settings.canvas =
      videoStatements r.project settings.canvas := by
    funext e
    have hframe : (r.withGroups groups).project.frameOf e = r.project.frameOf e :=
      r.project.frameWithin_withGroups groups _ e
    cases e <;> simp only [videoStatements, finishVideo, hframe]
  have hclips : (r.withGroups groups).clipStatements settings effects =
      r.clipStatements settings effects := by
    rw [clipStatements, hvideo]
    rfl
  rw [script, statements, hclips]
  rfl

end Resolved

namespace Project

/-- If two neighbouring groups are of different categories or have no member in common, a project in
which they change places resolves alike: it fails with the same error, or it resolves to the same
elements with the same options and to the same layers, and only the groups are those of the other
order. Then the scripts are the same as well. -/
theorem independent_groups_commute {p : Project} {before after : List OptionGroup}
    {g h : OptionGroup} (hgroups : p.groups = before ++ g :: h :: after)
    (hindependent : g.Independent h) :
    (∀ e, (p.withGroups (before ++ h :: g :: after)).resolve = .error e ↔ p.resolve = .error e) ∧
    ∀ r, p.resolve = .ok r → ∃ r',
      (p.withGroups (before ++ h :: g :: after)).resolve = .ok r' ∧
      r'.project = r.project.withGroups (before ++ h :: g :: after) ∧
      r'.project.elements = r.project.elements ∧ r'.layers = r.layers ∧
      ∀ (E : Type) [TextEffect E] (settings : ScriptSettings) (effects : EffectRegistry E),
        r'.script settings effects = r.script settings effects := by
  have hsame : p.SameReferences (p.withGroups (before ++ h :: g :: after)) := ⟨rfl, rfl⟩
  have hmerged : (p.withGroups (before ++ h :: g :: after)).mergedElements = p.mergedElements := by
    rw [mergedElements, mergeInto_swap hgroups hindependent]
    rfl
  rw [hsame.resolve, hmerged]
  constructor
  · intro e
    cases p.resolve <;> simp [Except.map]
  · intro r hr
    have hproject := (resolvesTo_of_resolve hr).project
    refine ⟨r.withGroups (before ++ h :: g :: after), ?_, rfl, rfl, rfl, ?_⟩
    · rw [hr, Resolved.withGroups, hproject]
      rfl
    · exact fun E _ settings effects => r.script_withGroups _ settings effects

/-- The two groups of video options of the gala are for different elements, so the gala can be
resolved with the second one in front of the first. -/
theorem gala_groups_commute : ∃ r r', gala.resolve = .ok r ∧
    (gala.withGroups
      [.video ⟨"light", ["bow"], [.brightness 2.0, .resolution .webcam]⟩,
        .video ⟨"frames", ["stage"], [.resolution .webcam, .transition .fadeOut]⟩,
        .audio ⟨"level", ["choir", "verse"], [.volume 0.75, .normalize]⟩,
        .text ⟨"letters", ["title", "caption"], [.size ⟨640, 120⟩, .fontSize 48]⟩]).resolve =
      .ok r' ∧
    r'.project.elements = r.project.elements ∧ r'.layers = r.layers ∧
    r'.script { } .standard = r.script { } .standard := by
  obtain ⟨r, hr⟩ := gala_usable.exists_resolvesTo
  have hgroups : gala.groups =
      [] ++ .video ⟨"frames", ["stage"], [.resolution .webcam, .transition .fadeOut]⟩ ::
        .video ⟨"light", ["bow"], [.brightness 2.0, .resolution .webcam]⟩ ::
        gala.groups.drop 2 := rfl
  obtain ⟨-, hcommute⟩ := independent_groups_commute hgroups (Or.inr (by decide))
  obtain ⟨r', hr', -, helements, hlayers, hscript⟩ := hcommute r hr.resolve
  exact ⟨r, r', hr.resolve, hr', helements, hlayers, hscript _ _ _⟩

end Project

end Montage
