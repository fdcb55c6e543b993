import Mathlib.Data.List.Basic
import Montage.Build
import Montage.Proofs.Names
import Montage.Proofs.Starts

/-!
# Usable projects resolve

The rules share the work: one looks for names that lead nowhere, another one for circles, and each
leaves the findings of the other alone. Resolution fails only at such a name or at a circle, so a
project in which neither is found resolves, and everything that is made from it afterwards exists:
its script, its schedule and its timeline records, whatever was measured.
-/

namespace Montage

/-! ## Groups of one category -/

/-- A group that has options of a category is a group of that category. -/
theorem OptionGroup.eq_of_category (group : OptionGroup) :
    (∀ g, group.video? = some g → group = .video g) ∧
      (∀ g, group.audio? = some g → group = .audio g) ∧
      ∀ g, group.text? = some g → group = .text g := by
  cases group <;> simp [video?, audio?, text?]

namespace Project

/-! ## Why a chain or a layer is missing -/

/-- Only a relative entry can miss its reference, and then the entry it names does not exist. -/
theorem exists_of_startLink_missing {p : Project} {k : ℕ} {name : String}
    (h : p.startLink k = .missing name) :
    ∃ entry ∈ p.timeline, entry.relativeTarget? = some name ∧ p.entry? name = none := by
  obtain ⟨entry, anchor, offset, hentry, hplacement, habsent⟩ := startLink_eq_missing_iff.mp h
  refine ⟨entry, List.mem_of_getElem? hentry, by simp [Entry.relativeTarget?, hplacement], ?_⟩
  unfold entry?
  simpa using habsent

/-- Where all relative entries find their entry, a start can only be missing for a circle. -/
theorem SoundReferences.start_report {p : Project} (h : p.SoundReferences) {i : ℕ} {e : Error}
    (hreport : Chain.Report p p.startLink i i e) : ∃ path, e = .cyclicRelation path := by
  cases hreport with
  | missing hbreaks =>
    obtain ⟨k, hk⟩ := hbreaks.exists_missing
    obtain ⟨entry, hentry, htarget, hnone⟩ := exists_of_startLink_missing hk
    exact absurd hnone (h.relative entry hentry _ htarget)
  | circle hlasso => exact ⟨_, rfl⟩

/-- Where all relations find their entry, a step towards a layer can only fail for a circle. -/
theorem SoundReferences.follow_error {p : Project} (h : p.SoundReferences) {s : LayerSearch}
    (hentry : s.entry ∈ p.timeline) {relation : LayerRelation}
    (hrelation : s.entry.layer = some relation) {e : Error}
    (hfollow : s.follow p relation = .error e) : ∃ path, e = .cyclicRelation path := by
  unfold LayerSearch.follow at hfollow
  cases hnext : p.entry? relation.target with
  | none => exact absurd hnext (h.layer s.entry hentry relation hrelation)
  | some next =>
    simp only [hnext] at hfollow
    split at hfollow
    · exact ⟨_, (Except.error.inj hfollow).symm⟩
    · simp at hfollow

/-- Where all relations find their entry, a layer can only be missing for a circle. -/
theorem SoundReferences.run_error {p : Project} (h : p.SoundReferences) (s : LayerSearch)
    (hentry : s.entry ∈ p.timeline) {e : Error} (hrun : s.run p = .error e) :
    ∃ path, e = .cyclicRelation path := by
  fun_induction s.run p with
  | case1 s hlayer => simp at hrun
  | case2 s relation hlayer e' hfollow =>
    obtain rfl := Except.error.inj hrun
    exact h.follow_error hentry hlayer hfollow
  | case3 s relation hlayer next hfollow hahead ih =>
    exact ih (entry?_eq_some (LayerSearch.follow_eq_ok hfollow).1).1 hrun

/-! ## Resolution succeeds -/

/-- Sound references pass the check that resolution makes of them. -/
theorem checkReferences_eq_ok {p : Project} (hreferences : p.SoundReferences) :
    p.checkReferences = .ok () := by
  have hsources : p.elements.forM p.checkSource = .ok () := by
    rw [forM_eq_ok_iff]
    intro e he
    cases hsource : e.source? with
    | none => simp [checkSource, hsource]
    | some source =>
      obtain ⟨before, after, helements⟩ := List.append_of_mem he
      obtain ⟨x, hx, hname, -⟩ := hreferences.source before e after source helements hsource
      have hfound : (p.element? source).isSome := by
        rw [element?, List.find?_isSome]
        exact ⟨x, by simp [helements, hx], by simp [hname]⟩
      simp [checkSource, hsource, hfound]
  have hentries : p.timeline.forM p.checkEntry = .ok () := by
    rw [forM_eq_ok_iff]
    intro entry hentry
    obtain ⟨e, he⟩ := hreferences.element entry hentry
    cases htarget : entry.relativeTarget? with
    | none => simp [checkEntry, he, htarget]
    | some target =>
      have hfound := Option.isSome_iff_ne_none.mpr
        (hreferences.relative entry hentry target htarget)
      simp [checkEntry, he, htarget, hfound]
  rw [checkReferences, hsources]
  exact hentries

/-- Every entry of a usable project has a start. -/
theorem Usable.checkAcyclic_eq_ok {p : Project} (h : p.Usable) : p.checkAcyclic = .ok () := by
  cases hcheck : p.checkAcyclic with
  | ok u => rfl
  | error e =>
    obtain ⟨i, -, -, hreport⟩ := (p.checkAcyclic_eq_error_iff e).mp hcheck
    obtain ⟨path, rfl⟩ := h.references.start_report hreport
    exact absurd hcheck (h.timeline.starts path)

/-- Every entry of a usable project has a layer. -/
theorem Usable.exists_layers {p : Project} (h : p.Usable) : ∃ layers, p.layers = .ok layers := by
  cases hlayers : p.layers with
  | ok layers => exact ⟨layers, rfl⟩
  | error e =>
    obtain ⟨entry, hentry, herror⟩ := exists_of_mapM_eq_error _ _ _ hlayers
    obtain ⟨path, rfl⟩ := h.references.run_error (.start entry) hentry herror
    exact absurd hlayers (h.timeline.layers path)

/-- What resolution has found out when it succeeds. -/
theorem resolve_eq_ok {p : Project} {r : Resolved} (h : p.resolve = .ok r) :
    p.checkReferences = .ok () ∧ p.checkAcyclic = .ok () ∧ p.layers = .ok r.layers ∧
      r.project = { p with elements := p.mergedElements } := by
  unfold resolve at h
  cases hreferences : p.checkReferences with
  | error e => simp [hreferences, bind, Except.bind] at h
  | ok u =>
    cases hacyclic : p.checkAcyclic with
    | error e => simp [hreferences, hacyclic, bind, Except.bind] at h
    | ok v =>
      cases hlayers : p.layers with
      | error e => simp [hreferences, hacyclic, hlayers, bind, Except.bind] at h
      | ok layers =>
        simp only [hreferences, hacyclic, hlayers, bind, Except.bind, pure, Except.pure,
          Except.ok.injEq] at h
        exact ⟨rfl, rfl, by rw [← h], by rw [← h]⟩

/-- Where the check of references succeeds, every entry shows an element. -/
theorem exists_element_of_checkReferences {p : Project} (h : p.checkReferences = .ok ())
    {entry : Entry} (hentry : entry ∈ p.timeline) : ∃ e, p.element? entry.element = some e := by
  unfold checkReferences at h
  cases hsources : p.elements.forM p.checkSource with
  | error e => simp [hsources, bind, Except.bind] at h
  | ok u =>
    simp only [hsources, bind, Except.bind] at h
    have hcheck := (forM_eq_ok_iff _ _).mp h entry hentry
    cases helement : p.element? entry.element with
    | none => simp [checkEntry, helement] at hcheck
    | some e => exact ⟨e, rfl⟩

/-- A usable project resolves to its own timeline with merged elements. -/
theorem Usable.exists_resolve {p : Project} (h : p.Usable) :
    ∃ layers, p.layers = .ok layers ∧
      p.resolve = .ok ⟨{ p with elements := p.mergedElements }, layers⟩ := by
  obtain ⟨layers, hlayers⟩ := h.exists_layers
  refine ⟨layers, hlayers, ?_⟩
  simp [resolve, checkReferences_eq_ok h.references, h.checkAcyclic_eq_ok, hlayers,
    bind, Except.bind, pure, Except.pure]

/-! ## Merged elements -/

/-- Merging options keeps the name of an element. -/
@[simp] theorem mergeInto_name (p : Project) (e : Element) : (p.mergeInto e).name = e.name := by
  cases e <;> rfl

/-- Merging options keeps the category of an element. -/
@[simp] theorem mergeInto_category (p : Project) (e : Element) :
    (p.mergeInto e).category = e.category := by
  cases e <;> rfl

/-- Merging options keeps what a piece is cut from. -/
@[simp] theorem mergeInto_source? (p : Project) (e : Element) :
    (p.mergeInto e).source? = e.source? := by
  cases e <;> rfl

/-- The first merged element of a name is the first element of the name, merged. -/
theorem element?_merged (p : Project) (name : String) :
    ({ p with elements := p.mergedElements } : Project).element? name =
      (p.element? name).map p.mergeInto := by
  have hname : (fun e : Element => decide (e.name = name)) ∘ p.mergeInto =
      fun e => decide (e.name = name) := by
    funext e
    simp
  simp only [element?, mergedElements, List.find?_map, hname]

/-- Merged elements have the names that the elements have. -/
theorem map_name_mergedElements (p : Project) :
    p.mergedElements.map Element.name = p.elements.map Element.name := by
  simp [mergedElements, Function.comp_def]

/-- Names stay sound when options are merged. -/
theorem SoundNames.merged {p : Project} (h : p.SoundNames) :
    ({ p with elements := p.mergedElements } : Project).SoundNames := by
  refine ⟨?_, ?_, ?_, ?_, h.distinctEntries, h.wellNamed⟩
  · simpa [mergedElements] using h.isVariable
  · simpa [mergedElements] using h.unmarked
  · rw [map_name_mergedElements]
    exact h.distinct
  · rw [map_name_mergedElements]
    intro e he htextual
    obtain ⟨x, hx, rfl⟩ := List.mem_map.mp he
    rw [mergeInto_name]
    exact h.letters x hx (by simpa [Element.isTextual] using htextual)

/-- References stay sound when options are merged. -/
theorem SoundReferences.merged {p : Project} (h : p.SoundReferences) :
    ({ p with elements := p.mergedElements } : Project).SoundReferences := by
  refine ⟨?_, ?_, h.relative, h.layer⟩
  · intro before e after source helements hsource
    obtain ⟨before', rest, hsplit, rfl, hrest⟩ := List.map_eq_append_iff.mp helements
    obtain ⟨e', after', rfl, rfl, -⟩ := List.map_eq_cons_iff.mp hrest
    rw [mergeInto_source?] at hsource
    obtain ⟨x, hx, hname, hcategory⟩ := h.source before' e' after' source hsplit hsource
    exact ⟨p.mergeInto x, List.mem_map_of_mem hx, by simp [hname], by simp [hcategory]⟩
  · intro entry hentry
    obtain ⟨e, he⟩ := h.element entry hentry
    exact ⟨p.mergeInto e, by rw [element?_merged, he, Option.map_some]⟩

end Project

/-! ## What is made from a resolved project -/

/-- The resolution of a project, in the form in which it is found. -/
structure Project.ResolvesTo (p : Project) (r : Resolved) : Prop where
  resolve : p.resolve = .ok r
  project : r.project = { p with elements := p.mergedElements }
  /-- Every entry shows the element of its name, with merged options. -/
  shown : ∀ entry ∈ p.timeline, ∃ e ∈ p.elements, e.name = entry.element ∧
    p.element? entry.element = some e ∧ r.requireElement entry = .ok (p.mergeInto e)

/-- In every project that resolves, all entries show elements. -/
theorem Project.resolvesTo_of_resolve {p : Project} {r : Resolved} (h : p.resolve = .ok r) :
    p.ResolvesTo r := by
  obtain ⟨hreferences, -, -, hproject⟩ := Project.resolve_eq_ok h
  refine ⟨h, hproject, ?_⟩
  intro entry hentry
  obtain ⟨e, he⟩ := Project.exists_element_of_checkReferences hreferences hentry
  obtain ⟨hmem, hname⟩ := Project.element?_eq_some he
  refine ⟨e, hmem, hname, he, ?_⟩
  simp [Resolved.requireElement, Resolved.elementOf, hproject, Project.element?_merged, he]

/-- A usable project resolves, and all its entries show elements. -/
theorem Project.Usable.exists_resolvesTo {p : Project} (h : p.Usable) : ∃ r, p.ResolvesTo r := by
  obtain ⟨layers, -, hresolve⟩ := h.exists_resolve
  exact ⟨_, Project.resolvesTo_of_resolve hresolve⟩

namespace Project.ResolvesTo

variable {p : Project} {r : Resolved}

/-- Resolution keeps the timeline. -/
theorem timeline (hr : p.ResolvesTo r) : r.project.timeline = p.timeline := by
  rw [hr.project]

/-- Resolution merges the options of groups into the elements. -/
theorem elements (hr : p.ResolvesTo r) : r.project.elements = p.mergedElements := by
  rw [hr.project]

/-- The names of a usable project are still sound in its resolution. -/
theorem names (hr : p.ResolvesTo r) (h : p.Usable) : r.project.SoundNames := by
  rw [hr.project]
  exact h.names.merged

/-- The references of a usable project are still sound in its resolution. -/
theorem references (hr : p.ResolvesTo r) (h : p.Usable) : r.project.SoundReferences := by
  rw [hr.project]
  exact h.references.merged

/-- The assignments of all entries exist, in any arithmetic. -/
theorem exists_entryStatements {T : Type} [TimeScale T] (hr : p.ResolvesTo r) (defaultText : T) :
    ∃ entries, r.entryStatements defaultText = .ok entries := by
  apply exists_mapM_eq_ok
  rintro ⟨entry, i⟩ hmem
  rw [hr.timeline] at hmem
  obtain ⟨e, -, -, -, he⟩ := hr.shown entry (List.fst_mem_of_mem_zipIdx hmem)
  exact ⟨_, by simp only [he, bind, Except.bind, pure, Except.pure]; rfl⟩

/-- There is one assignment for each entry. -/
theorem length_entryStatements {T : Type} [TimeScale T] (hr : p.ResolvesTo r) {defaultText : T}
    {entries : List (Script.EntryStatement T)} (h : r.entryStatements defaultText = .ok entries) :
    entries.length = p.timeline.length := by
  have hlength := ((mapM_eq_ok_iff _ _ _).mp h).length_eq
  rw [List.length_zipIdx, hr.timeline] at hlength
  exact hlength.symm

/-- Each assignment is that of the entry at its index, which shows the element of its name. -/
theorem getElem?_entryStatements {T : Type} [TimeScale T] (hr : p.ResolvesTo r) {defaultText : T}
    {entries : List (Script.EntryStatement T)} (h : r.entryStatements defaultText = .ok entries)
    {i : ℕ} {s : Script.EntryStatement T} (hs : entries[i]? = some s) :
    ∃ entry e, p.timeline[i]? = some entry ∧ e ∈ p.elements ∧
      p.element? entry.element = some e ∧
      s = Script.entryStatement p.timeline defaultText i entry (p.mergeInto e) := by
  obtain ⟨hi, -⟩ := List.getElem?_eq_some_iff.mp hs
  rw [hr.length_entryStatements h] at hi
  have hentry : p.timeline[i]? = some p.timeline[i] := List.getElem?_eq_getElem hi
  obtain ⟨e, he, -, hfound, hrequire⟩ := hr.shown _ (List.mem_of_getElem? hentry)
  obtain ⟨s', hs', hstep⟩ := getElem?_of_mapM_eq_ok _ _ _ h i (p.timeline[i], i)
    (by rw [hr.timeline, List.getElem?_zipIdx, hentry]; simp)
  obtain rfl := Option.some.inj (hs'.symm.trans hs)
  simp only [hrequire, hr.timeline, bind, Except.bind, pure, Except.pure, Except.ok.injEq] at hstep
  exact ⟨_, e, hentry, he, hfound, hstep.symm⟩

/-- Each assignment is made to the variable of the entry at its index. -/
theorem clip_entryStatements {T : Type} [TimeScale T] (hr : p.ResolvesTo r) {defaultText : T}
    {entries : List (Script.EntryStatement T)} (h : r.entryStatements defaultText = .ok entries)
    {i : ℕ} {s : Script.EntryStatement T} (hs : entries[i]? = some s) {entry : Entry}
    (hentry : p.timeline[i]? = some entry) : s.clip = Script.entryVariable entry.name := by
  obtain ⟨entry', e, hentry', -, -, rfl⟩ := hr.getElem?_entryStatements h hs
  rw [Option.some.inj (hentry.symm.trans hentry')]
  rfl

/-- The entries in the order of layers are entries of the timeline. -/
theorem mem_timeline_of_mem_byLayer (hr : p.ResolvesTo r) {entry : Entry}
    (h : entry ∈ r.byLayer) : entry ∈ p.timeline := by
  rw [Resolved.byLayer, List.mem_filterMap] at h
  obtain ⟨i, -, hi⟩ := h
  rw [hr.timeline] at hi
  exact List.mem_of_getElem? hi

/-- The entries in the order of layers show elements. -/
theorem exists_layered (hr : p.ResolvesTo r) : ∃ layered, r.layered = .ok layered := by
  apply exists_mapM_eq_ok
  intro entry hentry
  obtain ⟨e, -, -, -, he⟩ := hr.shown entry (hr.mem_timeline_of_mem_byLayer hentry)
  exact ⟨_, by simp only [he, bind, Except.bind, pure, Except.pure]; rfl⟩

/-- What is layered are entries of the timeline. -/
theorem mem_timeline_of_mem_layered (hr : p.ResolvesTo r) {layered : List (Entry × Element)}
    (h : r.layered = .ok layered) {x : Entry × Element} (hx : x ∈ layered) :
    x.1 ∈ p.timeline := by
  obtain ⟨entry, hentry, hstep⟩ := exists_of_mem_of_mapM_eq_ok _ _ _ h x hx
  have hmem := hr.mem_timeline_of_mem_byLayer hentry
  obtain ⟨e, -, -, -, he⟩ := hr.shown entry hmem
  simp only [he, bind, Except.bind, pure, Except.pure, Except.ok.injEq] at hstep
  rwa [← hstep]

/-- The script of a resolved project consists of its clips, its entries and its composition. -/
theorem exists_statements {E : Type} (hr : p.ResolvesTo r) (settings : ScriptSettings)
    (effects : EffectRegistry E) :
    ∃ entries layered, r.entryStatements settings.defaultTextDuration = .ok entries ∧
      r.layered = .ok layered ∧ r.statements settings effects = .ok
        ([.importLibrary, .blank] ++ r.clipStatements settings effects ++
          entries.map .entry ++ [.blank] ++
          Script.compositionStatements r.project.outputName settings.canvas layered) := by
  obtain ⟨entries, hentries⟩ := hr.exists_entryStatements settings.defaultTextDuration
  obtain ⟨layered, hlayered⟩ := hr.exists_layered
  refine ⟨entries, layered, hentries, hlayered, ?_⟩
  simp [Resolved.statements, hentries, hlayered, bind, Except.bind, pure, Except.pure]

/-- The script of a resolved project is what is written for its statements. -/
theorem script_eq_render {E : Type} [TextEffect E] (hr : p.ResolvesTo r)
    (settings : ScriptSettings) (effects : EffectRegistry E) :
    ∃ statements, r.statements settings effects = .ok statements ∧
      r.script settings effects = .ok (Script.render statements) := by
  obtain ⟨entries, layered, -, -, hstatements⟩ := hr.exists_statements settings effects
  refine ⟨_, hstatements, ?_⟩
  rw [Resolved.script, hstatements]
  rfl

end Project.ResolvesTo

end Montage
