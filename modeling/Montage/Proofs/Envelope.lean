import Mathlib
import Montage.Build
import Montage.Proofs.Documents
import Montage.Proofs.Equations
import Montage.Proofs.Ranges
import Montage.Proofs.Scope

/-!
# Published documents

What a build publishes is the document of its project with three members more and with the keys of
all objects in order. The document is still one of the project: the additions have keys that no
project has, they can be passed over whatever their numbers read as, and a project is read back from
any order of its members. The additions can be trusted too. They tell whether a rule found an error,
and unless one did they are the script and the records of the resolved project.

A build measures files in a monad of the caller's choice, so the statement is about every result the
action can have (`SatisfiesM`, which comes only with the whole library). Nothing about the rules is
needed. Where they let a project pass that does not resolve, the build fails, and that is the only
way for it to fail.
-/

namespace Montage

namespace Json

/-! ## Sorted members -/

/-- Inserting a member by its key adds it. -/
theorem insertByKey_perm (m : String × Json) (members : List (String × Json)) :
    (insertByKey m members).Perm (m :: members) := by
  induction members with
  | nil => rfl
  | cons k ms ih =>
    rw [insertByKey]
    split_ifs
    · rfl
    · exact (ih.cons k).trans (.swap m k ms)

/-- The members of every object in the order of their keys. -/
def Arrangement.byKey : Arrangement where
  order members := members.foldr insertByKey []
  perm members := by
    induction members with
    | nil => rfl
    | cons m ms ih => exact (insertByKey_perm m _).trans (ih.cons m)

mutual

/-- Sorting a tree arranges it by key. -/
theorem sorted_eq : ∀ v : Json, v.sorted = Arrangement.byKey.apply v
  | array items => congrArg array (sortedItems_eq items)
  | object members => congrArg object (sortedMembers_eq members)
  | null | bool _ | int _ | real _ | string _ | loose | unnamed _ | malformed => rfl

/-- Sorting the trees of a list arranges them by key. -/
theorem sortedItems_eq : ∀ items : List Json,
    sortedItems items = Arrangement.byKey.applyItems items
  | [] => rfl
  | v :: vs => congrArg₂ List.cons (sorted_eq v) (sortedItems_eq vs)

/-- Sorting members puts them in the order of their keys. -/
theorem sortedMembers_eq : ∀ members : List (String × Json),
    sortedMembers members = Arrangement.byKey.order (Arrangement.byKey.applyMembers members)
  | [] => rfl
  | (k, v) :: ms =>
    congrArg₂ insertByKey (congrArg (k, ·) (sorted_eq v)) (sortedMembers_eq ms)

end

/-! ## What texts read as -/

/-- A tree that can be passed over as a member can be passed over. -/
theorem skippable_of_passable {v : Json} (h : v.passable = true) : v.skippable = true := by
  cases v with
  | unnamed w => exact absurd h Bool.false_ne_true
  | _ => exact h

/-- The leaf of a number is JSON, even where there is no double for it. -/
theorem passable_realLeaf (n : Decimal.Numeral) : (realLeaf n).passable = true := by
  unfold realLeaf
  split <;> rfl

/-- The leaf of a whole number is JSON. -/
theorem passable_wholeLeaf (negative : Bool) (ds : List Char) :
    (wholeLeaf negative ds).passable = true := by
  unfold wholeLeaf
  dsimp only
  split_ifs
  · rfl
  · exact passable_realLeaf _
  · rfl
  · exact passable_realLeaf _

mutual

/-- What the text of a tree reads as can be passed over, whatever the tree is. -/
theorem passable_reread : ∀ v : Json, v.reread.passable = true
  | int i => by
    rw [reread, leafOf_intText]
    exact passable_wholeLeaf _ _
  | real x => by
    rw [reread]
    rcases leafOf_realText x with h | ⟨n, h⟩
    · rw [h]
      rfl
    · rw [h]
      exact passable_realLeaf n
  | array items => everyItem_rereadItems items
  | object members => everyMember_rereadMembers members
  | unnamed v => passable_reread v
  | null | bool _ | string _ | loose | malformed => rfl

/-- What the texts of the trees of a list read as is JSON. -/
theorem everyItem_rereadItems :
    ∀ items : List Json, everyItem wellFormedLeaf (rereadItems items) = true
  | [] => rfl
  | v :: vs => by
    rw [rereadItems, everyItem, everyItem_rereadItems vs, Bool.and_true]
    exact skippable_of_passable (passable_reread v)

/-- What the texts of the values of members read as is JSON. -/
theorem everyMember_rereadMembers :
    ∀ members : List (String × Json), everyMember wellFormedLeaf (rereadMembers members) = true
  | [] => rfl
  | (_, v) :: ms => by
    rw [rereadMembers, everyMember, everyMember_rereadMembers ms, Bool.and_true]
    exact skippable_of_passable (passable_reread v)

end

/-! ## Published trees -/

/-- What the text of a tree reads as that was sorted before it was written. -/
def published (v : Json) : Json :=
  v.sorted.reread

/-- The members of a published object. -/
def publishedMembers (members : List (String × Json)) : List (String × Json) :=
  (Arrangement.byKey.arranged members).map fun m => (m.1, m.2.reread)

/-- A published object has the published members. -/
theorem published_object (members : List (String × Json)) :
    (object members).published = object (publishedMembers members) := by
  rw [published, sorted_eq, Arrangement.apply_object, reread, rereadMembers_eq, publishedMembers]

/-- The items of an array are published one by one. -/
theorem published_array (items : List Json) :
    (array items).published = array (items.map published) := by
  rw [published, sorted_eq, Arrangement.apply_array, reread, rereadItems_eq, List.map_map]
  congr 1
  exact List.map_congr_left fun v _ => by rw [Function.comp_apply, published, sorted_eq]

/-- The members of a published object are its members, published. -/
theorem mem_publishedMembers {members : List (String × Json)} {m : String × Json} :
    m ∈ publishedMembers members ↔ ∃ k ∈ members, (k.1, k.2.published) = m := by
  simp only [publishedMembers, List.mem_map, Arrangement.mem_arranged, published, sorted_eq]
  constructor
  · rintro ⟨_, ⟨k, hk, rfl⟩, rfl⟩
    exact ⟨k, hk, rfl⟩
  · rintro ⟨k, hk, rfl⟩
    exact ⟨_, ⟨k, hk, rfl⟩, rfl⟩

/-- Publishing an object keeps its keys. -/
theorem nodup_publishedMembers {members : List (String × Json)}
    (h : (members.map Prod.fst).Nodup) : ((publishedMembers members).map Prod.fst).Nodup := by
  rw [publishedMembers, List.map_map]
  exact (Arrangement.byKey.map_fst_arranged members).nodup_iff.2 h

/-- A key with one value is looked up. -/
theorem lookup_eq_some {members : List (String × Json)} {key : String} {v : Json}
    (h : (key, v) ∈ members) (hunique : ∀ w, (key, w) ∈ members → w = v) :
    members.lookup key = some v := by
  induction members with
  | nil => exact absurd h List.not_mem_nil
  | cons m ms ih =>
    obtain ⟨k, u⟩ := m
    by_cases hkey : key = k
    · subst hkey
      rw [List.lookup_cons_self, hunique u List.mem_cons_self]
    · have hmem : (key, v) ∈ ms := by
        rcases List.mem_cons.1 h with heq | hmem
        · exact absurd (Prod.mk.inj heq).1 hkey
        · exact hmem
      rw [List.lookup_cons, beq_eq_false_iff_ne.2 hkey]
      exact ih hmem fun w hw => hunique w (List.mem_cons_of_mem _ hw)

/-- A member whose key has no other value is found in the published object. -/
theorem member?_published {members : List (String × Json)} {key : String} {v : Json}
    (h : (key, v) ∈ members) (hunique : ∀ w, (key, w) ∈ members → w = v) :
    (object members).published.member? key = some v.published := by
  rw [published_object, member?]
  refine lookup_eq_some (mem_publishedMembers.2 ⟨_, h, rfl⟩) fun w hw => ?_
  obtain ⟨k, hk, heq⟩ := mem_publishedMembers.1 hw
  obtain ⟨rfl, rfl⟩ := Prod.mk.inj heq
  rw [hunique k.2 hk]

/-- What is kept is published as it was arranged. -/
theorem Kept.published_eq {n : ℕ} {v : Json} (h : Kept n v) :
    v.published = Arrangement.byKey.apply v := by
  rw [published, sorted_eq, (h.apply Arrangement.byKey).reread]

end Json

open Json

/-! ## Records and documents -/

/-- A record shows its name in the published document. -/
theorem TimelineRecord.member?_published_encode (x : TimelineRecord) :
    x.encode.published.member? "name" = some (.string x.name) := by
  have hoptional {α : Type} (key : String) (encode : α → Json) (o : Option α) (w : Json)
      (hkey : "name" ≠ key) : ("name", w) ∉ optionalMember key encode o := by
    cases o <;> simp [optionalMember, hkey]
  have helement (w : Json) : ("name", w) ≠ x.element.member := by
    cases x.element <;> simp [ElementView.member]
  refine member?_published (v := .string x.name) (by simp) fun w hw => ?_
  simpa [hoptional, helement] using hw

namespace Change

/-- A member of the published document, if its text is JSON to the end. -/
def member? (c : Change) (key : String) : Option Json :=
  let document := Json.read c.content
  if document.complete then document.root.member? key else none

/-- The members of a published document, before they are sorted. -/
def fields (p : Project) (valid : Bool) (script : String) (records : List TimelineRecord) :
    List (String × Json) :=
  p.members ++ [("$pythonCode", .string script),
    ("$timelineElementInfos", .array (records.map TimelineRecord.encode)),
    ("$isValid", .bool valid)]

section Envelope

variable {p : Project} {valid : Bool} {script : String} {records : List TimelineRecord}

/-- No member of a published document hides another one. -/
theorem nodup_fields : ((fields p valid script records).map Prod.fst).Nodup := by
  simp [fields, Project.members]

/-- A published document is read as its sorted members. -/
theorem reread_envelope :
    (envelope p valid script records).reread =
      object (publishedMembers (fields p valid script records)) :=
  published_object (fields p valid script records)

/-- A project is read back from its published document, whose keys are in another order and which
has more members than a project. -/
theorem parse_envelope (hfloats : ∀ x ∈ p.floats, Rereads x) (style : Style) :
    Project.parse ((envelope p valid script records).text style) = .ok p := by
  have hrecorded : Recorded .byKey 5 Project.record p.members p := Project.recorded hfloats
  -- the additions have keys of their own, so under the keys of a project nothing is added
  have hcarries : Carries .byKey Project.record.keys p.members
      (publishedMembers (fields p valid script records)) := by
    refine ⟨nodup_publishedMembers nodup_fields, fun m hm => ?_, fun key hkey _ => hkey⟩
    rw [← (hrecorded.kept m hm).published_eq]
    exact mem_publishedMembers.2 ⟨m, List.mem_append_left _ hm, rfl⟩
  have hmembers : Project.record.members Context.text.enter
      (publishedMembers (fields p valid script records)) = .ok p := by
    refine hrecorded.fills.members_eq_ok (by decide) hcarries fun m hm _ => ?_
    obtain ⟨k, -, rfl⟩ := mem_publishedMembers.1 hm
    exact passable_reread _
  rw [Project.parse, decodeText_text, reread_envelope]
  exact congrArg (Except.mapError Error.document) hmembers

/-- The members of a published document are found in it. -/
theorem member?_eq_some {c : Change}
    (hcontent : c.content = (envelope p valid script records).text .compact) {key : String}
    {v : Json} (h : (key, v) ∈ fields p valid script records) :
    c.member? key = some v.published := by
  have hunique (w : Json) (hw : (key, w) ∈ fields p valid script records) : w = v :=
    (Prod.mk.inj (List.inj_on_of_nodup_map nodup_fields hw h rfl)).2
  rw [member?, hcontent, read_text]
  exact member?_published h hunique

end Envelope

end Change

/-! ## Builds -/

/-- Some finding makes a project unusable exactly when one is an error. -/
theorem Diagnostic.anyError_eq_true_iff {ds : List Diagnostic} :
    anyError ds = true ↔ ∃ d ∈ ds, d.severity = .error := by
  simp [anyError, isError]

namespace Builder

variable {m : Type → Type} {E : Type} [TextEffect E]

/-- A change that says of a project what a builder finds out about it. -/
structure Publishes (b : Builder m E) (uri : String) (p : Project) (c : Change) : Prop where
  uri : c.uri = uri
  diagnostics : c.diagnostics = p.diagnoseWith b.rules
  /-- The document is still one of the project. -/
  project : Project.parse c.content = .ok p
  valid : c.member? "$isValid" = some (.bool c.isValid)
  invalid_iff : c.isValid = false ↔ ∃ d ∈ c.diagnostics, d.severity = .error
  /-- Nothing is made of a project with errors. -/
  withheld : c.isValid = false → c.member? "$pythonCode" = some (.string "") ∧
    c.member? "$timelineElementInfos" = some (.array [])
  /-- A project without errors comes with its script and a record for each entry, in order. -/
  delivered : c.isValid = true → ∃ r script known records,
    p.resolve = .ok r ∧ r.script b.settings b.effects = .ok script ∧
    r.records known b.settings.defaultTextDuration = .ok records ∧
    c.member? "$pythonCode" = some (.string script) ∧
    ∃ infos, c.member? "$timelineElementInfos" = some (.array infos) ∧
      infos = records.map (fun x => x.encode.published) ∧
      infos.map (Json.member? "name") = p.timeline.map fun e => some (.string e.name)

/-- A build tells the truth: what it publishes is faithful, and it fails only when no rule found an
error and the project does not resolve. -/
def Faithful (b : Builder m E) (uri : String) (p : Project) : Except Error Change → Prop
  | .ok c => b.Publishes uri p c
  | .error e => (∀ d ∈ p.diagnoseWith b.rules, d.severity ≠ .error) ∧ p.resolve = .error e

section Publishing

variable (b : Builder m E) (uri : String) (p : Project)

omit [TextEffect E] in
/-- What is published is valid when no rule found an error. -/
theorem isValid_publish (script : String) (records : List TimelineRecord) :
    (b.publish uri p script records).isValid = !Diagnostic.anyError (p.diagnoseWith b.rules) :=
  rfl

omit [TextEffect E] in
/-- What is published is not valid exactly when some finding is an error. -/
theorem isValid_publish_eq_false_iff (script : String) (records : List TimelineRecord) :
    (b.publish uri p script records).isValid = false ↔
      ∃ d ∈ p.diagnoseWith b.rules, d.severity = .error := by
  rw [isValid_publish, Bool.not_eq_false', Diagnostic.anyError_eq_true_iff]

omit [TextEffect E] in
/-- A published script and published records are found in the document. -/
theorem member?_publish (script : String) (records : List TimelineRecord) :
    (b.publish uri p script records).member? "$pythonCode" = some (.string script) ∧
      (b.publish uri p script records).member? "$timelineElementInfos" =
        some (.array (records.map fun x => x.encode.published)) ∧
      (b.publish uri p script records).member? "$isValid" =
        some (.bool (b.publish uri p script records).isValid) := by
  have hcontent : (b.publish uri p script records).content =
      (Change.envelope p (b.publish uri p script records).isValid script records).text .compact :=
    rfl
  have hmember (key : String) (v : Json)
      (h : (key, v) ∈ Change.fields p (b.publish uri p script records).isValid script records) :
      (b.publish uri p script records).member? key = some v.published :=
    Change.member?_eq_some hcontent h
  have hinfos := hmember "$timelineElementInfos" (.array (records.map TimelineRecord.encode))
    (by simp [Change.fields])
  rw [published_array, List.map_map] at hinfos
  exact ⟨hmember "$pythonCode" (.string script) (by simp [Change.fields]), hinfos,
    hmember "$isValid" (.bool _) (by simp [Change.fields])⟩

variable {b p}

/-- A project with errors is published without script and records. -/
theorem publishes_withheld (hfloats : ∀ x ∈ p.floats, Rereads x)
    (herror : Diagnostic.anyError (p.diagnoseWith b.rules) = true) :
    b.Publishes uri p (b.publish uri p "" []) := by
  obtain ⟨hscript, hinfos, hvalid⟩ := b.member?_publish uri p "" []
  exact {
    uri := rfl
    diagnostics := rfl
    project := Change.parse_envelope hfloats .compact
    valid := hvalid
    invalid_iff := b.isValid_publish_eq_false_iff uri p "" []
    withheld := fun _ => ⟨hscript, hinfos⟩
    delivered := fun h => by
      rw [isValid_publish, herror] at h
      exact absurd h Bool.false_ne_true }

/-- A project that resolves is published with its script and its records. -/
theorem publishes_delivered (hfloats : ∀ x ∈ p.floats, Rereads x)
    (herror : Diagnostic.anyError (p.diagnoseWith b.rules) = false) {r : Resolved}
    (hr : p.ResolvesTo r) {script : String} (hscript : r.script b.settings b.effects = .ok script)
    {known : KnownDurations Float} {records : List TimelineRecord}
    (hrecords : r.records known b.settings.defaultTextDuration = .ok records) :
    b.Publishes uri p (b.publish uri p script records) := by
  obtain ⟨hcode, hinfos, hvalid⟩ := b.member?_publish uri p script records
  obtain ⟨spans, hspans⟩ := hr.exists_schedule known b.settings.defaultTextDuration
  have hnames : records.map TimelineRecord.name = p.timeline.map Entry.name := by
    rw [Resolved.map_name_records hspans hrecords, hr.timeline]
  have hshown : (records.map fun x => x.encode.published).map (Json.member? "name") =
      p.timeline.map fun e => some (.string e.name) := by
    simpa [Function.comp_def, TimelineRecord.member?_published_encode] using
      congrArg (List.map fun name => some (Json.string name)) hnames
  exact {
    uri := rfl
    diagnostics := rfl
    project := Change.parse_envelope hfloats .compact
    valid := hvalid
    invalid_iff := b.isValid_publish_eq_false_iff uri p script records
    withheld := fun h => by
      rw [isValid_publish, herror] at h
      exact absurd h.symm Bool.false_ne_true
    delivered := fun _ => ⟨r, script, known, records, hr.resolve, hscript, hrecords, hcode, _,
      hinfos, rfl, hshown⟩ }

end Publishing

/-- Whatever the rules, the settings, the effects and the way files are measured, every result of
building a project is faithful to it. As for the plain document, the text of each number of the
project is read as the same double. -/
theorem build_is_faithful [Monad m] [LawfulMonad m] (b : Builder m E) (uri : String) (p : Project)
    (hfloats : ∀ x ∈ p.floats, Rereads x) : SatisfiesM (b.Faithful uri p) (b.build uri p) := by
  cases herror : Diagnostic.anyError (p.diagnoseWith b.rules) with
  | true =>
    rw [build, if_pos herror]
    exact SatisfiesM.pure (publishes_withheld uri hfloats herror)
  | false =>
    rw [build, if_neg (by simp [herror])]
    cases hresolve : p.resolve with
    | error e =>
      have hcompile : p.compile b.settings b.effects = .error e := by
        simp [Project.compile, hresolve, bind, Except.bind]
      rw [hcompile]
      refine SatisfiesM.pure ⟨fun d hd hseverity => ?_, hresolve⟩
      have hfound := Diagnostic.anyError_eq_true_iff.2 ⟨d, hd, hseverity⟩
      exact absurd (herror.symm.trans hfound) Bool.false_ne_true
    | ok r =>
      -- once a project resolves, neither its script nor its records can fail
      have hr := Project.resolvesTo_of_resolve hresolve
      obtain ⟨script, hscript⟩ : ∃ script, r.script b.settings b.effects = .ok script :=
        (hr.script_eq_render b.settings b.effects).imp' _ fun _ h => h.2
      have hcompile : p.compile b.settings b.effects = .ok (r, script) := by
        simp [Project.compile, hresolve, hscript, bind, Except.bind, pure, Except.pure]
      rw [hcompile]
      refine SatisfiesM.trivial.bind fun known _ => ?_
      obtain ⟨records, hrecords⟩ := hr.exists_records known b.settings.defaultTextDuration
      rw [hrecords]
      exact SatisfiesM.pure (publishes_delivered uri hfloats herror hr hscript hrecords)

/-- A builder with two rules and a probe that knows one file. -/
def studio : Builder Id LetterEffect where
  effects := .standard
  rules := Rule.all.take 2
  measure := some fun path =>
    if path = "/media/audio/piano.wav" then .ok 12.5 else .error (.probeFailed path "no such file")
  directory := some "/media"

/-- The studio builds the concert faithfully. -/
theorem studio_is_faithful : (∀ x ∈ Project.recital.floats, Rereads x) ∧
    studio.Faithful "file:///recital.json" .recital
      ((studio.build "file:///recital.json" .recital).run .empty).1 := by
  have hfloats : ∀ x ∈ Project.recital.floats, Rereads x := by
    decide +kernel
  have hbuild := build_is_faithful studio "file:///recital.json" .recital hfloats
  have hresult := SatisfiesM_StateT_eq.1 hbuild .empty
  rw [SatisfiesM_Id_eq] at hresult
  exact ⟨hfloats, hresult⟩

end Builder

end Montage
