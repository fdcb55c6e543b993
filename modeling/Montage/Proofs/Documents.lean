import Montage.Document.Project
import Montage.Proofs.Decoding
import Montage.Proofs.Times
import Montage.Proofs.Usable

/-!
# Project documents are read back

For every type that a document is made of, what its writer writes is what its reader reads. The laws
follow the types: fields make records, records make choices, and each law leaves open how the
members of objects are arranged and how much room there is, so that the laws of the parts fit into
the law of the whole.

Two places need more than that. A choice that is told by its shape alone is read by trial, so the
shapes before the right one must fail: a relative start has no instant, and an alignment is no
number. And a field that is left out must be one whose default is the value that was left out.
-/

namespace Montage

/-! ## Timestamps -/

open Json

variable {A : Arrangement} {n : ℕ}

/-- A timestamp is read back from its string. -/
theorem Timestamp.reads (t : Timestamp) : Reads A n Timestamp.decode t.encode t where
  kept := kept_string n t.text
  decoded ctx _ := by
    change Timestamp.decode ctx (string t.text) = _
    simp only [Timestamp.decode, Timestamp.text, String.toList_ofList, t.ofChars?_toChars]

/-- An offset is read back from its string. -/
theorem Offset.reads (o : Offset) : Reads A n Offset.decode o.encode o where
  kept := kept_string n o.text
  decoded ctx _ := by
    change Offset.decode ctx (string o.text) = _
    simp only [Offset.decode, Offset.text, String.toList_ofList, o.ofChars?_toChars]

/-! ## Options -/

/-- A member that may be left out is kept if its value is. -/
theorem kept_optionalMember {α : Type} {key : String} {encode : α → Json} {o : Option α}
    (h : ∀ a, o = some a → Kept n (encode a)) :
    ∀ m ∈ optionalMember key encode o, Kept n m.2 := by
  cases o with
  | none => simp [optionalMember]
  | some a => simpa [optionalMember] using h a rfl

/-- A frame is read back. -/
theorem PixelSize.reads (s : PixelSize) : Reads A (n + 1) PixelSize.decode s.encode s := by
  refine Recorded.decode ⟨by simp, ?_, ?_⟩
  · simpa using ⟨kept_uint32 n s.width, kept_uint32 n s.height⟩
  · exact ((fills_field (by simp) (reads_uint32 s.width) _ _).map _).seq
      (fills_field (by simp) (reads_uint32 s.height) _ _)

/-- A horizontal alignment is a name. -/
theorem HorizontalAlign.exists_name (a : HorizontalAlign) : ∃ s, a.encode = string s := by
  cases a <;> exact ⟨_, rfl⟩

/-- A vertical alignment is a name. -/
theorem VerticalAlign.exists_name (a : VerticalAlign) : ∃ s, a.encode = string s := by
  cases a <;> exact ⟨_, rfl⟩

/-- A horizontal alignment is read back. -/
theorem HorizontalAlign.reads (a : HorizontalAlign) : Reads A n decode a.encode a := by
  cases a <;> exact reads_name rfl

/-- A vertical alignment is read back. -/
theorem VerticalAlign.reads (a : VerticalAlign) : Reads A n decode a.encode a := by
  cases a <;> exact reads_name rfl

namespace AxisPosition

variable {B : Type} {align : Decoder B} {encode : B → Json}
  (hname : ∀ b, ∃ s, encode b = string s)
include hname

/-- A coordinate or an alignment is not null. -/
theorem isNull_encode (x : AxisPosition B) : isNull (AxisPosition.encode encode x) = false := by
  cases x with
  | pixels i => rfl
  | aligned b =>
    obtain ⟨s, hs⟩ := hname b
    rw [AxisPosition.encode, hs]
    rfl

/-- A coordinate or an alignment is read back: an alignment is a name, which no coordinate is. -/
theorem reads (halign : ∀ b, Reads A n align (encode b) b) (x : AxisPosition B) :
    Reads A n (AxisPosition.decode align) (AxisPosition.encode encode x) x := by
  cases x with
  | pixels i => exact reads_first ((reads_int32 i).map pixels) _
  | aligned b =>
    refine reads_later ?_ (reads_first ((halign b).map aligned) _)
    obtain ⟨s, hs⟩ := hname b
    rw [AxisPosition.encode, hs]
    rfl

end AxisPosition

/-- A position is read back, also with an axis that is not set. -/
theorem Position.reads (p : Position) : Reads A (n + 1) Position.decode p.encode p := by
  have hx (x : AxisPosition HorizontalAlign) :
      Reads A n (AxisPosition.decode HorizontalAlign.decode)
        (AxisPosition.encode HorizontalAlign.encode x) x :=
    AxisPosition.reads HorizontalAlign.exists_name HorizontalAlign.reads x
  have hy (y : AxisPosition VerticalAlign) :
      Reads A n (AxisPosition.decode VerticalAlign.decode)
        (AxisPosition.encode VerticalAlign.encode y) y :=
    AxisPosition.reads VerticalAlign.exists_name VerticalAlign.reads y
  obtain ⟨x, y⟩ := p
  refine Recorded.decode ⟨?_, ?_, (Fills.map (fills_optional ?_ ?_
    (AxisPosition.isNull_encode HorizontalAlign.exists_name) fun x _ => hx x) _).seq
    (fills_optional ?_ ?_ (AxisPosition.isNull_encode VerticalAlign.exists_name) fun y _ => hy y)⟩
  · cases x <;> cases y <;> simp [optionalMember]
  · exact List.forall_mem_append.2 ⟨kept_optionalMember fun x _ => (hx x).kept,
      kept_optionalMember fun y _ => (hy y).kept⟩
  · rintro x rfl
    simp [optionalMember]
  · rintro rfl
    cases y <;> simp [optionalMember]
  · rintro y rfl
    simp [optionalMember]
  · rintro rfl
    cases x <;> simp [optionalMember]

/-- A fade is read back. -/
theorem Transition.reads (t : Transition) : Reads A n decode t.encode t := by
  cases t <;> exact reads_name rfl

/-- The name of a frame is read back. -/
theorem ResolutionPreset.reads (r : ResolutionPreset) : Reads A n decode r.encode r := by
  cases r
  exact reads_name rfl

/-- The numbers of a video option that need not be whole. -/
def VideoOption.floats : VideoOption → List Float
  | brightness x | scale x | opacity x | contrast x | saturation x | rotation x => [x]
  | transition _ | resolution _ | size _ | position _ => []

/-- A video option is read back. -/
theorem VideoOption.reads {o : VideoOption} (h : ∀ x ∈ o.floats, Rereads x) :
    Reads A (n + 2) decode o.encode o := by
  cases o with
  | brightness x | scale x | opacity x | contrast x | saturation x | rotation x =>
    exact reads_kind rfl ((reads_float (h x (by simp [floats]))).map _)
  | transition t => exact reads_kind rfl (t.reads.map _)
  | resolution preset => exact reads_kind rfl (preset.reads.map _)
  | size s => exact reads_kind rfl (s.reads.map _)
  | position p => exact reads_kind rfl (p.reads.map _)

/-- The numbers of an audio option that need not be whole. -/
def AudioOption.floats : AudioOption → List Float
  | volume x | fadeIn x | fadeOut x => [x]
  | stereoVolume v => [v.left, v.right]
  | normalize => []

/-- The volumes of both ears are read back. -/
theorem StereoVolume.reads {v : StereoVolume} (hleft : Rereads v.left) (hright : Rereads v.right) :
    Reads A (n + 1) StereoVolume.decode v.encode v := by
  refine Recorded.decode ⟨by simp, ?_, ?_⟩
  · simpa using ⟨hleft.kept n, hright.kept n⟩
  · exact ((fills_field (by simp) (reads_float hleft) _ _).map _).seq
      (fills_field (by simp) (reads_float hright) _ _)

/-- An audio option is read back. -/
theorem AudioOption.reads {o : AudioOption} (h : ∀ x ∈ o.floats, Rereads x) :
    Reads A (n + 2) decode o.encode o := by
  cases o with
  | volume x | fadeIn x | fadeOut x =>
    exact reads_kind rfl ((reads_float (h x (by simp [floats]))).map _)
  | stereoVolume v =>
    have hv : Reads A (n + 1) StereoVolume.decode v.encode v :=
      StereoVolume.reads (h v.left (by simp [floats])) (h v.right (by simp [floats]))
    exact reads_kind rfl (hv.map _)
  | normalize => exact reads_bare_kind rfl

/-- An alignment of lines is read back. -/
theorem TextAlign.reads (a : TextAlign) : Reads A n decode a.encode a := by
  cases a <;> exact reads_name rfl

/-- The name of an effect is read back. -/
theorem LetterEffect.reads (e : LetterEffect) : Reads A n decode e.encode e := by
  cases e <;> exact reads_name rfl

/-- A text option is read back. -/
theorem TextOption.reads (o : TextOption) : Reads A (n + 2) decode o.encode o := by
  cases o with
  | font s | fontColor s | background s => exact reads_kind rfl ((reads_string s).map _)
  | fontSize i => exact reads_kind rfl ((reads_uint32 i).map _)
  | alignment a => exact reads_kind rfl (a.reads.map _)
  | size s => exact reads_kind rfl (s.reads.map _)
  | position p => exact reads_kind rfl (p.reads.map _)
  | effect e => exact reads_kind rfl (e.reads.map _)

/-! ## Elements -/

section Elements

variable {O : Type} {d : Decoder O} {encode : O → Json}

/-- Options that are always written are read where they might be missing. -/
theorem fills_options {options : List O} {fields : List (String × Json)}
    (hfields : encodeOptions encode options ∈ fields)
    (h : ∀ o ∈ options, Reads A n d (encode o) o) :
    Fills A (n + 1) (optionsField d) fields options :=
  fills_field hfields (reads_list h) _ _

/-- A video file is read back from its fields. -/
theorem VideoFile.recorded {v : VideoFile}
    (h : ∀ o ∈ v.options, Reads A n VideoOption.decode o.encode o) :
    Recorded A (n + 1) record v.members v := by
  have hsize (s : PixelSize) : Reads A (n + 1) PixelSize.decode s.encode s := s.reads
  have hoptions := reads_list h
  obtain ⟨name, path, size, options⟩ := v
  refine ⟨?_, ?_, ((((fills_field ?_ (reads_string name) _ _).map _).seq
    (fills_field ?_ (reads_string path) _ _)).seq
    (fills_optional ?_ ?_ (fun _ => rfl) fun s _ => hsize s)).seq (fills_options ?_ h)⟩
  · cases size <;> simp [members, optionalMember, encodeOptions]
  · refine List.forall_mem_append.2 ⟨List.forall_mem_append.2 ⟨?_, ?_⟩, ?_⟩
    · simpa using ⟨kept_string _ name, kept_string _ path⟩
    · exact kept_optionalMember fun s _ => (hsize s).kept
    · simpa [encodeOptions] using hoptions.kept
  · simp [members]
  · simp [members]
  · rintro s rfl
    simp [members, optionalMember]
  · rintro rfl
    simp [members, optionalMember, encodeOptions]
  · simp [members]

/-- An audio file is read back from its fields. -/
theorem AudioFile.recorded {a : AudioFile}
    (h : ∀ o ∈ a.options, Reads A n AudioOption.decode o.encode o) :
    Recorded A (n + 1) record a.members a where
  nodup := by simp [members, encodeOptions]
  kept := by
    simpa [members, encodeOptions] using
      ⟨kept_string _ a.name, kept_string _ a.path, (reads_list h).kept⟩
  fills := (((fills_field (by simp [members]) (reads_string a.name) _ _).map _).seq
    (fills_field (by simp [members]) (reads_string a.path) _ _)).seq
    (fills_options (by simp [members]) h)

/-- A piece is read back from its fields. -/
theorem Extract.recorded {e : Extract O} (h : ∀ o ∈ e.options, Reads A n d (encode o) o) :
    Recorded A (n + 1) (record d) (e.members encode) e where
  nodup := by simp [members, encodeOptions]
  kept := by
    simpa [members, encodeOptions] using ⟨kept_string _ e.name, kept_string _ e.source,
      kept_string _ e.start.text, kept_string _ e.stop.text, (reads_list h).kept⟩
  fills := (((((fills_field (by simp [members]) (reads_string e.name) _ _).map _).seq
    (fills_field (by simp [members]) (reads_string e.source) _ _)).seq
    (fills_field (by simp [members]) e.start.reads _ _)).seq
    (fills_field (by simp [members]) e.stop.reads _ _)).seq
    (fills_options (by simp [members]) h)

/-- A text is read back from its fields. -/
theorem TextBlock.recorded (t : TextBlock) : Recorded A (n + 3) record t.members t := by
  have h (o : TextOption) (_ : o ∈ t.options) : Reads A (n + 2) TextOption.decode o.encode o :=
    o.reads
  exact {
    nodup := by simp [members, encodeOptions]
    kept := by
      simpa [members, encodeOptions] using
        ⟨kept_string _ t.name, kept_string _ t.text, (reads_list h).kept⟩
    fills := (((fills_field (by simp [members]) (reads_string t.name) _ _).map _).seq
      (fills_field (by simp [members]) (reads_string t.text) _ _)).seq
      (fills_options (by simp [members]) h) }

end Elements

/-- The numbers of an element that need not be whole. -/
def Element.floats : Element → List Float
  | video v => v.options.flatMap VideoOption.floats
  | videoExtract e => e.options.flatMap VideoOption.floats
  | audio a => a.options.flatMap AudioOption.floats
  | audioExtract e => e.options.flatMap AudioOption.floats
  | text _ | subtitle _ => []

/-- No element has a field with the name of its tag. -/
theorem Element.type_notMem_members (e : Element) : "type" ∉ e.members.map Prod.fst := by
  cases e with
  | video v =>
    cases hsize : v.size <;>
      simp [members, VideoFile.members, optionalMember, encodeOptions, hsize]
  | videoExtract e => simp [members, Extract.members, encodeOptions]
  | audio a => simp [members, AudioFile.members, encodeOptions]
  | audioExtract e => simp [members, Extract.members, encodeOptions]
  | text t => simp [members, TextBlock.members, encodeOptions]
  | subtitle t => simp [members, TextBlock.members, encodeOptions]

/-- The video options of a list are read back. -/
theorem VideoOption.reads_of_mem {options : List VideoOption}
    (h : ∀ x ∈ options.flatMap VideoOption.floats, Rereads x) (o : VideoOption) (ho : o ∈ options) :
    Reads A (n + 2) VideoOption.decode o.encode o :=
  VideoOption.reads fun x hx => h x (List.mem_flatMap.2 ⟨o, ho, hx⟩)

/-- The audio options of a list are read back. -/
theorem AudioOption.reads_of_mem {options : List AudioOption}
    (h : ∀ x ∈ options.flatMap AudioOption.floats, Rereads x) (o : AudioOption) (ho : o ∈ options) :
    Reads A (n + 2) AudioOption.decode o.encode o :=
  AudioOption.reads fun x hx => h x (List.mem_flatMap.2 ⟨o, ho, hx⟩)

/-- An element is read back. -/
theorem Element.reads {e : Element} (h : ∀ x ∈ e.floats, Rereads x) :
    Reads A (n + 4) decode e.encode e := by
  have htype := e.type_notMem_members
  cases e with
  | video v => exact ((VideoFile.recorded (VideoOption.reads_of_mem h)).map _).tagged htype rfl
  | videoExtract e => exact ((Extract.recorded (VideoOption.reads_of_mem h)).map _).tagged htype rfl
  | audio a => exact ((AudioFile.recorded (AudioOption.reads_of_mem h)).map _).tagged htype rfl
  | audioExtract e => exact ((Extract.recorded (AudioOption.reads_of_mem h)).map _).tagged htype rfl
  | text t => exact (t.recorded.map _).tagged htype rfl
  | subtitle t => exact (t.recorded.map _).tagged htype rfl

/-! ## The timeline -/

/-- An end of an entry is read back. -/
theorem Anchor.reads (a : Anchor) : Reads A n decode a.encode a := by
  cases a <;> exact reads_name rfl

/-- A relative start is read back from its fields. -/
theorem Placement.recorded_relative (target : String) (anchor : Anchor) (offset : Option Offset) :
    Recorded A n relativeRecord
      ([("relative_to", .string target), ("anchor", anchor.encode)] ++
        optionalMember "offset" Offset.encode offset) (relative target anchor offset) := by
  refine ⟨?_, ?_, (((fills_field ?_ (reads_string target) _ _).map _).seq
    (fills_field ?_ anchor.reads _ _)).seq
    (fills_optional ?_ ?_ (fun _ => rfl) fun o _ => o.reads)⟩
  · cases offset <;> simp [optionalMember]
  · refine List.forall_mem_append.2 ⟨?_, kept_optionalMember fun o _ => kept_string n o.text⟩
    have hanchor : Reads A n Anchor.decode anchor.encode anchor := anchor.reads
    simpa using ⟨kept_string n target, hanchor.kept⟩
  · simp
  · simp
  · rintro o rfl
    simp [optionalMember]
  · rintro rfl
    simp [optionalMember]

/-- Fields without an instant are no start at an instant. -/
theorem Placement.toOption_fixed_eq_none {fields : List (String × Json)} {ctx : Context}
    (h : "at" ∉ fields.map Prod.fst) :
    (fixedRecord.objectOnly ctx (A.apply (object fields))).toOption = none := by
  have hmembers : "at" ∉ (A.arranged fields).map Prod.fst := fun hmem =>
    h ((A.map_fst_arranged fields).mem_iff.1 hmem)
  rw [A.apply_object]
  refine toOption_members_eq_none (e := ((A.arranged fields).length, .unreadable)) ?_
  change Reading.join (.ok fixed) ((Record.field "at" Timestamp.decode).ofMembers _ _) = _
  simp only [Record.field, Record.fieldWith, occurrences_eq_nil hmembers, Reading.join]

/-- A placement is read back in the style it was written in. -/
theorem Placement.reads (p : Placement) : Reads A (n + 1) decode p.encode p := by
  cases p with
  | fixed instant =>
    have hinstant : Reads A n Timestamp.decode instant.encode instant := instant.reads
    refine reads_first (Recorded.objectOnly ⟨by simp, ?_, (fills_field ?_ hinstant _ _).map _⟩) _
    · simpa using hinstant.kept
    · simp
  | relative target anchor offset =>
    refine reads_later (toOption_fixed_eq_none ?_)
      (reads_first (recorded_relative target anchor offset).objectOnly _)
    cases offset <;> simp [optionalMember]
  | implicit =>
    have himplicit : Reads A (n + 1) decodeImplicit null implicit :=
      ⟨kept_null _, fun _ _ => rfl⟩
    exact reads_later rfl (reads_later rfl (reads_first himplicit _))

/-- A stacking relation is read back. -/
theorem LayerRelation.reads (r : LayerRelation) : Reads A (n + 1) decode r.encode r := by
  cases r with
  | above target => exact reads_keyed rfl ((reads_string target).map _)
  | under target => exact reads_keyed rfl ((reads_string target).map _)

/-- An entry is read back, also with what it leaves out. -/
theorem Entry.reads (e : Entry) : Reads A (n + 2) decode e.encode e := by
  obtain ⟨name, element, placement, duration, layer⟩ := e
  have hplacement : Reads A (n + 1) Placement.decode placement.encode placement := placement.reads
  have hlayer (r : LayerRelation) : Reads A (n + 1) LayerRelation.decode r.encode r := r.reads
  refine Recorded.decode ⟨?_, ?_, (((((fills_field ?_ (reads_string name) _ _).map _).seq
    (fills_field ?_ (reads_string element) _ _)).seq ?_).seq
    (fills_optional ?_ ?_ (fun _ => rfl) fun t _ => t.reads)).seq
    (fills_optional ?_ ?_ (fun r => by cases r <;> rfl) fun r _ => hlayer r)⟩
  · cases placement <;> cases duration <;> cases layer <;>
      simp [Placement.isImplicit, optionalMember]
  · refine List.forall_mem_append.2 ⟨List.forall_mem_append.2 ⟨List.forall_mem_append.2 ⟨?_, ?_⟩,
      kept_optionalMember fun t _ => kept_string _ t.text⟩,
      kept_optionalMember fun r _ => (hlayer r).kept⟩
    · simpa using ⟨kept_string _ name, kept_string _ element⟩
    · split_ifs
      · simp
      · simpa using hplacement.kept
  · simp
  · simp
  · -- an implicit placement is the default of the field it leaves out
    by_cases himplicit : placement.isImplicit = true
    · obtain rfl : placement = .implicit := by
        cases placement with
        | implicit => rfl
        | fixed | relative => exact absurd himplicit Bool.false_ne_true
      refine fills_default ?_ _ _ _
      cases duration <;> cases layer <;> simp [Placement.isImplicit, optionalMember]
    · exact fills_field (by simp [himplicit]) hplacement _ _
  · rintro t rfl
    simp [optionalMember]
  · rintro rfl
    cases layer <;> cases placement <;> simp [Placement.isImplicit, optionalMember]
  · rintro r rfl
    simp [optionalMember]
  · rintro rfl
    cases duration <;> cases placement <;> simp [Placement.isImplicit, optionalMember]

/-! ## Projects -/

/-- A group is read back from its fields. -/
theorem Group.recorded {O : Type} {d : Decoder O} {encode : O → Json} {g : Group O}
    (h : ∀ o ∈ g.options, Reads A n d (encode o) o) :
    Recorded A (n + 1) (record d) (g.fields encode) g := by
  have hmembers : Reads A (n + 1) (asList asString) (array (g.members.map Json.string)) g.members :=
    reads_list fun m _ => reads_string m
  exact {
    nodup := by simp [fields, encodeOptions]
    kept := by
      simpa [fields, encodeOptions] using
        ⟨kept_string _ g.name, hmembers.kept, (reads_list h).kept⟩
    fills := (((fills_field (by simp [fields]) (reads_string g.name) _ _).map _).seq
      (fills_field (by simp [fields]) hmembers _ _)).seq (fills_options (by simp [fields]) h) }

/-- The numbers of a group that need not be whole. -/
def OptionGroup.floats : OptionGroup → List Float
  | video g => g.options.flatMap VideoOption.floats
  | audio g => g.options.flatMap AudioOption.floats
  | text _ => []

/-- A group with its type is read back. -/
theorem OptionGroup.reads {g : OptionGroup} (h : ∀ x ∈ g.floats, Rereads x) :
    Reads A (n + 4) decode g.encode g := by
  have htype {O : Type} (encode : O → Json) (g : Group O) :
      "type" ∉ (g.fields encode).map Prod.fst := by
    simp [Group.fields, encodeOptions]
  cases g with
  | video g =>
    exact ((Group.recorded (VideoOption.reads_of_mem h)).map _).tagged (htype _ g) rfl
  | audio g =>
    exact ((Group.recorded (AudioOption.reads_of_mem h)).map _).tagged (htype _ g) rfl
  | text g =>
    exact ((Group.recorded fun o _ => o.reads).map _).tagged (htype _ g) rfl

/-- The numbers of a project that need not be whole. -/
def Project.floats (p : Project) : List Float :=
  p.elements.flatMap Element.floats ++ p.groups.flatMap OptionGroup.floats

/-- A project is read back from its fields. -/
theorem Project.recorded {p : Project} (h : ∀ x ∈ p.floats, Rereads x) :
    Recorded A (n + 5) record p.members p := by
  have helements : Reads A (n + 5) (asList Element.decode)
      (array (p.elements.map Element.encode)) p.elements :=
    reads_list fun e he => Element.reads fun x hx =>
      h x (List.mem_append_left _ (List.mem_flatMap.2 ⟨e, he, hx⟩))
  have hgroups : Reads A (n + 5) (asList OptionGroup.decode)
      (array (p.groups.map OptionGroup.encode)) p.groups :=
    reads_list fun g hg => OptionGroup.reads fun x hx =>
      h x (List.mem_append_right _ (List.mem_flatMap.2 ⟨g, hg, hx⟩))
  have htimeline : Reads A (n + 5) (asList Entry.decode)
      (array (p.timeline.map Entry.encode)) p.timeline :=
    reads_list fun e _ => e.reads
  exact {
    nodup := by simp [members]
    kept := by
      simpa [members] using
        ⟨kept_string _ p.outputName, helements.kept, hgroups.kept, htimeline.kept⟩
    fills := ((((fills_field (by simp [members]) (reads_string p.outputName) _ _).map _).seq
      (fills_field (by simp [members]) helements _ _)).seq
      (fills_field (by simp [members]) hgroups _ _)).seq
      (fills_field (by simp [members]) htimeline _ _) }

namespace Project

/-- Whatever its elements, options, groups, placements and texts are, the document of a project,
compact or pretty, is read as the same project. Only its numbers have a condition: the text of each
is read as the same double, which also keeps out what has no text, an infinity or no number at all.
-/
theorem document_reads_back (p : Project) (hfloats : ∀ x ∈ p.floats, Rereads x) (style : Style) :
    parse (p.text style) = .ok p := by
  have hreads : Reads .asWritten 6 decode p.encode p := (recorded hfloats).decode
  have hdecoded := hreads.decodeText_eq_ok (by decide) style
  rw [Arrangement.apply_asWritten] at hdecoded
  rw [parse, text, hdecoded]
  rfl

/-- A project with elements of all types, placements of all styles, and texts that need escapes. -/
def festival : Project where
  outputName := "festival \"2024\""
  elements := [
    .video ⟨"stage", "stage\\main.mp4", some ⟨1920, 1080⟩, [.brightness 0.1, .rotation (-0.0),
      .position ⟨some (.aligned .right), some (.pixels (-7))⟩]⟩,
    .video ⟨"sky", "sky.mp4", none, [.transition .fadeOut, .resolution .webcam, .opacity 1e-7,
      .position ⟨none, none⟩]⟩,
    .videoExtract ⟨"solo", "stage", .read "00:01.5", .read "59:59.999",
      [.scale 1.5, .size ⟨640, 480⟩]⟩,
    .audio ⟨"wind", "wind.wav", [.volume 1e300, .normalize, .stereoVolume ⟨0.25, 1.0⟩]⟩,
    .audioExtract ⟨"gust", "wind", .read "00:00", .read "00:02", [.fadeIn 3.0]⟩,
    .text ⟨"title", "line\n\ttab é \u0001", [.font "Serif", .fontSize 4294967295,
      .alignment .center, .effect .falling]⟩,
    .subtitle ⟨"caption", "", []⟩]
  groups := [.video ⟨"all", ["stage", "sky"], [.contrast 2.0]⟩, .audio ⟨"loud", [], [.fadeOut 0.5]⟩,
    .text ⟨"words", ["title"], [.background "black"]⟩]
  timeline := [
    ⟨"a", "stage", .fixed (.read "00:00.001"), none, none⟩,
    ⟨"b", "sky", .implicit, some (.read "00:05"), some (.above "a")⟩,
    ⟨"c", "wind", .relative "a" .stop (some ⟨.minus, .read "00:00"⟩), none, none⟩,
    ⟨"d", "title", .relative "c" .start none, none, some (.under "b")⟩]

/-- The sample is read back from both of its documents. -/
theorem festival_document : (∀ x ∈ festival.floats, Rereads x) ∧
    ∀ style, parse (festival.text style) = .ok festival := by
  have hfloats : ∀ x ∈ festival.floats, Rereads x := by
    decide +kernel
  exact ⟨hfloats, document_reads_back festival hfloats⟩

end Project

end Montage
