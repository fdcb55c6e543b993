import Montage.Build
import Montage.Proofs.Lookups
import Montage.Proofs.Usable

/-!
# Builds do not remember

A builder keeps the lengths of media files between its builds. As long as measuring a file always
gives the same answer, that cannot be seen from outside: what the cache finds for a path is what
measuring would give, so from every cache that a builder can come to have, a request is answered as
it is from an empty one. An answer has to be the same for all texts of one path, since the cache
does not tell them apart; which error a file fails with does not matter.
-/

namespace Montage

variable {T α β E : Type} {m : Type → Type} {probe : String → Option T}

/-! ## Caches that tell what measuring would -/

/-- What the cache finds is what measuring gives. -/
def DurationCache.Truthful (probe : String → Option T) (c : DurationCache T) : Prop :=
  ∀ path duration, c.find? path = some duration → probe path = some duration

/-- An empty cache finds nothing that could be wrong. -/
theorem DurationCache.truthful_empty (probe : String → Option T) :
    (empty : DurationCache T).Truthful probe := by
  intro path duration hfind
  cases hfind

/-- Keeping what was measured is truthful for all texts of the path. -/
theorem DurationCache.Truthful.store {c : DurationCache T} (hc : c.Truthful probe)
    (hprobe : probe.FactorsThrough Path.key) {path : String} {duration : T}
    (h : probe path = some duration) : (c.store path duration).Truthful probe := by
  intro other found hfind
  rw [find?_store] at hfind
  split at hfind
  · rename_i hkey
    rw [hprobe hkey, h]
    exact hfind
  · exact hc other found hfind

/-- From every truthful cache an action gives a result with a property, and leaves the cache
truthful. -/
def Yields [Monad m] (probe : String → Option T) (wanted : α → Prop)
    (x : StateT (DurationCache T) m α) : Prop :=
  ∀ c, c.Truthful probe → SatisfiesM (fun r => wanted r.1 ∧ r.2.Truthful probe) (x.run c)

namespace Yields

variable [Monad m] [LawfulMonad m] {x : StateT (DurationCache T) m α} {wanted : α → Prop}

/-- A value with a property is yielded without looking at the cache. -/
theorem pure {a : α} (h : wanted a) :
    Yields probe wanted (Pure.pure a : StateT (DurationCache T) m α) := by
  intro c hc
  rw [StateT.run_pure]
  exact SatisfiesM.pure ⟨h, hc⟩

/-- What is yielded has every property that follows. -/
theorem imp {wanted' : α → Prop} (hx : Yields probe wanted x) (h : ∀ a, wanted a → wanted' a) :
    Yields probe wanted' x := by
  intro c hc
  exact (hx c hc).imp fun hr => ⟨h _ hr.1, hr.2⟩

/-- Actions one after the other yield what the last one does. -/
theorem bind {next : α → StateT (DurationCache T) m β} {wanted' : β → Prop}
    (hx : Yields probe wanted x) (hnext : ∀ a, wanted a → Yields probe wanted' (next a)) :
    Yields probe wanted' (x >>= next) := by
  intro c hc
  rw [StateT.run_bind]
  exact (hx c hc).bind fun r hr => hnext r.1 hr.1 r.2 hr.2

/-- A function of what is yielded is yielded. -/
theorem map {f : α → β} {wanted' : β → Prop} (hx : Yields probe wanted x)
    (hf : ∀ a, wanted a → wanted' (f a)) : Yields probe wanted' (f <$> x) := by
  rw [← bind_pure_comp]
  exact hx.bind fun a ha => pure (hf a ha)

/-- From an empty cache the result has the property. -/
theorem run'_empty (hx : Yields probe wanted x) : SatisfiesM wanted (x.run' .empty) := by
  rw [StateT.run'_eq]
  exact (hx .empty (DurationCache.truthful_empty probe)).map fun h => h.1

end Yields

/-- A lookup gives the length that measuring gives, and fails if measuring does. -/
theorem yields_lookup [Monad m] [LawfulMonad m] {measure : String → m (Except Error T)}
    (hprobe : probe.FactorsThrough Path.key)
    (hmeasure : ∀ path, SatisfiesM (fun answer => answer.toOption = probe path) (measure path))
    (path : String) :
    Yields probe (fun answer => answer.toOption = probe path)
      (DurationCache.lookup measure path) := by
  intro c hc
  cases hfind : c.find? path with
  | some duration =>
    rw [DurationCache.run_lookup_of_some measure hfind]
    exact SatisfiesM.pure ⟨(hc path duration hfind).symm, hc⟩
  | none =>
    rw [DurationCache.run_lookup_of_none measure hfind]
    refine (hmeasure path).bind fun answer hanswer => SatisfiesM.pure ⟨hanswer, ?_⟩
    cases answer with
    | ok duration => exact hc.store hprobe hanswer.symm
    | error e => exact hc

/-! ## Lengths of the files of a project -/

/-- Looking up among the paths that have a length gives the length, if the path is one of them. -/
theorem lookup_filterMap (length? : String → Option T) (paths : List String) (path : String) :
    (paths.filterMap fun path => (length? path).map fun d => (path, d)).lookup path =
      if path ∈ paths then length? path else none := by
  induction paths with
  | nil => rfl
  | cons other paths ih =>
    cases hlength : length? other with
    | none =>
      rw [List.filterMap_cons_none (by simp [hlength]), ih]
      by_cases hpath : path = other
      · simp [hpath, hlength]
      · simp [hpath]
    | some d =>
      rw [List.filterMap_cons_some (by rw [hlength, Option.map_some]), List.lookup_cons, ih]
      by_cases hpath : path = other
      · simp [hpath, hlength]
      · simp [hpath, beq_false_of_ne hpath]

/-- The paths that have a length are some of all paths, in the same order. -/
theorem map_fst_filterMap_sublist (length? : String → Option T) (paths : List String) :
    ((paths.filterMap fun path => (length? path).map fun d => (path, d)).map Prod.fst).Sublist
      paths := by
  induction paths with
  | nil => exact List.Sublist.slnil
  | cons path paths ih =>
    cases hlength : length? path with
    | none =>
      rw [List.filterMap_cons_none (by rw [hlength, Option.map_none])]
      exact ih.cons path
    | some d =>
      rw [List.filterMap_cons_some (by rw [hlength, Option.map_some])]
      exact ih.cons_cons path

/-- No path is left twice. -/
theorem nodup_eraseDups : ∀ paths : List String, paths.eraseDups.Nodup
  | [] => List.nodup_nil
  | path :: paths => by
    rw [List.eraseDups_cons, List.nodup_cons]
    exact ⟨by simp, nodup_eraseDups _⟩
termination_by paths => paths.length
decreasing_by exact Nat.lt_succ_of_le (List.length_filter_le _ _)

/-- The media paths are those of the elements that import a file. -/
theorem Project.mem_mediaPaths {p : Project} {path : String} :
    path ∈ p.mediaPaths ↔ ∃ e ∈ p.elements, e.filePath? = some path := by
  rw [mediaPaths, List.mem_eraseDups, List.mem_filterMap]

namespace Builder

/-- What measuring gives depends on nothing but the path, whatever text the path is given as. -/
structure MeasuresBy [Monad m] (b : Builder m E) (probe : String → Option Float) : Prop where
  factors : probe.FactorsThrough Path.key
  measured : ∀ measure, b.measure = some measure → ∀ path,
    SatisfiesM (fun answer => answer.toOption = probe path) (measure path)
  unmeasured : b.measure = none → ∀ path, probe path = none

/-- The lengths of the files of a project that measuring gives. -/
def lengths (b : Builder m E) (probe : String → Option Float) (p : Project) :
    KnownDurations Float :=
  p.mediaPaths.filterMap fun path => (probe (b.mediaPath path)).map fun d => (path, d)

/-- The lengths are those of the files that can be measured. -/
theorem lookup_lengths (b : Builder m E) (probe : String → Option Float) (p : Project)
    (path : String) (duration : Float) :
    (b.lengths probe p).lookup path = some duration ↔
      (∃ e ∈ p.elements, e.filePath? = some path) ∧ probe (b.mediaPath path) = some duration := by
  rw [lengths, lookup_filterMap (fun path => probe (b.mediaPath path)), ← Project.mem_mediaPaths]
  split <;> simp [*]

/-- Each path has one length at most. -/
theorem nodup_lengths (b : Builder m E) (probe : String → Option Float) (p : Project) :
    ((b.lengths probe p).map Prod.fst).Nodup :=
  (nodup_eraseDups _).sublist (map_fst_filterMap_sublist (fun path => probe (b.mediaPath path)) _)

variable [Monad m] {b : Builder m E} {probe : String → Option Float}

section Measuring

variable [LawfulMonad m] (h : b.MeasuresBy probe)
include h

/-- A step adds the length that measuring gives. -/
theorem yields_addDuration {measure : String → m (Except Error Float)}
    (hmeasure : b.measure = some measure) (known : KnownDurations Float) (path : String) :
    Yields probe (· = known ++ ((probe (b.mediaPath path)).map fun d => (path, d)).toList)
      (b.addDuration measure known path) := by
  refine (yields_lookup h.factors (h.measured measure hmeasure) (b.mediaPath path)).bind ?_
  rintro (e | duration) hanswer
  · exact .pure (by simp [← hanswer, Except.toOption])
  · exact .pure (by simp [← hanswer, Except.toOption])

/-- All steps together add the lengths of all paths, in their order. -/
theorem yields_foldlM {measure : String → m (Except Error Float)}
    (hmeasure : b.measure = some measure) (paths : List String) (known : KnownDurations Float) :
    Yields probe
      (· = known ++ paths.filterMap fun path => (probe (b.mediaPath path)).map fun d => (path, d))
      (paths.foldlM (b.addDuration measure) known) := by
  induction paths generalizing known with
  | nil => exact .pure (by simp)
  | cons path paths ih =>
    rw [List.foldlM_cons]
    refine (yields_addDuration h hmeasure known path).bind ?_
    rintro _ rfl
    refine (ih _).imp ?_
    rintro _ rfl
    rw [List.append_assoc]
    cases hlength : probe (b.mediaPath path) <;> simp [hlength]

/-- The known lengths are those that measuring gives, whatever is in the cache. -/
theorem yields_knownDurations (p : Project) :
    Yields probe (· = b.lengths probe p) (b.knownDurations p) := by
  unfold knownDurations lengths
  cases hmeasure : b.measure with
  | none => exact .pure (by simp [h.unmeasured hmeasure])
  | some measure => exact yields_foldlM h hmeasure p.mediaPaths []

end Measuring

/-! ## Requests -/

variable [TextEffect E]

/-- What a build comes to once the lengths of the files are known. -/
def outcome (b : Builder m E) (uri : String) (p : Project) (known : KnownDurations Float) :
    Except Error Change :=
  if Diagnostic.anyError (p.diagnoseWith b.rules) then .ok (b.publish uri p "" [])
  else do
    let (resolved, script) ← p.compile b.settings b.effects
    let records ← resolved.records known b.settings.defaultTextDuration
    return b.publish uri p script records

/-- What a builder can be asked for. -/
inductive Request where
  | build (uri : String) (p : Project)
  | measure (p : Project)
  | clear

/-- What a builder answers. -/
inductive Reply where
  | built (result : Except Error Change)
  | measured (known : KnownDurations Float)
  | cleared

/-- Answers a request with the lengths that are kept, and keeps new ones. -/
def answer (b : Builder m E) : Request → StateT (DurationCache Float) m Reply
  | .build uri p => .built <$> b.build uri p
  | .measure p => .measured <$> b.knownDurations p
  | .clear => do
    set (DurationCache.empty : DurationCache Float)
    return .cleared

/-- The answer to a request when measuring gives certain lengths. -/
def reply (b : Builder m E) (probe : String → Option Float) : Request → Reply
  | .build uri p => .built (b.outcome uri p (b.lengths probe p))
  | .measure p => .measured (b.lengths probe p)
  | .clear => .cleared

section Answering

variable [LawfulMonad m] (h : b.MeasuresBy probe)
include h

/-- A build comes to what it comes to with the lengths that measuring gives. -/
theorem yields_build (uri : String) (p : Project) :
    Yields probe (· = b.outcome uri p (b.lengths probe p)) (b.build uri p) := by
  unfold build outcome
  split
  · exact .pure rfl
  · cases p.compile b.settings b.effects with
    | error e => exact .pure rfl
    | ok compiled =>
      refine (yields_knownDurations h p).bind ?_
      rintro _ rfl
      cases hrecords : compiled.1.records (b.lengths probe p) b.settings.defaultTextDuration with
      | error e => exact .pure (by simp [hrecords, bind, Except.bind])
      | ok records => exact .pure (by simp [hrecords, bind, Except.bind, pure, Except.pure])

/-- Every request is answered in the same way, whatever was asked for before. -/
theorem yields_answer (request : Request) :
    Yields probe (· = b.reply probe request) (b.answer request) := by
  cases request with
  | build uri p => exact (yields_build h uri p).map fun _ => congrArg Reply.built
  | measure p => exact (yields_knownDurations h p).map fun _ => congrArg Reply.measured
  | clear =>
    intro c hc
    simp only [answer, StateT.run_bind, StateT.run_set, pure_bind, StateT.run_pure]
    exact SatisfiesM.pure ⟨rfl, DurationCache.truthful_empty probe⟩

/-- So is every sequence of requests. -/
theorem yields_mapM (requests : List Request) :
    Yields probe (· = requests.map (b.reply probe)) (requests.mapM b.answer) := by
  induction requests with
  | nil =>
    rw [List.mapM_nil]
    exact .pure rfl
  | cons request requests ih =>
    rw [List.mapM_cons]
    refine (yields_answer h request).bind ?_
    rintro _ rfl
    refine ih.bind ?_
    rintro _ rfl
    exact .pure rfl

end Answering

/-- Replies that a builder gives to its requests, whatever it was asked for before. -/
structure Memoryless (b : Builder m E) (probe : String → Option Float)
    (reply : Request → Reply) : Prop where
  /-- They are the replies of a builder that was asked for nothing yet. -/
  fresh : ∀ request, SatisfiesM (· = reply request) ((b.answer request).run' .empty)
  /-- They are the replies to any sequence of requests. -/
  session : ∀ requests : List Request,
    SatisfiesM (· = requests.map reply) ((requests.mapM b.answer).run' .empty)
  /-- The known lengths are those of the files that can be measured, where the builder finds
  them. -/
  measured : ∀ p, ∃ known, reply (.measure p) = .measured known ∧ (known.map Prod.fst).Nodup ∧
    ∀ path duration, known.lookup path = some duration ↔
      (∃ e ∈ p.elements, e.filePath? = some path) ∧ probe (b.mediaPath path) = some duration

/-- Where measuring a file always gives the same length or always fails, the reply to a request
depends on the request alone. -/
theorem replies_are_memoryless [LawfulMonad m] (h : b.MeasuresBy probe) :
    ∃ reply, b.Memoryless probe reply := by
  refine ⟨b.reply probe, ?_, ?_, ?_⟩
  · intro request
    exact (yields_answer h request).run'_empty
  · intro requests
    exact (yields_mapM h requests).run'_empty
  · intro p
    exact ⟨b.lengths probe p, rfl, b.nodup_lengths probe p, b.lookup_lengths probe p⟩

/-- The files of an archive, whatever texts their paths are given as. -/
def archive (path : String) : Option Float :=
  if Path.key path = Path.key "/media/clips/beach.mp4" then some 12
  else if Path.key path = Path.key "/media/audio/theme.mp3" then some 180.5
  else none

/-- A builder for projects whose files are in the archive. -/
def archivist : Builder Id LetterEffect where
  effects := .standard
  measure := some fun path =>
    match archive path with
    | some duration => .ok duration
    | none => .error (.probeFailed path "no such file")
  directory := some "/media//"

/-- Asks for the holiday film again and again. -/
def reruns : List Request :=
  [.build "file:///holiday.json" .holiday, .build "file:///holiday.json" .holiday, .clear,
    .measure .holiday, .build "file:///holiday.json" .holiday]

/-- The archivist gives the same holiday film each time, though its files were measured, forgotten
and measured again. -/
theorem archivist_is_memoryless : archivist.MeasuresBy archive ∧
    ∃ reply, archivist.Memoryless archive reply ∧
      ((reruns.mapM archivist.answer).run' .empty).run = reruns.map reply := by
  have hmeasures : archivist.MeasuresBy archive := {
    factors := fun path other hkey => by rw [archive, archive, hkey]
    measured := by
      intro measure hmeasure path
      obtain rfl := Option.some.inj hmeasure
      rw [SatisfiesM_Id_eq]
      cases hpath : archive path <;> simp [hpath, Except.toOption]
    unmeasured := fun hnone => nomatch hnone }
  obtain ⟨reply, hreply⟩ := replies_are_memoryless hmeasures
  have hsession := hreply.session reruns
  rw [SatisfiesM_Id_eq] at hsession
  exact ⟨hmeasures, reply, hreply, hsession⟩

end Builder

end Montage
