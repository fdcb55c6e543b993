import Montage.Error
import Montage.Project

/-!
# Schedules

The start and the length of every entry of a timeline. The start of an entry depends on at most
one other entry, so it is looked for there, and so on until a start is given outright. Starts that
were found are kept in a table, and so are the entries whose start is being looked for: a search
that comes back to one of them runs in a circle. The computation is the same in every arithmetic
of seconds.
-/

namespace Montage

variable {T : Type}

/-- The lengths of media files that were measured, by path. -/
abbrev KnownDurations (T : Type) := List (String × T)

/-- When an entry starts and how long it lasts. -/
structure Span (T : Type) where
  start : T
  /-- Unknown for media that were not measured. -/
  duration : Option T
  deriving DecidableEq, Repr

/-- A length, where an unknown one counts as none. -/
def lengthOrZero [TimeScale T] (duration : Option T) : T :=
  duration.getD 0

/-- When an entry ends. -/
def Span.stop [TimeScale T] (s : Span T) : T :=
  s.start + lengthOrZero s.duration

/-- What an entry refers to: nothing, another entry, or a name that names none. -/
inductive Link where
  | stop
  | next (index : Nat)
  | missing (name : String)
  deriving DecidableEq, Repr

/-- What is known of the starts of the entries of a timeline. -/
structure StartTable (T : Type) (n : Nat) where
  /-- The starts that were found. -/
  starts : Vector (Option T) n
  /-- Whether the start of an entry is being looked for. -/
  visiting : Vector Bool n
  deriving Repr

namespace StartTable

variable {n : Nat}

/-- The table of a timeline of which nothing is known. -/
def empty (n : Nat) : StartTable T n :=
  ⟨.replicate n none, .replicate n false⟩

/-- The start of an entry, if it was found. -/
def start? (table : StartTable T n) (i : Fin n) : Option T :=
  table.starts[i]

/-- Whether the start of an entry is being looked for. -/
def marked (table : StartTable T n) (i : Fin n) : Bool :=
  table.visiting[i]

/-- Marks an entry as one whose start is being looked for. -/
def enter (table : StartTable T n) (i : Fin n) : StartTable T n :=
  { table with visiting := table.visiting.set i true }

/-- Keeps the start of an entry and takes its mark away. -/
def settle (table : StartTable T n) (i : Fin n) (start : T) : StartTable T n :=
  ⟨table.starts.set i (some start), table.visiting.set i false⟩

/-- The number of entries without a mark. -/
def unmarked (table : StartTable T n) : Nat :=
  table.visiting.count false

/-- A new mark leaves fewer entries without one. -/
theorem unmarked_enter_lt {table : StartTable T n} {i : Fin n} (h : table.marked i = false) :
    (table.enter i).unmarked < table.unmarked := by
  have hi : table.visiting[i.val] = false := h
  have hpos : 0 < table.visiting.count false :=
    Vector.count_pos_iff.mpr (hi ▸ Vector.getElem_mem i.isLt)
  have hcount : (table.visiting.set i true).count false = table.visiting.count false - 1 := by
    simp [Vector.count_set, hi]
  rw [unmarked, unmarked, enter, hcount]
  omega

end StartTable

namespace Project

/-- How long an entry lasts: texts as the entry says, pieces as they are cut, files as measured. -/
def entryDuration [TimeScale T] (p : Project) (known : KnownDurations T) (defaultText : T)
    (entry : Entry) : Option T :=
  match p.element? entry.element with
  | none => none
  | some element =>
    match element with
    | .text _ | .subtitle _ => some ((entry.duration.map TimeScale.seconds).getD defaultText)
    | .videoExtract _ | .audioExtract _ => element.extractLength?
    | .video v => known.lookup v.path
    | .audio a => known.lookup a.path

/-- The lengths of all entries. -/
def durations [TimeScale T] (p : Project) (known : KnownDurations T) (defaultText : T) :
    List (Option T) :=
  p.timeline.map (p.entryDuration known defaultText)

/-- There is one length for each entry. -/
theorem length_durations [TimeScale T] (p : Project) (known : KnownDurations T) (defaultText : T) :
    (p.durations known defaultText).length = p.timeline.length :=
  List.length_map ..

/-- The entry whose start or end determines the start of an entry. -/
def startLink (p : Project) (i : Nat) : Link :=
  match p.timeline[i]? with
  | none => .stop
  | some entry =>
    match entry.placement with
    | .fixed _ => .stop
    | .implicit => if i = 0 then .stop else .next (i - 1)
    | .relative target _ _ =>
      match p.entryIndex? target with
      | some j => .next j
      | none => .missing target

/-- The entry that determines a start is one of the timeline. -/
theorem startLink_lt {p : Project} {i j : Nat} (h : p.startLink i = .next j) :
    j < p.timeline.length := by
  unfold startLink at h
  cases hentry : p.timeline[i]? with
  | none => simp [hentry] at h
  | some entry =>
    simp only [hentry] at h
    cases hplacement : entry.placement with
    | fixed instant => simp [hplacement] at h
    | implicit =>
      obtain ⟨hi, -⟩ := List.getElem?_eq_some_iff.mp hentry
      simp only [hplacement] at h
      split at h
      · simp at h
      · simp only [Link.next.injEq] at h
        omega
    | relative target anchor offset =>
      simp only [hplacement] at h
      cases hindex : p.entryIndex? target with
      | none => simp [hindex] at h
      | some k =>
        simp only [hindex, Link.next.injEq] at h
        exact h ▸ (List.findIdx?_eq_some_iff_getElem.mp hindex).1

/-- The start of an entry from the span of the entry that determines it. -/
def startFrom [TimeScale T] (i : Nat) (placement : Placement) (base : Span T) : T :=
  match placement with
  | .fixed instant => TimeScale.seconds instant
  | .implicit => if i = 0 then 0 else base.stop
  | .relative _ anchor offset =>
    (match anchor with
      | .start => base.start
      | .stop => base.stop) + (offset.map Offset.seconds).getD 0

/-- Looks for the start of an entry, given how long entries last and the names of the entries from
which the search came here. Every step marks one more entry, so the search ends. -/
def startOf [TimeScale T] (p : Project) (length : Fin p.timeline.length → Option T)
    (path : List String) (i : Fin p.timeline.length) (table : StartTable T p.timeline.length) :
    Except Error (T × StartTable T p.timeline.length) :=
  match table.start? i with
  | some start => .ok (start, table)
  | none =>
    let path := path ++ [(p.timeline.get i).name]
    match hmark : table.marked i with
    | true => .error (.cyclicRelation path)
    | false =>
      match hlink : p.startLink i with
      | .stop =>
        let start := startFrom i (p.timeline.get i).placement ⟨0, none⟩
        .ok (start, (table.enter i).settle i start)
      | .missing name => .error (.missingReference .placement name)
      | .next j => do
        have := StartTable.unmarked_enter_lt hmark
        let (base, table) ← p.startOf length path ⟨j, startLink_lt hlink⟩ (table.enter i)
        let start := startFrom i (p.timeline.get i).placement ⟨base, length ⟨j, startLink_lt hlink⟩⟩
        return (start, table.settle i start)
termination_by table.unmarked

/-- The span of an entry; what is found on the way is kept for other entries. -/
def spanOf [TimeScale T] (p : Project) (length : Fin p.timeline.length → Option T)
    (i : Fin p.timeline.length) :
    StateT (StartTable T p.timeline.length) (Except Error) (Span T) := do
  let start ← p.startOf length [] i
  return ⟨start, length i⟩

/-- The spans of all entries that last as given, or the failure of the first entry without a
start. -/
def spans [TimeScale T] (p : Project) (length : Fin p.timeline.length → Option T) :
    Except Error (List (Span T)) :=
  ((List.finRange p.timeline.length).mapM (p.spanOf length)).run' (.empty p.timeline.length)

/-- The spans of all entries that last as known, or the failure of the first entry without a
start. -/
def schedule [TimeScale T] (p : Project) (known : KnownDurations T) (defaultText : T) :
    Except Error (List (Span T)) :=
  let lengths := p.durations known defaultText
  p.spans fun i => lengths.get (i.cast (p.length_durations known defaultText).symm)

/-- Refuses timelines in which some entry has no start, however long entries last. -/
def checkAcyclic (p : Project) : Except Error Unit :=
  discard (p.spans fun _ => (none : Option Float))

end Project

end Montage
