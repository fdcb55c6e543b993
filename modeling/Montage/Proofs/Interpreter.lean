import Montage.Proofs.Flow
import Montage.Schedule

/-!
# Running the text of a script

Only the start and the length of clips matter here. A loaded file starts at zero and lasts as long
as it was measured, a piece lasts from where it is cut to where it ends, a start or a length that is
set replaces the old one, and all other calls keep both. A script is run line by line from its text:
the value behind an equals sign is a name with calls behind it, which are taken one after another.
-/

namespace Montage

variable {T : Type}

/-! ## Clips and variables -/

/-- What the timing of a film needs to know of a clip. -/
structure Clip (T : Type) where
  start : T
  /-- Unknown for a text that was given no length. -/
  duration : Option T

/-- The clips that variables hold while a script runs. -/
abbrev Variables (T : Type) := String → Option (Clip T)

/-- The variables after some names were bound to something that is no clip. -/
def Variables.without (vars : Variables T) (names : List String) : Variables T :=
  fun x => if x ∈ names then none else vars x

/-- Nothing bound changes nothing. -/
@[simp] theorem Variables.without_nil (vars : Variables T) : vars.without [] = vars := by
  funext x
  simp [Variables.without]

/-- One name bound to something that is no clip. -/
theorem Variables.without_singleton (vars : Variables T) (name : String) :
    vars.without [name] = Function.update vars name none := by
  funext x
  simp [Variables.without, Function.update_apply]

/-- Names that hold no clip may as well be bound to something else. -/
theorem Variables.without_eq_self {vars : Variables T} {names : List String}
    (h : ∀ x ∈ names, vars x = none) : vars.without names = vars := by
  funext x
  unfold Variables.without
  split
  next hx => exact (h x hx).symm
  next => rfl

variable [TimeScale T]

/-- When a clip ends, if its length is known. -/
def Clip.stop? (c : Clip T) : Option T :=
  c.duration.map (c.start + ·)

open Script

/-- What is asked of an arithmetic in which a script is read: a number denotes the value it was
printed from, nothing added changes nothing, and an opposite added is subtracted. -/
structure Reading (T : Type) [TimeScale T] where
  /-- The value that a number is printed from. -/
  literal : Float → T
  /-- The value of a number in the text of a script. -/
  number : List Token → Option T
  number_literal : ∀ x : Float, number (numberTokens x) = some (literal x)
  literal_seconds : ∀ t : Timestamp, literal t.toFloat = TimeScale.seconds t
  add_zero : ∀ x : T, x + 0 = x
  add_neg : ∀ x y : T, x + -y = x - y

namespace Script

/-! ## Values -/

/-- What a name or a call can stand for. -/
inductive Value (T : Type) where
  | library
  | clip (c : Clip T)
  | other

/-- The clip that a value is. -/
def Value.clip? : Value T → Option (Clip T)
  | clip c => some c
  | _ => none

/-- What a name stands for. -/
def valueOf (vars : Variables T) (name : String) : Value T :=
  match vars name with
  | some c => .clip c
  | none => if name = "moviepy" then .library else .other

/-- The text of a literal. -/
def Token.text? : Token → Option String
  | quoted body => (readText? (body ++ ['"'])).map fun p => String.ofList p.1
  | _ => none

/-- A literal stands for its text. -/
@[simp] theorem text?_literal (s : String) : (literal s).text? = some s := by
  simp [literal, Token.text?, readText?_flatMap]

variable (reading : Reading T) (known : KnownDurations T) (vars : Variables T)

/-- The value of a start: a number, or the start or the end of a clip, moved or not. -/
def start? : List Token → Option T
  | .word name :: .mark '.' :: .word anchor :: shift => do
    let c ← vars name
    let base ← if anchor = "start" then some c.start else if anchor = "end" then c.stop? else none
    match shift with
    | [] => some base
    | sign :: amount => do
      let t ← reading.number amount
      if sign = .mark '+' then some (base + t)
      else if sign = .mark '-' then some (base - t)
      else none
  | ts => reading.number ts

/-- The length of a piece, from where it is cut and where it ends. -/
def pieceLength? (arguments : List Token) : Option T := do
  let start ← reading.number (arguments.takeWhile (· ≠ .mark ','))
  let stop ← reading.number (arguments.dropWhile (· ≠ .mark ',')).tail
  return stop - start

/-- What a call gives. The library opens files and makes clips of texts and of other clips, effects
are applied to a clip, and the calls of clips that set no time keep it. -/
def call (value : Value T) (name : String) (arguments : List Token) : Value T :=
  match value with
  | .library =>
    if name ∈ ["VideoFileClip", "AudioFileClip"] then
      .clip ⟨0, (arguments.head?.bind Token.text?).bind fun path => known.lookup path⟩
    else if name ∈ ["TextClip", "CompositeVideoClip", "CompositeAudioClip"] then .clip ⟨0, none⟩
    else .other
  | .clip c =>
    if name = "with_start" then
      (start? reading vars arguments).elim .other fun t => .clip ⟨t, c.duration⟩
    else if name = "with_duration" then .clip ⟨c.start, reading.number arguments⟩
    else if name = "subclipped" then .clip ⟨c.start, pieceLength? reading arguments⟩
    else .clip c
  | .other =>
    match arguments with
    | [.word clip] => if name = "apply" then valueOf vars clip else .other
    | _ => .other

/-- How far a value has been read. -/
inductive Progress (T : Type) where
  | value (v : Value T)
  | dot (v : Value T)
  | member (v : Value T) (name : String)
  /-- Within the brackets of a call, with the number of brackets that are open in it. -/
  | arguments (v : Value T) (name : String) (depth : ℤ) (read : List Token)
  /-- Something else than a name with calls. -/
  | lost

/-- Reads one token of a value. -/
def Progress.next : Progress T → Token → Progress T
  | value v, .mark c => if c = '.' then dot v else lost
  | dot v, .word name => member v name
  | member v name, .mark c =>
    if c = '(' then arguments v name 0 [] else if c = '.' then dot .other else lost
  | arguments v name depth read, t =>
    if depth = 0 ∧ t = .mark ')' then value (call reading known vars v name read.reverse)
    else arguments v name (depth + t.opened) (t :: read)
  | _, _ => lost

/-- The value that was read. -/
def Progress.result : Progress T → Value T
  | value v => v
  | _ => .other

/-- The value of an expression. -/
def evaluate : List Token → Value T
  | .word name :: rest =>
    (rest.foldl (Progress.next reading known vars) (.value (valueOf vars name))).result
  | _ => .other

/-- Runs a line. -/
def runLine (l : CodeLine) : Variables T :=
  match l.tokens with
  | .word name :: .mark '=' :: value =>
    Function.update vars name (evaluate reading known vars value).clip?
  | _ => vars.without l.binds

/-- The clips that variables hold when a script was run, from its text, the lengths of the files
that it opens and what its conditions come out as. -/
def runScript (answers : ℕ → Bool) (script : String) : Variables T :=
  (executed answers { } (codeOf script)).foldl (runLine reading known) fun _ => none

/-! ## Calls -/

/-- How many brackets are open behind some tokens, if none is closed that was not opened. -/
def depthAfter (depth : ℤ) (ts : List Token) : Option ℤ :=
  ts.foldlM (fun d t => if 0 ≤ d + t.opened then some (d + t.opened) else none) depth

section Depth

/-- Nothing opens no bracket. -/
@[simp] theorem depthAfter_nil (d : ℤ) : depthAfter d [] = some d :=
  rfl

/-- A token opens or closes a bracket or does neither. -/
@[simp] theorem depthAfter_cons (d : ℤ) (t : Token) (ts : List Token) :
    depthAfter d (t :: ts) =
      if 0 ≤ d + t.opened then depthAfter (d + t.opened) ts else none := by
  rw [depthAfter, List.foldlM_cons]
  split <;> rfl

/-- Brackets around some tokens do not matter to them. -/
theorem depthAfter_add {ts : List Token} {d e : ℤ} (h : depthAfter d ts = some e) {k : ℤ}
    (hk : 0 ≤ k) : depthAfter (d + k) ts = some (e + k) := by
  induction ts generalizing d with
  | nil =>
    obtain rfl := Option.some.inj h
    rfl
  | cons t ts ih =>
    rw [depthAfter_cons] at h ⊢
    split at h
    next hd =>
      rw [if_pos (by omega), add_right_comm]
      exact ih h
    next => simp at h

/-- Tokens that close all their brackets can be left out. -/
theorem depthAfter_append {ts : List Token} (h : depthAfter 0 ts = some 0) {d : ℤ} (hd : 0 ≤ d)
    (rest : List Token) : depthAfter d (ts ++ rest) = depthAfter d rest := by
  have hts := depthAfter_add h hd
  rw [zero_add] at hts
  unfold depthAfter at hts ⊢
  rw [List.foldlM_append, hts]
  rfl

/-- Tokens without brackets close all their brackets. -/
theorem depthAfter_of_opened {ts : List Token} (h : ∀ t ∈ ts, t.opened = 0) :
    depthAfter 0 ts = some 0 := by
  induction ts with
  | nil => rfl
  | cons t ts ih =>
    obtain ⟨ht, hts⟩ := List.forall_mem_cons.mp h
    simpa [ht] using ih hts

/-- A number closes its brackets. -/
@[simp] theorem depthAfter_numberTokens (x : Float) : depthAfter 0 (numberTokens x) = some 0 := by
  rcases numberTokens_cases x with hcall | hfigures
  · have hcalls : ∀ ts ∈ callTokens, depthAfter 0 ts = some 0 := by decide +kernel
    exact hcalls _ hcall
  · exact depthAfter_of_opened fun t ht => Token.opened_of_isFigure (hfigures t ht)

/-- There is no comma in a number. -/
theorem comma_not_mem_numberTokens (x : Float) : Token.mark ',' ∉ numberTokens x := by
  rcases numberTokens_cases x with hcall | hfigures
  · have hcalls : ∀ ts ∈ callTokens, Token.mark ',' ∉ ts := by decide +kernel
    exact hcalls _ hcall
  · intro hmem
    exact absurd (hfigures _ hmem) (by decide)

/-- A point closes its brackets. -/
@[simp] theorem depthAfter_pointTokens (p : Point) : depthAfter 0 (pointTokens p) = some 0 := by
  have hcoordinate (x : Coordinate) : depthAfter 0 (coordinateTokens x) = some 0 := by
    cases x with
    | center => exact depthAfter_of_opened (by simp [coordinateTokens])
    | pixels i =>
      refine depthAfter_of_opened ?_
      rw [coordinateTokens, intTokens, List.forall_mem_append, List.forall_mem_singleton]
      exact ⟨by split <;> simp +decide, rfl⟩
  simp +decide [pointTokens, Token.opened, depthAfter_append (hcoordinate _)]

/-- A size closes its brackets. -/
@[simp] theorem depthAfter_sizeTokens (s : PixelSize) : depthAfter 0 (sizeTokens s) = some 0 := by
  simp +decide [sizeTokens, Token.opened]

/-- A named argument closes its brackets if its value does. -/
@[simp] theorem depthAfter_named (name : String) (value : List Token) :
    depthAfter 0 (named name value) = depthAfter 0 value := by
  simp +decide [named, Token.opened]

/-- A list closes its brackets if its members do. -/
theorem depthAfter_commaTokens {items : List (List Token)}
    (h : ∀ item ∈ items, depthAfter 0 item = some 0) :
    depthAfter 0 (commaTokens items) = some 0 := by
  induction items with
  | nil => rfl
  | cons item items ih =>
    obtain ⟨hitem, hitems⟩ := List.forall_mem_cons.mp h
    cases items with
    | nil => simpa [commaTokens, List.intercalate] using hitem
    | cons next items =>
      rw [commaTokens_cons_cons, depthAfter_append hitem le_rfl]
      simpa +decide [Token.opened] using ih hitems

end Depth

section Calls

variable {reading known vars}

/-- The arguments of a call are read up to their end. -/
theorem foldl_arguments {ts : List Token} {d e : ℤ} (h : depthAfter d ts = some e) (v : Value T)
    (name : String) (read : List Token) :
    ts.foldl (Progress.next reading known vars) (.arguments v name d read) =
      .arguments v name e (ts.reverse ++ read) := by
  induction ts generalizing d read with
  | nil =>
    obtain rfl := Option.some.inj h
    rfl
  | cons t ts ih =>
    rw [depthAfter_cons] at h
    split at h
    next hd =>
      have hopen : ¬ (d = 0 ∧ t = .mark ')') := by
        rintro ⟨rfl, rfl⟩
        exact absurd hd (by decide)
      rw [List.foldl_cons, Progress.next, if_neg hopen, ih h]
      simp
    next => simp at h

/-- A call on a value. -/
theorem foldl_method {arguments : List Token} (h : depthAfter 0 arguments = some 0) (v : Value T)
    (name : String) :
    (method name arguments).foldl (Progress.next reading known vars) (.value v) =
      .value (call reading known vars v name arguments) := by
  have hread : arguments.foldl (Progress.next reading known vars) (.arguments v name 0 []) =
      .arguments v name 0 arguments.reverse := by simpa using foldl_arguments h v name []
  simp [method, Progress.next, hread]

/-- A call on an attribute. -/
theorem foldl_method_member {arguments : List Token} (h : depthAfter 0 arguments = some 0)
    (v : Value T) (attr name : String) :
    (method name arguments).foldl (Progress.next reading known vars) (.member v attr) =
      .value (call reading known vars .other name arguments) := by
  have hread : arguments.foldl (Progress.next reading known vars) (.arguments .other name 0 []) =
      .arguments .other name 0 arguments.reverse := by simpa using foldl_arguments h .other name []
  simp [method, Progress.next, hread]

/-- Whatever is not a name with calls is no clip. -/
theorem foldl_lost (ts : List Token) :
    ts.foldl (Progress.next reading known vars) .lost = .lost := by
  induction ts with
  | nil => rfl
  | cons t ts ih => exact ih

end Calls

end Script

end Montage
