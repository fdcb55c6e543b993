import Mathlib.Data.List.Nodup
import Mathlib.Data.List.Perm.Basic
import Montage.Json.Decoder
import Montage.Proofs.JsonText
import Montage.Proofs.Traversal

/-!
# Decoding what was written

A value is written as a tree, the tree as a text, and the text is read and decoded. `Reads` says
that a decoder gets a value back from a tree: in whatever order the members of its objects stand,
wherever there is room for it, and with the tree the same as the one its text reads as. Every
decoder keeps this, so that the law for a type follows the way its decoder is put together.

The order of members is an `Arrangement`, since a document may be written with its keys sorted. The
room matters because a choice between shapes sets its value aside, which is refused beyond a limit
of nesting.
-/

namespace Montage.Json

/-! ## Arrangements -/

/-- An order for the members of every object. -/
structure Arrangement where
  order : List (String × Json) → List (String × Json)
  perm : ∀ members, (order members).Perm members

namespace Arrangement

variable (A : Arrangement)

mutual

/-- Puts the members of every object of a tree in order. -/
def apply : Json → Json
  | array items => array (applyItems items)
  | object members => object (A.order (applyMembers members))
  | leaf => leaf

/-- Puts the objects inside each tree of a list in order. -/
def applyItems : List Json → List Json
  | [] => []
  | v :: vs => apply v :: applyItems vs

/-- Puts the objects inside the values of members in order. -/
def applyMembers : List (String × Json) → List (String × Json)
  | [] => []
  | (k, v) :: ms => (k, apply v) :: applyMembers ms

end

/-- The trees of a list are arranged one by one. -/
theorem applyItems_eq (items : List Json) : A.applyItems items = items.map A.apply := by
  induction items with
  | nil => rfl
  | cons v vs ih => rw [applyItems, ih, List.map_cons]

/-- The values of members are arranged one by one. -/
theorem applyMembers_eq (members : List (String × Json)) :
    A.applyMembers members = members.map fun m => (m.1, A.apply m.2) := by
  induction members with
  | nil => rfl
  | cons m ms ih => rw [applyMembers, ih, List.map_cons]

/-- The items of an array keep their places. -/
theorem apply_array (items : List Json) : A.apply (array items) = array (items.map A.apply) := by
  rw [apply, applyItems_eq]

/-- The members of an object, arranged inside and among each other. -/
def arranged (members : List (String × Json)) : List (String × Json) :=
  A.order (members.map fun m => (m.1, A.apply m.2))

/-- An object has its members arranged. -/
theorem apply_object (members : List (String × Json)) :
    A.apply (object members) = object (A.arranged members) := by
  rw [apply, applyMembers_eq, arranged]

/-- Arranged members are the members with their values arranged. -/
theorem mem_arranged {members : List (String × Json)} {m : String × Json} :
    m ∈ A.arranged members ↔ ∃ n ∈ members, (n.1, A.apply n.2) = m := by
  rw [arranged, (A.perm _).mem_iff, List.mem_map]

/-- Arranging members keeps their keys. -/
theorem map_fst_arranged (members : List (String × Json)) :
    ((A.arranged members).map Prod.fst).Perm (members.map Prod.fst) := by
  have hperm := (A.perm (members.map fun m => (m.1, A.apply m.2))).map Prod.fst
  rwa [List.map_map] at hperm

/-- An arrangement keeps what is null apart from what is not. -/
theorem isNull_apply (v : Json) : isNull (A.apply v) = isNull v := by
  cases v <;> rfl

/-- The order in which the members stand already. -/
def asWritten : Arrangement where
  order members := members
  perm _ := .refl _

mutual

/-- Leaving all members where they are changes nothing. -/
theorem apply_asWritten : ∀ v : Json, asWritten.apply v = v
  | array items => congrArg array (applyItems_asWritten items)
  | object members => congrArg object (applyMembers_asWritten members)
  | null | bool _ | int _ | real _ | string _ | loose | unnamed _ | malformed => rfl

/-- Leaving all members where they are changes no tree of a list. -/
theorem applyItems_asWritten : ∀ items : List Json, asWritten.applyItems items = items
  | [] => rfl
  | v :: vs => congrArg₂ List.cons (apply_asWritten v) (applyItems_asWritten vs)

/-- Leaving all members where they are changes no value of a member. -/
theorem applyMembers_asWritten :
    ∀ members : List (String × Json), asWritten.applyMembers members = members
  | [] => rfl
  | (k, v) :: ms =>
    congrArg₂ List.cons (congrArg (k, ·) (apply_asWritten v)) (applyMembers_asWritten ms)

end

end Arrangement

/-! ## Values that can be set aside -/

/-- A tree without marks that nests at most so many containers and that its text reads as. -/
structure Kept (n : ℕ) (v : Json) : Prop where
  holdable : v.holdable = true
  depth_le : v.depth ≤ n
  reread : v.reread = v

/-- A condition on the leaves of a list is one on each of its trees. -/
theorem everyItem_eq_true_iff {ok : Json → Bool} {items : List Json} :
    everyItem ok items = true ↔ ∀ v ∈ items, v.every ok = true := by
  induction items with
  | nil => simp [everyItem]
  | cons v vs ih => simp [everyItem, ih]

/-- A condition on the leaves of members is one on each of their values. -/
theorem everyMember_eq_true_iff {ok : Json → Bool} {members : List (String × Json)} :
    everyMember ok members = true ↔ ∀ m ∈ members, m.2.every ok = true := by
  induction members with
  | nil => simp [everyMember]
  | cons m ms ih => simp [everyMember, ih]

/-- The nesting of a list is bounded when that of each tree is. -/
theorem depthItems_le_iff {n : ℕ} {items : List Json} :
    depthItems items ≤ n ↔ ∀ v ∈ items, v.depth ≤ n := by
  induction items with
  | nil => simp [depthItems]
  | cons v vs ih => rw [depthItems, Nat.max_le, ih, List.forall_mem_cons]

/-- The nesting of members is bounded when that of each value is. -/
theorem depthMembers_le_iff {n : ℕ} {members : List (String × Json)} :
    depthMembers members ≤ n ↔ ∀ m ∈ members, m.2.depth ≤ n := by
  induction members with
  | nil => simp [depthMembers]
  | cons m ms ih => rw [depthMembers, Nat.max_le, ih, List.forall_mem_cons]

/-- A list is what its text reads as when each tree is. -/
theorem rereadItems_eq_self_iff {items : List Json} :
    rereadItems items = items ↔ ∀ v ∈ items, v.reread = v := by
  induction items with
  | nil => simp [rereadItems]
  | cons v vs ih => rw [rereadItems, List.cons.injEq, ih, List.forall_mem_cons]

/-- Members are what their text reads as when each value is. -/
theorem rereadMembers_eq_self_iff {members : List (String × Json)} :
    rereadMembers members = members ↔ ∀ m ∈ members, m.2.reread = m.2 := by
  induction members with
  | nil => simp [rereadMembers]
  | cons m ms ih =>
    rw [rereadMembers, List.cons.injEq, ih, List.forall_mem_cons]
    exact and_congr_left fun _ => ⟨fun h => (Prod.mk.inj h).2, fun h => Prod.ext rfl h⟩

/-- An array is kept when its items are, one level below. -/
theorem kept_array_iff {n : ℕ} {items : List Json} :
    Kept n (array items) ↔ ∃ k, n = k + 1 ∧ ∀ v ∈ items, Kept k v := by
  constructor
  · rintro ⟨hholdable, hdepth, hreread⟩
    rw [Json.holdable, every, everyItem_eq_true_iff] at hholdable
    rw [depth] at hdepth
    rw [Json.reread, array.injEq, rereadItems_eq_self_iff] at hreread
    obtain ⟨k, rfl⟩ : ∃ k, n = k + 1 := ⟨n - 1, by omega⟩
    have hitems := depthItems_le_iff.1 (show depthItems items ≤ k by omega)
    exact ⟨k, rfl, fun v hv => ⟨hholdable v hv, hitems v hv, hreread v hv⟩⟩
  · rintro ⟨k, rfl, h⟩
    have hdepth := depthItems_le_iff.2 fun v hv => (h v hv).depth_le
    have hreread := rereadItems_eq_self_iff.2 fun v hv => (h v hv).reread
    exact ⟨everyItem_eq_true_iff.2 fun v hv => (h v hv).holdable, by rw [depth]; omega,
      by rw [Json.reread, hreread]⟩

/-- An object is kept when the values of its members are, one level below. -/
theorem kept_object_iff {n : ℕ} {members : List (String × Json)} :
    Kept n (object members) ↔ ∃ k, n = k + 1 ∧ ∀ m ∈ members, Kept k m.2 := by
  constructor
  · rintro ⟨hholdable, hdepth, hreread⟩
    rw [Json.holdable, every, everyMember_eq_true_iff] at hholdable
    rw [depth] at hdepth
    rw [Json.reread, object.injEq, rereadMembers_eq_self_iff] at hreread
    obtain ⟨k, rfl⟩ : ∃ k, n = k + 1 := ⟨n - 1, by omega⟩
    have hmembers := depthMembers_le_iff.1 (show depthMembers members ≤ k by omega)
    exact ⟨k, rfl, fun m hm => ⟨hholdable m hm, hmembers m hm, hreread m hm⟩⟩
  · rintro ⟨k, rfl, h⟩
    have hdepth := depthMembers_le_iff.2 fun m hm => (h m hm).depth_le
    have hreread := rereadMembers_eq_self_iff.2 fun m hm => (h m hm).reread
    exact ⟨everyMember_eq_true_iff.2 fun m hm => (h m hm).holdable, by rw [depth]; omega,
      by rw [Json.reread, hreread]⟩

/-- Arranging a tree changes neither its leaves nor its nesting. -/
theorem Kept.apply (A : Arrangement) {n : ℕ} {v : Json} (h : Kept n v) : Kept n (A.apply v) := by
  -- the bound on the nesting is what the recursion runs on
  induction n generalizing v with
  | zero =>
    cases v with
    | array items =>
      obtain ⟨k, hk, -⟩ := kept_array_iff.1 h
      omega
    | object members =>
      obtain ⟨k, hk, -⟩ := kept_object_iff.1 h
      omega
    | _ => exact h
  | succ n ih =>
    cases v with
    | array items =>
      obtain ⟨k, hk, hitems⟩ := kept_array_iff.1 h
      obtain rfl : n = k := by omega
      rw [A.apply_array, kept_array_iff]
      refine ⟨n, rfl, fun v hv => ?_⟩
      obtain ⟨w, hw, rfl⟩ := List.mem_map.1 hv
      exact ih (hitems w hw)
    | object members =>
      obtain ⟨k, hk, hmembers⟩ := kept_object_iff.1 h
      obtain rfl : n = k := by omega
      rw [A.apply_object, kept_object_iff]
      refine ⟨n, rfl, fun m hm => ?_⟩
      obtain ⟨w, hw, rfl⟩ := A.mem_arranged.1 hm
      exact ih (hmembers w hw)
    | _ => exact h

/-- What is kept can be set aside where there is room. -/
theorem Kept.canHold {n : ℕ} {v : Json} (h : Kept n v) {ctx : Context}
    (hroom : ctx.depth + n ≤ nestingLimit) : canHold ctx v = true := by
  have := h.depth_le
  simp only [Json.canHold, h.holdable, Bool.true_and, decide_eq_true_eq]
  omega

mutual

/-- A weaker condition holds of every leaf too. -/
theorem every_mono {ok ok' : Json → Bool} (h : ∀ v, ok v = true → ok' v = true) :
    ∀ v : Json, v.every ok = true → v.every ok' = true
  | array items, hv => everyItem_mono h items hv
  | object members, hv => everyMember_mono h members hv
  | unnamed v, hv => by
    rw [every, Bool.and_eq_true] at hv ⊢
    exact ⟨h _ hv.1, every_mono h v hv.2⟩
  | null, hv | bool _, hv | int _, hv | real _, hv | string _, hv | loose, hv | malformed, hv =>
    h _ hv

/-- A weaker condition holds of every leaf of every tree of a list too. -/
theorem everyItem_mono {ok ok' : Json → Bool} (h : ∀ v, ok v = true → ok' v = true) :
    ∀ items : List Json, everyItem ok items = true → everyItem ok' items = true
  | [], _ => rfl
  | v :: vs, hvs => by
    rw [everyItem, Bool.and_eq_true] at hvs ⊢
    exact ⟨every_mono h v hvs.1, everyItem_mono h vs hvs.2⟩

/-- A weaker condition holds of every leaf of every member too. -/
theorem everyMember_mono {ok ok' : Json → Bool} (h : ∀ v, ok v = true → ok' v = true) :
    ∀ members : List (String × Json), everyMember ok members = true →
      everyMember ok' members = true
  | [], _ => rfl
  | (_, v) :: ms, hms => by
    rw [everyMember, Bool.and_eq_true] at hms ⊢
    exact ⟨every_mono h v hms.1, everyMember_mono h ms hms.2⟩

end

/-- What is kept can be passed over. -/
theorem Kept.passable {n : ℕ} {v : Json} (h : Kept n v) : v.passable = true := by
  have hskippable : v.skippable = true := by
    refine every_mono (fun w hw => ?_) v h.holdable
    cases w with
    | malformed => exact hw
    | _ => rfl
  cases v with
  | unnamed w => exact absurd h.holdable (by simp [Json.holdable, every, valuedLeaf])
  | _ => exact hskippable

/-! ## Leaves -/

section Leaves

variable (n : ℕ)

/-- The empty value is kept. -/
theorem kept_null : Kept n null :=
  ⟨rfl, Nat.zero_le n, rfl⟩

/-- A text is kept. -/
theorem kept_string (s : String) : Kept n (string s) :=
  ⟨rfl, Nat.zero_le n, rfl⟩

/-- A whole number of 64 bits is kept. -/
theorem kept_int {i : ℤ} (hlow : Int64.minValue.toInt ≤ i) (hhigh : i < UInt64.size) :
    Kept n (int i) :=
  ⟨rfl, Nat.zero_le n, leafOf_intText_eq hlow hhigh⟩

/-- A whole number of 32 bits without a sign is kept. -/
theorem kept_uint32 (i : UInt32) : Kept n (int i.toNat) := by
  have hsize := i.toNat_lt
  exact kept_int n (by rw [Int64.toInt_minValue]; omega) (by simp [UInt64.size]; omega)

/-- A whole number of 32 bits is kept. -/
theorem kept_int32 (i : Int32) : Kept n (int i.toInt) := by
  have hlow := i.le_toInt
  have hhigh := i.toInt_lt
  exact kept_int n (by rw [Int64.toInt_minValue]; omega) (by simp [UInt64.size]; omega)

end Leaves

/-- A double whose text is read as the same double. -/
def Rereads (x : Float) : Prop :=
  decodeText asFloat ((real x).text .compact) = .ok x

instance (x : Float) : Decidable (Rereads x) :=
  match h : decodeText asFloat ((real x).text .compact) with
  | .ok y => decidable_of_iff (y = x) (by rw [Rereads, h, Except.ok.injEq])
  | .error e => .isFalse (by rw [Rereads, h]; exact nofun)

/-- Decoding a text decodes what the tree of the text reads as. -/
theorem decodeText_text {α : Type} (d : Decoder α) (style : Style) (v : Json) :
    decodeText d (v.text style) = d Context.text v.reread := by
  simp only [decodeText, read_text]
  cases d Context.text v.reread <;> rfl

/-- A double whose text is read as the same double is read as it from its tree. -/
theorem Rereads.kept {x : Float} (h : Rereads x) (n : ℕ) : Kept n (real x) := by
  rw [Rereads, decodeText_text] at h
  refine ⟨rfl, Nat.zero_le n, ?_⟩
  rw [reread] at h ⊢
  rcases leafOf_realText x with hnull | ⟨m, hm⟩
  · rw [hnull] at h
    exact absurd h nofun
  · rw [hm, realLeaf] at h ⊢
    cases hvalue : m.stepwise? with
    | none =>
      rw [hvalue] at h
      exact absurd h nofun
    | some y =>
      rw [hvalue] at h
      exact congrArg real (Except.ok.inj h)

/-! ## Decoders -/

/-- A decoder gets a value back from a tree however its objects are arranged, wherever there is
room for the tree. -/
structure Reads {α : Type} (A : Arrangement) (n : ℕ) (d : Decoder α) (v : Json) (a : α) :
    Prop where
  kept : Kept n v
  decoded : ∀ ctx : Context, ctx.depth + n ≤ nestingLimit → d ctx (A.apply v) = .ok a

section Decoders

variable {A : Arrangement} {n : ℕ} {α β : Type}

/-- A value that is made of a value read is read. -/
theorem Reads.map {d : Decoder α} {v : Json} {a : α} (h : Reads A n d v a) (f : α → β) :
    Reads A n (fun ctx v => (d ctx v).map f) v (f a) where
  kept := h.kept
  decoded ctx hroom := by
    rw [h.decoded ctx hroom]
    rfl

/-- A string is read back. -/
theorem reads_string (s : String) : Reads A n asString (string s) s :=
  ⟨kept_string n s, fun _ _ => rfl⟩

/-- An unsigned number of 32 bits is read back. -/
theorem reads_uint32 (i : UInt32) : Reads A n asUInt32 (int i.toNat) i where
  kept := kept_uint32 n i
  decoded ctx _ := by
    have hsize := i.toNat_lt
    change (asIntIn 0 (UInt32.size - 1) ctx (int i.toNat)).map _ = _
    rw [asIntIn, if_pos (by simp [UInt32.size]; omega)]
    simp [Except.map]

/-- A signed number of 32 bits is read back. -/
theorem reads_int32 (i : Int32) : Reads A n asInt32 (int i.toInt) i where
  kept := kept_int32 n i
  decoded ctx _ := by
    change (asIntIn _ _ ctx (int i.toInt)).map _ = _
    rw [asIntIn, if_pos ⟨i.minValue_le_toInt, i.toInt_le⟩]
    simp [Except.map]

/-- A double is read back if its text is. -/
theorem reads_float {x : Float} (h : Rereads x) : Reads A n asFloat (real x) x :=
  ⟨h.kept n, fun _ _ => rfl⟩

/-- A name is read as what it stands for. -/
theorem reads_name {names : List (String × α)} {s : String} {a : α}
    (h : names.lookup s = some a) : Reads A n (asName names) (string s) a where
  kept := kept_string n s
  decoded ctx _ := by
    change asName names ctx (string s) = _
    simp only [asName, h]

/-- A list is read item by item. -/
theorem reads_list {d : Decoder α} {encode : α → Json} {as : List α}
    (h : ∀ a ∈ as, Reads A n d (encode a) a) :
    Reads A (n + 1) (asList d) (array (as.map encode)) as where
  kept := kept_array_iff.2 ⟨n, rfl, by simpa using fun a ha => (h a ha).kept⟩
  decoded ctx hroom := by
    rw [A.apply_array, asList, mapM_eq_ok_iff, List.map_map, List.forall₂_map_left_iff,
      List.forall₂_same]
    intro a ha
    exact (h a ha).decoded ctx.enter (by simp only [Context.enter]; omega)

/-- The first of several shapes is taken when it fits. -/
theorem reads_first {d : Decoder α} {v : Json} {a : α} (h : Reads A n d v a)
    (ds : List (Decoder α)) : Reads A n (asFirstOf (d :: ds)) v a where
  kept := h.kept
  decoded ctx hroom := by
    have hfirst := h.decoded Context.tried (by simp only [Context.tried]; omega)
    simp only [asFirstOf, (h.kept.apply A).canHold hroom, List.findSome?_cons, hfirst,
      Except.toOption, if_true]

/-- A shape that does not fit is passed over. -/
theorem reads_later {d : Decoder α} {ds : List (Decoder α)} {v : Json} {a : α}
    (hfail : (d Context.tried (A.apply v)).toOption = none) (h : Reads A n (asFirstOf ds) v a) :
    Reads A n (asFirstOf (d :: ds)) v a where
  kept := h.kept
  decoded ctx hroom := by
    rw [← h.decoded ctx hroom]
    simp only [asFirstOf, List.findSome?_cons, hfail]

/-- The only member of an object is read in the shape of its key. -/
theorem reads_keyed {shapes : List (String × Decoder α)} {key : String} {d : Decoder α} {v : Json}
    {a : α} (hlookup : shapes.lookup key = some d) (h : Reads A n d v a) :
    Reads A (n + 1) (asKeyed shapes) (object [(key, v)]) a where
  kept := kept_object_iff.2 ⟨n, rfl, by simpa using h.kept⟩
  decoded ctx hroom := by
    have hsingle : A.arranged [(key, v)] = [(key, A.apply v)] :=
      List.perm_singleton.1 (A.perm [(key, A.apply v)])
    rw [A.apply_object, hsingle, asKeyed, hlookup]
    exact h.decoded ctx.enter (by simp only [Context.enter]; omega)

end Decoders

/-! ## Members -/

/-- Where a key stands among members that are numbered from some place on. -/
def occurrencesFrom (key : String) (start : ℕ) (members : List (String × Json)) :
    List (ℕ × Json) :=
  (members.zipIdx start).filterMap fun m => if m.1.1 = key then some (m.2, m.1.2) else none

/-- A key that is not there does not occur, wherever the numbering starts. -/
theorem occurrencesFrom_eq_nil {key : String} {members : List (String × Json)}
    (h : key ∉ members.map Prod.fst) (start : ℕ) : occurrencesFrom key start members = [] := by
  induction members generalizing start with
  | nil => rfl
  | cons m ms ih =>
    rw [List.map_cons, List.mem_cons, not_or] at h
    rw [occurrencesFrom, List.zipIdx_cons, List.filterMap_cons, if_neg (Ne.symm h.1)]
    exact ih h.2 (start + 1)

/-- A key that is there once occurs once, wherever the numbering starts. -/
theorem exists_occurrencesFrom {key : String} {v : Json} {members : List (String × Json)}
    (hnodup : (members.map Prod.fst).Nodup) (h : (key, v) ∈ members) (start : ℕ) :
    ∃ i, occurrencesFrom key start members = [(i, v)] := by
  induction members generalizing start with
  | nil => exact absurd h List.not_mem_nil
  | cons m ms ih =>
    rw [List.map_cons, List.nodup_cons] at hnodup
    rw [occurrencesFrom, List.zipIdx_cons, List.filterMap_cons]
    rcases List.mem_cons.1 h with rfl | hmem
    · rw [if_pos rfl]
      exact ⟨start, congrArg _ (occurrencesFrom_eq_nil hnodup.1 (start + 1))⟩
    · have hne : m.1 ≠ key := by
        rintro rfl
        exact hnodup.1 (List.mem_map.2 ⟨_, hmem, rfl⟩)
      rw [if_neg hne]
      exact ih hnodup.2 hmem (start + 1)

/-- A key that is not there does not occur. -/
theorem occurrences_eq_nil {key : String} {members : List (String × Json)}
    (h : key ∉ members.map Prod.fst) : occurrences key members = [] :=
  occurrencesFrom_eq_nil h 0

/-- A key that is there once occurs once. -/
theorem exists_occurrences {key : String} {v : Json} {members : List (String × Json)}
    (hnodup : (members.map Prod.fst).Nodup) (h : (key, v) ∈ members) :
    ∃ i, occurrences key members = [(i, v)] :=
  exists_occurrencesFrom hnodup h 0

/-- Members that can all be passed over are. -/
theorem skipOthers_eq_ok {keys : List String} {members : List (String × Json)}
    (h : ∀ m ∈ members, m.1 ∉ keys → m.2.passable = true) : skipOthers keys members = .ok () := by
  have hnone : (members.findIdx? fun m => !keys.contains m.1 && !m.2.passable) = none := by
    rw [List.findIdx?_eq_none_iff]
    intro m hm
    by_cases hkey : m.1 ∈ keys
    · simp [hkey]
    · simp [h m hm hkey]
  simp only [skipOthers, hnone]

/-- Members that hold the fields of a record, each arranged, and beside them nothing under the
keys of the record. -/
structure Carries (A : Arrangement) (keys : List String) (fields members : List (String × Json)) :
    Prop where
  nodup : (members.map Prod.fst).Nodup
  mem : ∀ m ∈ fields, (m.1, A.apply m.2) ∈ members
  only : ∀ key ∈ keys, key ∈ members.map Prod.fst → key ∈ fields.map Prod.fst

section Members

variable {A : Arrangement} {n : ℕ} {α β : Type} {fields members : List (String × Json)}

/-- Members hold fields for fewer keys too. -/
theorem Carries.mono {keys keys' : List String} (h : Carries A keys fields members)
    (hkeys : keys' ⊆ keys) : Carries A keys' fields members :=
  ⟨h.nodup, h.mem, fun key hkey => h.only key (hkeys hkey)⟩

/-- The fields themselves, arranged. -/
theorem carries_arranged (hnodup : (fields.map Prod.fst).Nodup) (keys : List String) :
    Carries A keys fields (A.arranged fields) where
  nodup := (A.map_fst_arranged fields).nodup_iff.2 hnodup
  mem m hm := A.mem_arranged.2 ⟨m, hm, rfl⟩
  only _ _ hkey := (A.map_fst_arranged fields).mem_iff.1 hkey

/-- The fields without the tag that stands among them. -/
theorem carries_filter {tag : String} {v : Json}
    (hnodup : (((tag, v) :: fields).map Prod.fst).Nodup) (keys : List String) :
    Carries A keys fields ((A.arranged ((tag, v) :: fields)).filter fun m => m.1 ≠ tag) where
  nodup := ((A.map_fst_arranged _).nodup_iff.2 hnodup).sublist
    (List.filter_sublist.map Prod.fst)
  mem m hm := by
    have hne : m.1 ≠ tag := by
      rintro rfl
      exact (List.nodup_cons.1 hnodup).1 (List.mem_map.2 ⟨m, hm, rfl⟩)
    rw [List.mem_filter, A.mem_arranged]
    exact ⟨⟨m, List.mem_cons_of_mem _ hm, rfl⟩, by simpa using hne⟩
  only key _ hkey := by
    obtain ⟨m, hm, rfl⟩ := List.mem_map.1 hkey
    obtain ⟨hmem, hne⟩ := List.mem_filter.1 hm
    obtain ⟨w, hw, rfl⟩ := A.mem_arranged.1 hmem
    rcases List.mem_cons.1 hw with rfl | hw
    · simp at hne
    · exact List.mem_map.2 ⟨w, hw, rfl⟩

/-! ## Records -/

/-- A record gets a value back from its fields. -/
def Fills (A : Arrangement) (n : ℕ) (r : Record α) (fields : List (String × Json)) (a : α) : Prop :=
  ∀ (ctx : Context) (members : List (String × Json)), ctx.depth + n ≤ nestingLimit →
    Carries A r.keys fields members → r.ofMembers ctx members = .ok a

/-- A field that is there is read, whatever its default. -/
theorem fills_field {key : String} {v : Json} (hv : (key, v) ∈ fields) {d : Decoder α} {a : α}
    (h : Reads A n d v a) (noMember noItem : Option α) :
    Fills A n (Record.fieldWith key d noMember noItem) fields a := by
  intro ctx members hroom hcarries
  obtain ⟨i, hi⟩ := exists_occurrences hcarries.nodup (hcarries.mem _ hv)
  simp only [Record.fieldWith, hi, h.decoded ctx hroom]

/-- A field that is not there has its default. -/
theorem fills_default {key : String} (hkey : key ∉ fields.map Prod.fst) (d : Decoder α) (a : α)
    (noItem : Option α) : Fills A n (Record.fieldWith key d (some a) noItem) fields a := by
  intro ctx members _ hcarries
  have hmembers : key ∉ members.map Prod.fst := fun hmem =>
    hkey (hcarries.only key List.mem_cons_self hmem)
  simp only [Record.fieldWith, occurrences_eq_nil hmembers]

/-- A field that may be missing is read if there is a value, and is missing otherwise. -/
theorem fills_optional {key : String} {d : Decoder α} {encode : α → Json} {o : Option α}
    (hsome : ∀ a, o = some a → (key, encode a) ∈ fields)
    (hnone : o = none → key ∉ fields.map Prod.fst)
    (hnull : ∀ a, isNull (encode a) = false) (h : ∀ a, o = some a → Reads A n d (encode a) a) :
    Fills A n (Record.optional key d) fields o := by
  cases o with
  | none => exact fills_default (hnone rfl) _ none (some none)
  | some a =>
    have hread : Reads A n (asOptional d) (encode a) (some a) := by
      refine ⟨(h a rfl).kept, fun ctx hroom => ?_⟩
      have hvalue : isNull (A.apply (encode a)) = false := by rw [A.isNull_apply, hnull a]
      have hdecoded := (h a rfl).decoded ctx hroom
      unfold asOptional
      split
      · rename_i heq
        rw [heq] at hvalue
        exact absurd hvalue (by decide)
      · rw [hdecoded]
        rfl
    exact fills_field (hsome a rfl) hread (some none) (some none)

/-- A record made of a record has its fields. -/
theorem Fills.map {r : Record α} {a : α} (h : Fills A n r fields a) (f : α → β) :
    Fills A n (f <$> r) fields (f a) := by
  intro ctx members hroom hcarries
  change Reading.join (.ok f) (r.ofMembers ctx members) = _
  rw [h ctx members hroom hcarries]
  rfl

/-- Two records that are read side by side share their fields. -/
theorem Fills.seq {f : Record (α → β)} {r : Record α} {g : α → β} {a : α}
    (hf : Fills A n f fields g) (hr : Fills A n r fields a) : Fills A n (f <*> r) fields (g a) := by
  intro ctx members hroom hcarries
  change Reading.join (f.ofMembers ctx members) (r.ofMembers ctx members) = _
  rw [hf ctx members hroom (hcarries.mono (List.subset_append_left _ _)),
    hr ctx members hroom (hcarries.mono (List.subset_append_right _ _))]
  rfl

/-- A record is read from members that hold its fields, if the others can be passed over. -/
theorem Fills.members_eq_ok {r : Record α} {a : α} (h : Fills A n r fields a) {ctx : Context}
    (hroom : ctx.depth + n ≤ nestingLimit) (hcarries : Carries A r.keys fields members)
    (hothers : ∀ m ∈ members, m.1 ∉ r.keys → m.2.passable = true) :
    r.members ctx members = .ok a := by
  simp only [Record.members, skipOthers_eq_ok hothers, h ctx members hroom hcarries]
  rfl

/-- A record that cannot be filled is not read. -/
theorem toOption_members_eq_none {r : Record α} {ctx : Context} {e : ℕ × Fault}
    (h : r.ofMembers ctx members = .error e) : (r.members ctx members).toOption = none := by
  simp only [Record.members, h]
  cases skipOthers r.keys members <;> rfl

/-- The fields of a value, each under a key of its own, that a record gets the value back from. -/
structure Recorded (A : Arrangement) (n : ℕ) (r : Record α) (fields : List (String × Json))
    (a : α) : Prop where
  nodup : (fields.map Prod.fst).Nodup
  kept : ∀ m ∈ fields, Kept n m.2
  fills : Fills A n r fields a

/-- A record made of a record is read from the same fields. -/
theorem Recorded.map {r : Record α} {a : α} (h : Recorded A n r fields a) (f : α → β) :
    Recorded A n (f <$> r) fields (f a) :=
  ⟨h.nodup, h.kept, h.fills.map f⟩

/-- A record is read from the object of its fields. -/
theorem Recorded.objectOnly {r : Record α} {a : α} (h : Recorded A n r fields a) :
    Reads A (n + 1) r.objectOnly (object fields) a where
  kept := kept_object_iff.2 ⟨n, rfl, h.kept⟩
  decoded ctx hroom := by
    rw [A.apply_object]
    refine h.fills.members_eq_ok (by simp only [Context.enter]; omega)
      (carries_arranged h.nodup _) fun m hm _ => ?_
    obtain ⟨w, hw, rfl⟩ := A.mem_arranged.1 hm
    exact ((h.kept w hw).apply A).passable

/-- A record is read from the object of its fields, where a list would do too. -/
theorem Recorded.decode {r : Record α} {a : α} (h : Recorded A n r fields a) :
    Reads A (n + 1) r.decode (object fields) a where
  kept := h.objectOnly.kept
  decoded ctx hroom := by
    have hobject := h.objectOnly.decoded ctx hroom
    rwa [A.apply_object] at hobject ⊢

/-- A tagged record is read wherever its tag stands. -/
theorem Recorded.tagged {r : Record α} {a : α} (h : Recorded A n r fields a) {tag name : String}
    (htag : tag ∉ fields.map Prod.fst) {shapes : List (String × Record α)}
    (hlookup : shapes.lookup name = some r) :
    Reads A (n + 1) (asTagged tag shapes) (object ((tag, string name) :: fields)) a where
  kept := kept_object_iff.2 ⟨n, rfl, List.forall_mem_cons.2 ⟨kept_string n name, h.kept⟩⟩
  decoded ctx hroom := by
    have hnodup : (((tag, string name) :: fields).map Prod.fst).Nodup :=
      List.nodup_cons.2 ⟨htag, h.nodup⟩
    obtain ⟨i, hi⟩ := exists_occurrences ((A.map_fst_arranged _).nodup_iff.2 hnodup)
      (A.mem_arranged.2 ⟨(tag, string name), List.mem_cons_self, rfl⟩)
    have hothers : ∀ m ∈ (A.arranged ((tag, string name) :: fields)).filter fun m => m.1 ≠ tag,
        Kept n m.2 := by
      intro m hm
      obtain ⟨hmem, hne⟩ := List.mem_filter.1 hm
      obtain ⟨w, hw, rfl⟩ := A.mem_arranged.1 hmem
      rcases List.mem_cons.1 hw with rfl | hw
      · simp at hne
      · exact (h.kept w hw).apply A
    have hall : ((A.arranged ((tag, string name) :: fields)).filter fun m => m.1 ≠ tag).all
        (fun m => canHold ctx.enter m.2) = true :=
      List.all_eq_true.2 fun m hm => (hothers m hm).canHold (by simp only [Context.enter]; omega)
    rw [A.apply_object]
    simp only [asTagged, hi, Arrangement.apply, hlookup, hall, if_true]
    exact h.fills.members_eq_ok (by simp only [Context.held]; omega) (carries_filter hnodup _)
      fun m hm _ => (hothers m hm).passable

/-! ## Kinds -/

/-- The members of a kind are not passed over. -/
theorem skipOthers_arranged {keys : List String} (h : ∀ m ∈ fields, m.1 ∈ keys) :
    skipOthers keys (A.arranged fields) = .ok () := by
  refine skipOthers_eq_ok fun m hm hkey => ?_
  obtain ⟨w, hw, rfl⟩ := A.mem_arranged.1 hm
  exact absurd (h w hw) hkey

/-- A kind is read with its value, whichever stands first. -/
theorem reads_kind {kinds : List (String × Payload α)} {name : String} {d : Decoder α} {v : Json}
    {a : α} (hlookup : kinds.lookup name = some (.value d)) (h : Reads A n d v a) :
    Reads A (n + 1) (asKind kinds) (object [("kind", string name), ("value", v)]) a where
  kept := kept_object_iff.2 ⟨n, rfl, by simpa using ⟨kept_string n name, h.kept⟩⟩
  decoded ctx hroom := by
    have henter : ctx.enter.depth + n ≤ nestingLimit := by
      simp only [Context.enter]
      omega
    have hcarries : Carries A ["kind", "value"] [("kind", string name), ("value", v)] _ :=
      carries_arranged (by simp) _
    obtain ⟨i, hi⟩ := exists_occurrences hcarries.nodup
      (hcarries.mem ("kind", string name) (by simp))
    obtain ⟨j, hj⟩ := exists_occurrences hcarries.nodup (hcarries.mem ("value", v) (by simp))
    have hskip : skipOthers ["kind", "value"]
        (A.arranged [("kind", string name), ("value", v)]) = .ok () :=
      skipOthers_arranged (by simp)
    rw [A.apply_object]
    simp only [asKind, hskip, hi, hj, Arrangement.apply, asName, hlookup]
    by_cases hfirst : i < j
    · simp only [Reading.settle, Except.mapError, bind, Except.bind, hfirst, if_true, Payload.read]
      exact h.decoded ctx.enter henter
    · -- the value stands in front and is set aside until the kind is known
      simp only [Reading.settle, Except.mapError, bind, Except.bind, hfirst, if_false, Payload.read,
        (h.kept.apply A).canHold henter, if_true]
      exact h.decoded Context.held (by simp only [Context.held]; omega)

/-- A kind without a value is read. -/
theorem reads_bare_kind {kinds : List (String × Payload α)} {name : String} {a : α}
    (hlookup : kinds.lookup name = some (.nothing a)) :
    Reads A (n + 1) (asKind kinds) (object [("kind", string name)]) a where
  kept := kept_object_iff.2 ⟨n, rfl, by simpa using kept_string n name⟩
  decoded ctx hroom := by
    have hsingle : A.arranged [("kind", string name)] = [("kind", string name)] :=
      List.perm_singleton.1 (A.perm [("kind", string name)])
    have hkind : occurrences "kind" [("kind", string name)] = [(0, string name)] := rfl
    have hvalue : occurrences "value" [("kind", string name)] = [] := rfl
    have hskip : skipOthers ["kind", "value"] [("kind", string name)] = .ok () := rfl
    rw [A.apply_object, hsingle]
    simp only [asKind, hskip, hkind, hvalue, asName, hlookup]
    rfl

end Members

/-- What is written is read back from the text of any arrangement. -/
theorem Reads.decodeText_eq_ok {α : Type} {A : Arrangement} {n : ℕ} {d : Decoder α} {v : Json}
    {a : α} (h : Reads A n d v a) (hroom : n ≤ nestingLimit) (style : Style) :
    decodeText d ((A.apply v).text style) = .ok a := by
  rw [decodeText_text, (h.kept.apply A).reread]
  exact h.decoded Context.text (by simpa [Context.text] using hroom)

end Montage.Json
