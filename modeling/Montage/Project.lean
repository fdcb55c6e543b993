import Montage.Element
import Montage.Timeline

/-!
# Projects

A project declares elements, groups that share options among elements, and the timeline. Names
are looked up from the front: the first declaration of a name counts.
-/

namespace Montage

/-- Options for several elements. -/
structure Group (O : Type) where
  name : String
  /-- The names of the elements the options are for. -/
  members : List String
  options : List O
  deriving DecidableEq, Repr

/-- Whether a group is for an element. -/
def Group.appliesTo {O : Type} (g : Group O) (element : String) : Bool :=
  g.members.contains element

/-- A group of any category. -/
inductive OptionGroup where
  | video (g : Group VideoOption)
  | audio (g : Group AudioOption)
  | text (g : Group TextOption)
  deriving DecidableEq, Repr

namespace OptionGroup

/-- The name of a group. -/
def name : OptionGroup → String
  | video g => g.name
  | audio g => g.name
  | text g => g.name

/-- The elements a group is for. -/
def members : OptionGroup → List String
  | video g => g.members
  | audio g => g.members
  | text g => g.members

/-- The group as one of video options. -/
def video? : OptionGroup → Option (Group VideoOption)
  | video g => some g
  | _ => none

/-- The group as one of audio options. -/
def audio? : OptionGroup → Option (Group AudioOption)
  | audio g => some g
  | _ => none

/-- The group as one of text options. -/
def text? : OptionGroup → Option (Group TextOption)
  | text g => some g
  | _ => none

end OptionGroup

/-- A film described by its parts. -/
structure Project where
  /-- The name of the finished film, without its ending. -/
  outputName : String
  elements : List Element
  groups : List OptionGroup
  timeline : List Entry
  deriving DecidableEq, Repr

namespace Project

/-- The first element of a name. -/
def element? (p : Project) (name : String) : Option Element :=
  p.elements.find? fun e => e.name = name

/-- The first entry of a name. -/
def entry? (p : Project) (name : String) : Option Entry :=
  p.timeline.find? fun e => e.name = name

/-- Where the first entry of a name stands. -/
def entryIndex? (p : Project) (name : String) : Option Nat :=
  p.timeline.findIdx? fun e => e.name = name

/-- The groups of video options that are for an element, in their order. -/
def videoGroupsOf (p : Project) (element : String) : List (Group VideoOption) :=
  (p.groups.filterMap OptionGroup.video?).filter fun g => g.appliesTo element

/-- The groups of audio options that are for an element, in their order. -/
def audioGroupsOf (p : Project) (element : String) : List (Group AudioOption) :=
  (p.groups.filterMap OptionGroup.audio?).filter fun g => g.appliesTo element

/-- The groups of text options that are for an element, in their order. -/
def textGroupsOf (p : Project) (element : String) : List (Group TextOption) :=
  (p.groups.filterMap OptionGroup.text?).filter fun g => g.appliesTo element

end Project

end Montage
