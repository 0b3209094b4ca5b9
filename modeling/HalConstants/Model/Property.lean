import HalConstants.Model.Annotation

/-!
# Properties

A property is a numeric constant of a header together with the facts that its documentation comment
states about it. The change mode is kept as written; `changeModes` lists the modes it is made of.
-/

namespace HalConstants

structure Property where
  name : String
  value : String
  valueType : Option String := none
  changeMode : Option String := none
  access : Option String := none
  unit : Option String := none
  isRangeMarker : Bool := false
deriving DecidableEq, Repr

namespace Property

/-- The pieces of the change mode between bars; none when no change mode is set. -/
def changeModes (p : Property) : List String :=
  match p.changeMode with
  | some modes => (modes.toList.splitOn '|').map String.ofList
  | none => []

/-- A later value replaces an earlier one. -/
def annotate (p : Property) (key : AnnotationKey) (value : Option String) : Property :=
  match key with
  | .valueType => { p with valueType := value }
  | .changeMode => { p with changeMode := value }
  | .access => { p with access := value }
  | .unit => { p with unit := value }
  | .rangeStart | .rangeEnd => { p with isRangeMarker := true }

@[simp] theorem name_annotate (p : Property) (k : AnnotationKey) (v : Option String) :
    (p.annotate k v).name = p.name := by
  cases k <;> rfl

@[simp] theorem value_annotate (p : Property) (k : AnnotationKey) (v : Option String) :
    (p.annotate k v).value = p.value := by
  cases k <;> rfl

end Property

end HalConstants
