/-!
# Annotation keys

The documentation comment of a property describes it by keys. A key stands for itself (the two range
keys) or takes the word after it as its value.
-/

namespace HalConstants

inductive AnnotationKey where
  | valueType
  | changeMode
  | access
  | unit
  | rangeStart
  | rangeEnd
deriving DecidableEq, Repr

namespace AnnotationKey

def all : List AnnotationKey := [valueType, changeMode, access, unit, rangeStart, rangeEnd]

def token : AnnotationKey → String
  | valueType => "@value_type"
  | changeMode => "@change_mode"
  | access => "@access"
  | unit => "@unit"
  | rangeStart => "@range_start"
  | rangeEnd => "@range_end"

def ofToken? (word : String) : Option AnnotationKey := all.find? (·.token == word)

def takesValue : AnnotationKey → Bool
  | rangeStart => false
  | rangeEnd => false
  | _ => true

@[simp] theorem ofToken?_token (k : AnnotationKey) : ofToken? k.token = some k := by
  cases k <;> rfl

theorem ofToken?_eq_some_iff {word : String} {k : AnnotationKey} :
    ofToken? word = some k ↔ word = k.token := by
  constructor
  · intro h
    rw [ofToken?] at h
    have htoken := List.find?_some h
    exact (beq_iff_eq.1 htoken).symm
  · rintro rfl
    exact ofToken?_token k

end AnnotationKey

end HalConstants
