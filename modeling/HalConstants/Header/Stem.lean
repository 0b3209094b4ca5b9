/-!
# Stems

The stem is the common start of the names of all properties.
-/

namespace HalConstants.Header

def defaultStem : String := "VEHICLE_PROPERTY_"

def isStem (stem : List Char) : Bool :=
  !stem.isEmpty && stem.all fun c => c.isAlphanum || c == '_'

def stemRule : String := "prefix must be a non-empty run of letters, digits and '_'"

end HalConstants.Header
