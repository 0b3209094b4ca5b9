import HalConstants.Header.Enumeration
import HalConstants.Header.Property
import HalConstants.Header.Stem
import HalConstants.Model

/-!
# Models of headers

The model of a header holds its annotated properties and its enumerations. A malformed annotation spoils
the whole model; text of any other shape is skipped.
-/

namespace HalConstants.Header

def model (stem : String) (sources : Sources) : Except InputError Model := do
  let properties ← properties stem sources
  return { properties := properties, enumerations := enumerations sources.text }

end HalConstants.Header
