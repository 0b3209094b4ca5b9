import HalConstants.Files.Path

/-!
# The manifest

A manifest gives the settings of a run that the command line does not give. Its paths are relative to
the directory that holds it.
-/

namespace HalConstants

structure JavaTarget where
  inputs : List String := []
  output : Option String := none
  package : Option String := none
  className : Option String := none
  stem : Option String := none
  year : Option Int := none
deriving DecidableEq, Repr

structure PythonTarget where
  document : Option String := none
  output : Option String := none
  halVersion : Option String := none
  year : Option Int := none
deriving DecidableEq, Repr

structure Manifest where
  java : JavaTarget := {}
  python : PythonTarget := {}
deriving DecidableEq, Repr

/-- Puts every path below a base. -/
def Manifest.rebase (m : Manifest) (base : String) : Manifest where
  java := { m.java with
    inputs := m.java.inputs.map (Path.join base)
    output := m.java.output.map (Path.join base) }
  python := { m.python with
    document := m.python.document.map (Path.join base)
    output := m.python.output.map (Path.join base) }

end HalConstants
