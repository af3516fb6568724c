import TypingsIndex.Settings.Basic

/-!
# What a change of settings means

New output files only have to be announced. A change of any other field concerns what is generated, and
the catalog is built anew; a new declaration path moves the declaration root as well.
-/

set_option autoImplicit false

namespace TypingsIndex

/-- What differs between two settings, as far as it matters to those who follow them. -/
structure SettingsChange where
  classMoved : Bool
  interfaceMoved : Bool
  declarationPathMoved : Bool
  /-- Something that the generated code depends on has changed. -/
  needsRebuild : Bool
  deriving DecidableEq, Repr, Inhabited

namespace SettingsChange

/-- The change from old to new settings. -/
def between (old new : Settings) : SettingsChange where
  classMoved := old.output.classFile != new.output.classFile
  interfaceMoved := old.output.interfaceFile != new.output.interfaceFile
  declarationPathMoved := old.declarationPath != new.declarationPath
  -- all fields but the output files
  needsRebuild :=
    old.declarationPath != new.declarationPath
      || old.moduleCalls != new.moduleCalls
      || old.runtimeCalls != new.runtimeCalls
      || old.promises != new.promises
      || old.functionNaming != new.functionNaming
      || old.preloadNaming != new.preloadNaming
      || old.preloadAllName != new.preloadAllName
      || old.usings != new.usings
      || old.typeMap != new.typeMap

/-- Nothing has changed. -/
def isEmpty (change : SettingsChange) : Bool :=
  !change.classMoved && !change.interfaceMoved && !change.declarationPathMoved && !change.needsRebuild

end SettingsChange

end TypingsIndex
