import AvroTypings.Bundle

/-!
# Settings

What a run needs to know: where the schemas are, where the output goes, and whether defects stop
the run.

## Main definitions

* `Settings`: the settings, with their defaults.
* `Settings.target`: where the output goes.
* `Settings.banner`: what the output says about itself.
-/

namespace AvroTypings

/-- The settings of a run. -/
structure Settings where
  schemaDir : Path := ⟨"schemas"⟩
  outDir : Path := ⟨"generated/ts"⟩
  outFile : Path := ⟨"events.ts"⟩
  strict : Bool := false
  deriving DecidableEq

namespace Settings

/-- Where the output goes: into the output directory, unless the output file is absolute. -/
def target (s : Settings) : Path :=
  if s.outFile.isAbsolute then s.outFile else s.outDir.join s.outFile

/-- The banner of the output: the schema directory, and the name of the output file or, if it has
none, its whole path. -/
def banner (s : Settings) : Banner :=
  ⟨s.schemaDir.text, s.target.fileName.getD s.target.text⟩

end Settings

end AvroTypings
