import Pinpoint.Proofs.Config.Document
import Pinpoint.Proofs.Files.Writing
import Pinpoint.Proofs.Text.Utf8

/-!
# A configuration through its file

A configuration that is written to `.evmlint.yml` in a directory is the one that is then in force there
(`load_of_written`). The name is the first of those that are looked for, so it does not matter what stands under the
other one; the bytes decode to the text that was written, which has no line ends but line feeds (`readText_toYaml`),
and the text gives the configuration.
-/

namespace Pinpoint.Config

variable {t : FileTree} {directory : Path}

/-- The file that is looked for first is the one in force, if it is there. -/
theorem fileIn?_of_find {content : List UInt8} (h : t.find (directory.child ".evmlint.yml") = .ok (.file content)) :
    fileIn? t directory = some (directory.child ".evmlint.yml") := by
  have hexists : t.pathExists (directory.child ".evmlint.yml") = true := by
    rw [FileTree.pathExists, h]
    rfl
  rw [fileIn?, fileNames, List.map_cons, List.find?_cons, hexists]

/-- The text of a configuration is read as it was written. -/
theorem readText_toYaml {file : Path} (c : Config) (h : t.find file = .ok (.file c.toYaml.toUTF8.toList)) :
    t.readText file = .ok c.toYaml.toList := by
  have hends : '\r' ∉ c.toYaml.toList := c.isTidy_toYaml.not_mem_return
  unfold FileTree.readText
  simp only [h, Text.Utf8.decode_toUTF8, Text.unifyLineEnds_eq_self hends]

/-- **A configuration goes through its file.** In a directory it can be written to `.evmlint.yml`, unless a directory
has that name; it is the configuration in force afterwards, and whatever else there was is still there, another
configuration under the other name included. -/
theorem load_of_written (c : Config) (t : FileTree) (directory : Path) (hdirectory : t.find directory = .ok .directory)
    (hfree : t.find (directory.child ".evmlint.yml") ≠ .ok .directory) :
    ∃ t', t.writeText (directory.child ".evmlint.yml") c.toYaml = .ok t' ∧ load t' directory = .ok c ∧
      ∀ place, place ≠ t.placeOf (directory.child ".evmlint.yml") → t'.entryAt place = t.entryAt place := by
  have hwrite := FileTree.write_child hdirectory hfree c.toYaml.toUTF8.toList
  have hfind := FileTree.find_child_withContent hdirectory hfree c.toYaml.toUTF8.toList
  refine ⟨_, hwrite, ?_, fun place hplace => FileTree.entryAt_put_of_ne t hplace _⟩
  rw [load, fileIn?_of_find hfind]
  simp only [readText_toYaml c hfind, Except.mapError, bind, Except.bind, ofText_toYaml]

/-- A directory with a configuration under each of the two names. -/
def crowded : FileTree where
  workingDirectory := ["project"]
  entries := [(["project"], .directory),
    (["project", ".evmlint.yml"], .file "report:\n  debug: false\n".toUTF8.toList),
    (["project", ".evmlint.yaml"], .file "report:\n  debug: true\n".toUTF8.toList)]

/-- Among the contracts are texts that have to be quoted, escaped or broken over two lines. -/
def delicate : Config where
  spaceLimited := true
  debug := false
  strict := true
  contracts := ["Token", "", "yes", "~", "0x1F", "it's", "a: b", "- a", " a", "a #b", "two\nlines", "a \n b", "\"",
    "é\x85",
    "a text that is broken, since a line of it would go on beyond the column at which lines are broken"]

theorem load_delicate : crowded.find .here = .ok .directory ∧
    crowded.find (Path.here.child ".evmlint.yml") ≠ .ok .directory ∧
    ∃ t', crowded.writeText (Path.here.child ".evmlint.yml") delicate.toYaml = .ok t' ∧
      load t' .here = .ok delicate ∧
      ∀ place, place ≠ crowded.placeOf (Path.here.child ".evmlint.yml") →
        t'.entryAt place = crowded.entryAt place :=
  have hdirectory : crowded.find .here = .ok .directory := rfl
  have hfree : crowded.find (Path.here.child ".evmlint.yml") ≠ .ok .directory := nofun
  ⟨hdirectory, hfree, load_of_written delicate crowded .here hdirectory hfree⟩

end Pinpoint.Config
