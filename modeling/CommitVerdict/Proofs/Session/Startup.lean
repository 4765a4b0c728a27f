import CommitVerdict.Proofs.Differential.Reconstruction
import CommitVerdict.Proofs.FileSystem.Straight
import CommitVerdict.Session

namespace CommitVerdict

namespace Session

/-- The checks at the start pass, the session is no dry run, and its log file is open. -/
structure Passes (o : Options) (s : Surroundings) (startup : Startup) (log : Option Path)
    (files : FileSystem) : Prop where
  start_eq : start o s = .ok startup
  not_dryRun : o.dryRun = false
  openLog_eq : openLog o s = (.ok log, files)
  available : startup.command.isAvailable (s.withFiles files).host s.directory = true

variable {o : Options} {s : Surroundings} {startup : Startup} {log : Option Path} {files : FileSystem}

/-- Behind its checks a session shows what its work comes to. -/
theorem Passes.runWith_eq (hpasses : Passes o s startup log files) (work) :
    let result := work o (s.withFiles files) startup
    runWith work o s = transcript o (s.withFiles files) log result.2 result.1 := by
  obtain ⟨hstart, hdry, hlog, havailable⟩ := hpasses
  have hsuite : (suiteOf startup (s.withFiles files)).checkAvailable = .ok () := by
    rw [Suite.checkAvailable]
    exact if_pos havailable
  simp only [runWith, hstart, hdry, hlog, hsuite]
  rfl

end Session

namespace Sample

def options : Options :=
  { Options.default with references := ["main", "main~"], testCommand := some "./check" }

/-- A machine with the repository in its directory `r`. -/
def surroundings : Surroundings where
  host := ⟨Directory.makeDirectory Tree.empty ["r", ".git"], [(["r"], repository)], []⟩
  directory := ["r"]
  workspaceRoot := "/t"
  clock := fun _ => ⟨"", ""⟩
  runTime := .zero
  totalTime := .zero

def startup : Startup := ⟨["r"], .default, ⟨"./check", []⟩⟩

theorem spells_root : FileSystem.Spells "/r" ["r"] := by decide

/-- A file system with a repository in its directory `r`. -/
structure HasRoot (fs : FileSystem) : Prop where
  step : fs.IsStep [] "r"
  root : fs.isDirectoryAt ["r"] = true
  markerStep : fs.IsStep ["r"] ".git"
  marker : fs.isDirectoryAt ["r", ".git"] = true

/-- The directory of the repository is found from everywhere. -/
theorem HasRoot.canonicalize_eq {fs : FileSystem} (hroot : HasRoot fs) (directory : Path) :
    fs.canonicalize directory "/r" = .ok ["r"] := by
  have horigin : FileSystem.origin directory "/r" = [] := if_pos (by decide)
  have hstraight : fs.Straight (FileSystem.origin directory "/r") ["r"] := by
    rw [horigin]
    exact .cons hroot.step (.inl rfl) .nil
  rw [hstraight.canonicalize_eq spells_root, horigin, List.nil_append, hroot.root]
  rfl

theorem HasRoot.isMarked_eq {fs : FileSystem} (hroot : HasRoot fs) : Locator.isMarked fs ["r"] = true := by
  have hspells : FileSystem.Spells ".git" [".git"] := by decide
  have hstraight : fs.Straight ["r"] [".git"] := .cons hroot.markerStep (.inl rfl) .nil
  have hfound : fs.canonicalize ["r"] ".git" = .ok ["r", ".git"] := by
    have horigin : FileSystem.origin ["r"] ".git" = ["r"] := if_neg (by decide)
    rw [FileSystem.Straight.canonicalize_eq hspells (horigin ▸ hstraight), horigin, List.singleton_append,
      hroot.marker]
    rfl
  exact FileSystem.existsAt_of_canonicalize hfound

theorem HasRoot.locate_eq {fs : FileSystem} (hroot : HasRoot fs) : Locator.locate fs ["r"] "/r" = .ok ["r"] := by
  have hancestors : (Locator.ancestors ["r"]).take Locator.searchDepth = [["r"], []] := by decide
  have henclosing : Locator.enclosing? fs ["r"] = some ["r"] := by
    rw [Locator.enclosing?, hancestors, List.find?_cons_of_pos hroot.isMarked_eq]
  rw [Locator.locate, hroot.canonicalize_eq]
  simp only [henclosing]

theorem hasRoot : HasRoot surroundings.host.files := by constructor <;> decide

theorem join_fileName : PathText.join "/r" ProjectConfig.fileName = "/r/legitest.toml" := by
  rw [PathText.join, endsWith_eq_false (by decide)]
  decide

theorem spells_fileName : FileSystem.Spells "/r/legitest.toml" ["r", "legitest.toml"] := by decide

/-- There is no file of settings. -/
theorem load_root : ProjectConfig.load surroundings.host.files "/r" = .ok none := by
  have hstraight : FileSystem.Straight surroundings.host.files (FileSystem.origin [] "/r/legitest.toml")
      ["r", "legitest.toml"] := .cons (by decide) (.inr (by decide)) (.cons (by decide) (.inl rfl) .nil)
  have hmissing : surroundings.host.files.canonicalize [] "/r/legitest.toml" = .error .notFound := by
    rw [hstraight.canonicalize_eq spells_fileName]
    exact if_neg (by decide)
  have hexists := FileSystem.existsAt_eq_false hmissing
  simp only [ProjectConfig.load, join_fileName, hexists]
  rfl

theorem start_eq : Session.start options surroundings = .ok startup := by
  have habsolute : Path.toAbsolute ["r"] = "/r" := by decide
  have hwords : Options.words "./check" = ["./check"] := by decide +kernel
  have hcommand : TestCommand.ofParts ["./check"] = .ok ⟨"./check", []⟩ := by
    have hblank : isBlankText "./check" = false := by decide
    simp [TestCommand.ofParts, hblank]
  have hsettings : (ProjectConfig.empty.resolve options.overrides) = ⟨.default, ["./check"]⟩ := by
    simp [ProjectConfig.resolve, ProjectConfig.empty, options, Options.overrides, Options.default, hwords,
      ProjectLayout.default]
  have hlocate : Locator.locate surroundings.host.files surroundings.directory
      (options.workingDir.getD surroundings.directory.toAbsolute) = .ok ["r"] := by
    rw [← hasRoot.locate_eq, ← habsolute]
    rfl
  simp only [Session.start, hlocate, bind, Except.bind, Except.mapError, habsolute, load_root,
    Option.getD_none, hsettings, hcommand]
  rfl

theorem passes : Session.Passes options surroundings startup none surroundings.host.files where
  start_eq := start_eq
  not_dryRun := rfl
  openLog_eq := rfl
  available := by
    have hcomponents : (PathText.components startup.command.program).length = 2 := by decide
    have habsolute : PathText.isAbsolute startup.command.program = false := by decide
    simp [TestCommand.isAvailable, habsolute, hcomponents]

end Sample

end CommitVerdict
