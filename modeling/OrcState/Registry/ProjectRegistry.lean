import OrcState.Foundation.Effect
import OrcState.Foundation.Table
import OrcState.Foundation.Transition
import OrcState.Markdown.Frontmatter

/-!
# The project registry

A registered project is a row of `registry.db` and a state directory with the
project's descriptor in it.  `add` makes the directory, inserts the row and writes
the descriptor, and on a throw it removes the directory; the row stays, if it was
inserted.
-/

namespace OrcState.Registry

open OrcState.Foundation OrcState.Foundation.Json
open OrcState.Markdown (units trim)

/-! ## Rows and directories -/

structure ProjectRecord where
  id : Units
  name : Units
  canonicalGitRoot : Units
  stateDir : Units
  createdAt : Units
  deriving DecidableEq

structure Descriptor where
  id : Units
  name : Units
  targetRepoRoot : Units
  deriving DecidableEq

def ProjectRecord.descriptor (p : ProjectRecord) : Descriptor where
  id := p.id
  name := p.name
  targetRepoRoot := p.canonicalGitRoot

structure Contents where
  descriptor : Option Descriptor := none
  files : List (Units × Units) := []
  deriving DecidableEq

structure StateDirectory where
  path : Units
  contents : Contents := {}
  deriving DecidableEq

structure ProjectRegistry where
  dataHome : Units
  projects : Table Units ProjectRecord ProjectRecord.id := Table.empty
  selectedProjectId : Option Units := none
  directories : Table Units StateDirectory StateDirectory.path := Table.empty

abbrev Prepare := ProjectRecord → Contents → Except Units Unit × Contents

structure WriteFailure where
  message : Units
  /-- The file was opened, and so emptied, before the write failed. -/
  truncated : Bool
  deriving DecidableEq

structure Answers where
  gitRoot : Except Units Units
  randomUUID : Units
  now : Units
  mkdir : Option Units := none
  insert : Option Units := none
  write : Option WriteFailure := none
  remove : Option Units := none

abbrev Call := Effect ProjectRegistry Units

def join (dataHome id : Units) : Units := dataHome ++ units "/projects/" ++ id

def includes (text part : Units) : Bool := text.tails.any (part.isPrefixOf ·)

/-! ## The steps of a registration -/

/-- `recursive`: a directory that is there already is kept. -/
def mkdirSync (path : Units) (failure : Option Units) : Call Unit := fun s =>
  match failure with
  | some message => (.error message, s)
  | none =>
      match s.directories.find? path with
      | some _ => (.ok (), s)
      | none => (.ok (), { s with directories := s.directories.upsert { path := path } })

def rmSync (path : Units) (failure : Option Units) : Call Unit := fun s =>
  match failure with
  | some message => (.error message, s)
  | none =>
      (.ok (), { s with directories := s.directories.filter (·.path ≠ path) })

def StateDirectory.fill (d : StateDirectory) (contents : Contents) : StateDirectory :=
  { d with contents := contents }

def runPrepare (prepare : Option Prepare) (project : ProjectRecord) : Call Unit :=
  fun s =>
    match prepare, s.directories.find? project.stateDir with
    | some prepare, some directory =>
        let prepared := prepare project directory.contents
        (prepared.1, { s with
          directories := s.directories.update project.stateDir
            (·.fill prepared.2) fun _ => rfl })
    | _, _ => (.ok (), s)

def violated (s : ProjectRegistry) (project : ProjectRecord) : Option Units :=
  if s.projects.rows.any (·.id = project.id) then
    some (units "UNIQUE constraint failed: projects.id")
  else if s.projects.rows.any (·.canonicalGitRoot = project.canonicalGitRoot) then
    some (units "UNIQUE constraint failed: projects.git_root")
  else if s.projects.rows.any (·.stateDir = project.stateDir) then
    some (units "UNIQUE constraint failed: projects.state_dir")
  else none

def insertProject (project : ProjectRecord) (failure : Option Units) : Call Unit :=
  fun s =>
    match failure.or (violated s project) with
    | some message => (.error message, s)
    | none => (.ok (), { s with projects := s.projects.upsert project })

def Contents.describe (c : Contents) (descriptor : Option Descriptor) : Contents :=
  { c with descriptor := descriptor }

def StateDirectory.describe (d : StateDirectory) (descriptor : Option Descriptor) :
    StateDirectory :=
  d.fill (d.contents.describe descriptor)

def writeProjectDescriptor (project : ProjectRecord) (failure : Option WriteFailure) :
    Call Unit := fun s =>
  match s.directories.find? project.stateDir, failure with
  | none, _ => (.error (units "ENOENT: no such file or directory"), s)
  | some _, none =>
      (.ok (), { s with
        directories := s.directories.update project.stateDir
          (·.describe (some project.descriptor)) fun _ => rfl })
  | some _, some failure =>
      (.error failure.message,
        if failure.truncated then
          { s with
            directories := s.directories.update project.stateDir (·.describe none)
              fun _ => rfl }
        else s)

/-- `name?.trim() || gitRoot.split('/').at(-1) || id` -/
def nameOf (name : Option Units) (gitRoot id : Units) : Units :=
  [(name.map trim).getD [], (gitRoot.splitOn 0x2F).getLast?.getD []].find? (· ≠ []) |>.getD id

def recordOf (s : ProjectRegistry) (name : Option Units) (gitRoot : Units)
    (answers : Answers) : ProjectRecord where
  id := answers.randomUUID
  name := nameOf name gitRoot answers.randomUUID
  canonicalGitRoot := gitRoot
  stateDir := join s.dataHome answers.randomUUID
  createdAt := answers.now

def register (project : ProjectRecord) (prepare : Option Prepare) (answers : Answers) :
    Call ProjectRecord := do
  runPrepare prepare project
  insertProject project answers.insert
  writeProjectDescriptor project answers.write
  return project

def giveUp (project : ProjectRecord) (answers : Answers) (error : Units) :
    Call ProjectRecord := do
  rmSync project.stateDir answers.remove
  Effect.ofExcept (.error
    (if includes error (units "UNIQUE constraint failed: projects.git_root") then
      units "Git repository is already registered: " ++ project.canonicalGitRoot
    else error))

def add (name : Option Units) (prepare : Option Prepare) (answers : Answers) :
    Call ProjectRecord := do
  let gitRoot ← Effect.ofExcept answers.gitRoot
  let s ← Effect.read
  let project := recordOf s name gitRoot answers
  mkdirSync project.stateDir answers.mkdir
  Effect.catching (register project prepare answers) (giveUp project answers)

def select (id : Units) : Call ProjectRecord := do
  let s ← Effect.read
  let project ← Effect.orThrow (s.projects.find? id)
    (units "Project is not registered: " ++ id)
  fun s => (.ok project, { s with selectedProjectId := some id })

def describe (id : Units) (failure : Option WriteFailure) : Call Unit := do
  let s ← Effect.read
  let project ← Effect.orThrow (s.projects.find? id)
    (units "ORC_PROJECT_ID is not a registered project: " ++ id)
  writeProjectDescriptor project failure

/-! ## Runs -/

inductive Label where
  | add (name : Option Units) (prepare : Option Prepare) (answers : Answers)
  | select (id : Units)
  | describe (id : Units) (failure : Option WriteFailure)

/-- A random identifier names no directory that is there already. -/
def Fresh (s : ProjectRegistry) (answers : Answers) : Prop :=
  s.directories.find? (join s.dataHome answers.randomUUID) = none

instance (s : ProjectRegistry) (answers : Answers) : Decidable (Fresh s answers) :=
  inferInstanceAs (Decidable (_ = _))

def registrySystem : System ProjectRegistry Label where
  initial s := s.projects = Table.empty ∧ s.directories = Table.empty
  step s
    | .add name prepare answers =>
        if Fresh s answers then some (add name prepare answers s).2 else none
    | .select id => some (select id s).2
    | .describe id failure => some (describe id failure s).2

/-! ## What is asked of it -/

/-- A refused registration leaves the rows and the directories as they were. -/
def AllOrNothing (s : ProjectRegistry) (name : Option Units) (prepare : Option Prepare)
    (answers : Answers) : Prop :=
  ∀ message t, add name prepare answers s = (.error message, t) →
    t.projects = s.projects ∧ t.directories = s.directories

def Described (s : ProjectRegistry) : Prop :=
  ∀ project, project ∈ s.projects → ∃ directory,
    s.directories.find? project.stateDir = some directory ∧
      directory.contents.descriptor = some project.descriptor

/-! ## The condition -/

def prepared (prepare : Option Prepare) (project : ProjectRecord) : Except Units Unit :=
  (prepare.map fun f => (f project {}).1).getD (.ok ())

def Inserts (s : ProjectRegistry) (name : Option Units) (prepare : Option Prepare)
    (gitRoot : Units) (answers : Answers) : Prop :=
  prepared prepare (recordOf s name gitRoot answers) = .ok () ∧
    answers.insert = none ∧ violated s (recordOf s name gitRoot answers) = none

def Writes (s : ProjectRegistry) (name : Option Units) (prepare : Option Prepare)
    (answers : Answers) : Prop :=
  ∀ gitRoot, answers.gitRoot = .ok gitRoot → answers.mkdir = none →
    Inserts s name prepare gitRoot answers → answers.write = none

def Removes (s : ProjectRegistry) (name : Option Units) (prepare : Option Prepare)
    (answers : Answers) : Prop :=
  ∀ gitRoot, answers.gitRoot = .ok gitRoot → answers.mkdir = none →
    ¬ Inserts s name prepare gitRoot answers → answers.remove = none

def KeepsDescriptors (s : ProjectRegistry) : Label → Prop
  | .add name prepare answers => Writes s name prepare answers
  | .select _ => True
  | .describe _ failure => ∀ f ∈ failure, f.truncated = false

/-! ## The new directory -/

variable {s t : ProjectRegistry} {name : Option Units} {prepare : Option Prepare}
  {answers : Answers} {gitRoot path : Units} {project : ProjectRecord}

theorem update_upsert_fresh {d : StateDirectory} (h : s.directories.find? d.path = none)
    (f : StateDirectory → StateDirectory) (hf : ∀ e, (f e).path = e.path) :
    (s.directories.upsert d).update d.path f hf = s.directories.upsert (f d) := by
  have hfresh : s.directories.find? (f d).path = none := by rw [hf, h]
  have hold : s.directories.rows.map (fun e => if e.path = d.path then f e else e) =
      s.directories.rows := by
    refine (List.map_congr_left fun e he => ?_).trans (List.map_id _)
    rw [if_neg (Table.find?_eq_none.mp h e he), id]
  refine Table.ext ?_
  change (s.directories.upsert d).rows.map (fun e => if e.path = d.path then f e else e) = _
  rw [Table.rows_upsert_of_find?_none hfresh, Table.rows_upsert_of_find?_none h,
    List.map_append, List.map_singleton, if_pos rfl, hold]

theorem filter_upsert_fresh {d : StateDirectory} (h : s.directories.find? d.path = none) :
    (s.directories.upsert d).filter (·.path ≠ d.path) = s.directories := by
  have hold : s.directories.rows.filter (·.path ≠ d.path) = s.directories.rows := by
    rw [List.filter_eq_self]
    intro e he
    simpa using Table.find?_eq_none.mp h e he
  refine Table.ext ?_
  change (s.directories.upsert d).rows.filter (·.path ≠ d.path) = _
  rw [Table.rows_upsert_of_find?_none h, List.filter_append, hold]
  simp

def made (s : ProjectRegistry) (path : Units) (contents : Contents) :
    ProjectRegistry :=
  { s with directories := s.directories.upsert { path := path, contents := contents } }

theorem find?_made (path : Units) (contents : Contents) :
    (made s path contents).directories.find? path =
      some { path := path, contents := contents } := by
  rw [made, Table.find?_upsert, if_pos rfl]

theorem mkdirSync_fresh (h : s.directories.find? path = none) :
    mkdirSync path none s = (.ok (), made s path {}) := by
  rw [mkdirSync, h]
  rfl

theorem runPrepare_made (h : s.directories.find? project.stateDir = none) :
    ∃ contents, runPrepare prepare project (made s project.stateDir {}) =
      (prepared prepare project, made s project.stateDir contents) := by
  cases prepare with
  | none => exact ⟨{}, rfl⟩
  | some f =>
      refine ⟨(f project {}).2, ?_⟩
      have hself := find?_made (s := s) project.stateDir {}
      have hupdate := update_upsert_fresh (d := ⟨project.stateDir, {}⟩) h
        (·.fill (f project {}).2) fun _ => rfl
      simp only [runPrepare, hself]
      simp only [made] at hupdate ⊢
      rw [hupdate]
      rfl

theorem violated_made (contents : Contents) :
    violated (made s path contents) project = violated s project := rfl

theorem rmSync_made (h : s.directories.find? path = none) (contents : Contents) :
    rmSync path none (made s path contents) = (.ok (), s) := by
  have hback := filter_upsert_fresh (d := ⟨path, contents⟩) h
  simp only [rmSync, made, hback]

/-! ## One registration -/

theorem add_refused_early {message : Units} (h : answers.gitRoot = .error message) :
    add name prepare answers s = (.error message, s) := by
  rw [add, h, Effect.ofExcept_bind]

theorem add_mkdir_refused {message : Units} (hroot : answers.gitRoot = .ok gitRoot)
    (hmkdir : answers.mkdir = some message) :
    add name prepare answers s = (.error message, s) := by
  rw [add, hroot, Effect.ofExcept_bind]
  simp only [Effect.read_bind]
  rw [Effect.bind_apply, hmkdir]
  rfl

theorem add_made (hfresh : Fresh s answers) (hroot : answers.gitRoot = .ok gitRoot)
    (hmkdir : answers.mkdir = none) :
    add name prepare answers s =
      Effect.catching (register (recordOf s name gitRoot answers) prepare answers)
        (giveUp (recordOf s name gitRoot answers) answers)
        (made s (join s.dataHome answers.randomUUID) {}) := by
  have hmade : mkdirSync (recordOf s name gitRoot answers).stateDir answers.mkdir s =
      (.ok (), made s (join s.dataHome answers.randomUUID) {}) := by
    rw [hmkdir]
    exact mkdirSync_fresh hfresh
  rw [add, hroot, Effect.ofExcept_bind]
  simp only [Effect.read_bind]
  exact Effect.bind_of_ok hmade

theorem register_refused (hfresh : Fresh s answers)
    (h : ¬ Inserts s name prepare gitRoot answers) :
    ∃ message contents,
      register (recordOf s name gitRoot answers) prepare answers
          (made s (join s.dataHome answers.randomUUID) {}) =
        (.error message, made s (join s.dataHome answers.randomUUID) contents) := by
  have hprepare : ∃ contents, runPrepare prepare (recordOf s name gitRoot answers)
      (made s (join s.dataHome answers.randomUUID) {}) =
        (prepared prepare (recordOf s name gitRoot answers),
          made s (join s.dataHome answers.randomUUID) contents) :=
    runPrepare_made hfresh
  obtain ⟨contents, hprepare⟩ := hprepare
  cases hprepared : prepared prepare (recordOf s name gitRoot answers) with
  | error message =>
      rw [hprepared] at hprepare
      refine ⟨message, contents, ?_⟩
      rw [register, Effect.bind_apply, hprepare]
  | ok _ =>
      rw [hprepared] at hprepare
      cases hinsert : answers.insert.or (violated s (recordOf s name gitRoot answers)) with
      | none =>
          rw [Option.or_eq_none_iff] at hinsert
          exact absurd ⟨hprepared, hinsert⟩ h
      | some message =>
          refine ⟨message, contents, ?_⟩
          rw [register, Effect.bind_of_ok hprepare, Effect.bind_apply, insertProject,
            violated_made, hinsert]

def inserted (s : ProjectRegistry) (project : ProjectRecord) (contents : Contents) :
    ProjectRegistry :=
  { made s project.stateDir contents with projects := s.projects.upsert project }

theorem register_inserted (hfresh : Fresh s answers)
    (h : Inserts s name prepare gitRoot answers) :
    ∃ contents, register (recordOf s name gitRoot answers) prepare answers
        (made s (join s.dataHome answers.randomUUID) {}) =
      (do
        writeProjectDescriptor (recordOf s name gitRoot answers) answers.write
        return recordOf s name gitRoot answers)
        (inserted s (recordOf s name gitRoot answers) contents) := by
  obtain ⟨hprepared, hinsert⟩ := h
  have hprepare : ∃ contents, runPrepare prepare (recordOf s name gitRoot answers)
      (made s (join s.dataHome answers.randomUUID) {}) =
        (prepared prepare (recordOf s name gitRoot answers),
          made s (join s.dataHome answers.randomUUID) contents) :=
    runPrepare_made hfresh
  obtain ⟨contents, hprepare⟩ := hprepare
  rw [hprepared] at hprepare
  have hrow : insertProject (recordOf s name gitRoot answers) answers.insert
      (made s (join s.dataHome answers.randomUUID) contents) =
        (.ok (), inserted s (recordOf s name gitRoot answers) contents) := by
    rw [insertProject, violated_made, Option.or_eq_none_iff.mpr hinsert]
    rfl
  refine ⟨contents, ?_⟩
  rw [register, Effect.bind_of_ok hprepare, Effect.bind_of_ok hrow]

theorem write_inserted (h : s.directories.find? project.stateDir = none)
    (contents : Contents) :
    writeProjectDescriptor project none (inserted s project contents) =
      (.ok (), inserted s project (contents.describe (some project.descriptor))) := by
  have hself : (inserted s project contents).directories.find? project.stateDir =
      some { path := project.stateDir, contents := contents } := find?_made _ _
  have hupdate := update_upsert_fresh (d := ⟨project.stateDir, contents⟩) h
    (·.describe (some project.descriptor)) fun _ => rfl
  simp only [writeProjectDescriptor, hself]
  simp only [inserted, made] at hupdate ⊢
  rw [hupdate]
  rfl

theorem write_lost (h : s.directories.find? project.stateDir = none)
    (contents : Contents) (failure : WriteFailure) :
    ∃ contents', writeProjectDescriptor project (some failure)
        (inserted s project contents) =
      (.error failure.message, inserted s project contents') := by
  have hself : (inserted s project contents).directories.find? project.stateDir =
      some { path := project.stateDir, contents := contents } := find?_made _ _
  have hupdate := update_upsert_fresh (d := ⟨project.stateDir, contents⟩) h
    (·.describe none) fun _ => rfl
  simp only [writeProjectDescriptor, hself]
  by_cases hopened : failure.truncated = true
  · refine ⟨contents.describe none, ?_⟩
    simp only [if_pos hopened]
    simp only [inserted, made] at hupdate ⊢
    rw [hupdate]
    rfl
  · refine ⟨contents, ?_⟩
    simp only [if_neg hopened]

theorem giveUp_removed {message : Units} {m : ProjectRegistry}
    (hremove : answers.remove = none) :
    ∃ e, giveUp project answers message m =
      (.error e, { m with
        directories := m.directories.filter (·.path ≠ project.stateDir) }) := by
  rw [giveUp, Effect.bind_apply, hremove]
  exact ⟨_, rfl⟩

theorem giveUp_made {message : Units} (h : s.directories.find? project.stateDir = none)
    (hremove : answers.remove = none) (contents : Contents) :
    ∃ e, giveUp project answers message (made s project.stateDir contents) =
      (.error e, s) := by
  rw [giveUp, hremove, Effect.bind_of_ok (rmSync_made h contents)]
  exact ⟨_, rfl⟩

theorem giveUp_stuck {message failure : Units} {m : ProjectRegistry}
    (hremove : answers.remove = some failure) :
    giveUp project answers message m = (.error failure, m) := by
  rw [giveUp, Effect.bind_apply, hremove]
  rfl

theorem add_cases (name : Option Units) (prepare : Option Prepare)
    (hfresh : Fresh s answers) :
    (∃ message, add name prepare answers s = (.error message, s) ∧
      ∀ gitRoot, answers.gitRoot = .ok gitRoot → answers.mkdir ≠ none) ∨
    ∃ gitRoot, answers.gitRoot = .ok gitRoot ∧ answers.mkdir = none ∧
      ((¬ Inserts s name prepare gitRoot answers ∧ answers.remove = none ∧
          ∃ message, add name prepare answers s = (.error message, s)) ∨
        (¬ Inserts s name prepare gitRoot answers ∧ answers.remove ≠ none ∧
          ∃ message contents, add name prepare answers s = (.error message,
            made s (recordOf s name gitRoot answers).stateDir contents)) ∨
        (Inserts s name prepare gitRoot answers ∧ answers.write = none ∧
          ∃ contents, add name prepare answers s =
            (.ok (recordOf s name gitRoot answers),
              inserted s (recordOf s name gitRoot answers)
                (Contents.describe contents
                  (some (recordOf s name gitRoot answers).descriptor)))) ∨
        (Inserts s name prepare gitRoot answers ∧ answers.write ≠ none ∧
          ∃ message t, add name prepare answers s = (.error message, t) ∧
            t.projects = s.projects.upsert (recordOf s name gitRoot answers))) := by
  cases hroot : answers.gitRoot with
  | error message =>
      exact .inl ⟨message, add_refused_early hroot, fun _ h => by cases h⟩
  | ok gitRoot =>
  cases hmkdir : answers.mkdir with
  | some message =>
      exact .inl ⟨message, add_mkdir_refused hroot hmkdir, fun _ _ h => by cases h⟩
  | none =>
  refine .inr ⟨gitRoot, rfl, rfl, ?_⟩
  have hfree : s.directories.find? (recordOf s name gitRoot answers).stateDir = none :=
    hfresh
  rw [add_made hfresh hroot hmkdir]
  by_cases hinserts : Inserts s name prepare gitRoot answers
  · obtain ⟨contents, hregister⟩ := register_inserted hfresh hinserts
    cases hwrite : answers.write with
    | none =>
        refine .inr (.inr (.inl ⟨hinserts, rfl, contents, ?_⟩))
        rw [hwrite, Effect.bind_of_ok (write_inserted hfree contents)] at hregister
        rw [Effect.catching, hregister]
        rfl
    | some failure =>
        refine .inr (.inr (.inr ⟨hinserts, by simp, ?_⟩))
        obtain ⟨contents', hlost⟩ := write_lost hfree contents failure
        rw [hwrite, Effect.bind_apply, hlost] at hregister
        simp only at hregister
        rw [Effect.catching, hregister]
        cases hremove : answers.remove with
        | none =>
            obtain ⟨e, he⟩ := giveUp_removed hremove
            exact ⟨e, _, he, rfl⟩
        | some message => exact ⟨message, _, giveUp_stuck hremove, rfl⟩
  · obtain ⟨message, contents, hregister⟩ := register_refused hfresh hinserts
    rw [Effect.catching, hregister]
    cases hremove : answers.remove with
    | none =>
        refine .inl ⟨hinserts, rfl, ?_⟩
        exact giveUp_made hfree hremove contents
    | some failure =>
        refine .inr (.inl ⟨hinserts, by simp, failure, contents, ?_⟩)
        exact giveUp_stuck hremove

theorem violated_eq_none (h : violated s project = none) :
    ∀ other, other ∈ s.projects →
      other.id ≠ project.id ∧ other.stateDir ≠ project.stateDir := by
  unfold violated at h
  split at h
  · cases h
  · rename_i hid
    split at h
    · cases h
    · split at h
      · cases h
      · rename_i hdir
        intro other hother
        simp only [List.any_eq_true, decide_eq_true_eq, not_exists, not_and] at hid hdir
        exact ⟨hid other hother, hdir other hother⟩

theorem upsert_ne (h : violated s project = none) :
    s.projects.upsert project ≠ s.projects := by
  intro heq
  have hmem : project ∈ s.projects.upsert project := Table.mem_upsert.mpr (.inl rfl)
  rw [heq] at hmem
  exact (violated_eq_none h project hmem).1 rfl

theorem made_ne (h : s.directories.find? path = none) (contents : Contents) :
    (made s path contents).directories ≠ s.directories := by
  intro heq
  have hself := find?_made (s := s) path contents
  rw [heq, h] at hself
  cases hself

theorem allOrNothing_iff (hfresh : Fresh s answers) :
    AllOrNothing s name prepare answers ↔
      Writes s name prepare answers ∧ Removes s name prepare answers := by
  obtain ⟨message, hadd, hearly⟩ | ⟨gitRoot, hroot, hmkdir, hcases⟩ :=
    add_cases name prepare hfresh
  · constructor
    · intro _
      exact ⟨fun gitRoot hroot hmkdir => absurd hmkdir (hearly gitRoot hroot),
        fun gitRoot hroot hmkdir => absurd hmkdir (hearly gitRoot hroot)⟩
    · rintro - message' t heq
      rw [hadd] at heq
      cases heq
      exact ⟨rfl, rfl⟩
  have honly : ∀ root, answers.gitRoot = .ok root → root = gitRoot :=
    fun root h => Except.ok.inj (h.symm.trans hroot)
  obtain ⟨hinserts, hremove, message, hadd⟩ |
    ⟨hinserts, hremove, message, contents, hadd⟩ |
    ⟨hinserts, hwrite, contents, hadd⟩ | ⟨hinserts, hwrite, message, t, hadd, hrows⟩ :=
    hcases
  · constructor
    · intro _
      refine ⟨fun root h _ hin => ?_, fun _ _ _ _ => hremove⟩
      rw [honly root h] at hin
      exact absurd hin hinserts
    · rintro - message' t heq
      rw [hadd] at heq
      cases heq
      exact ⟨rfl, rfl⟩
  · constructor
    · intro h
      exact absurd (h message _ hadd).2 (made_ne hfresh contents)
    · rintro ⟨-, h⟩
      exact absurd (h gitRoot hroot hmkdir hinserts) hremove
  · constructor
    · intro _
      refine ⟨fun _ _ _ _ => hwrite, fun root h _ hnot => ?_⟩
      rw [honly root h] at hnot
      exact absurd hinserts hnot
    · rintro - message' t heq
      rw [hadd] at heq
      cases heq
  · constructor
    · intro h
      have hsame := (h message t hadd).1
      rw [hrows] at hsame
      exact absurd hsame (upsert_ne hinserts.2.2)
    · rintro ⟨h, -⟩
      exact absurd (h gitRoot hroot hmkdir hinserts) hwrite

/-! ## Every run -/

structure Sound (s : ProjectRegistry) : Prop where
  described : Described s
  apart : ∀ p, p ∈ s.projects → ∀ q, q ∈ s.projects → p.stateDir = q.stateDir → p = q

theorem Sound.made (h : Sound s) (hfree : s.directories.find? path = none)
    (contents : Contents) : Sound (made s path contents) := by
  refine ⟨fun p hp => ?_, h.apart⟩
  obtain ⟨d, hd, hdescriptor⟩ := h.described p hp
  have hne : p.stateDir ≠ path := by
    rintro rfl
    rw [hfree] at hd
    cases hd
  refine ⟨d, ?_, hdescriptor⟩
  rw [Registry.made, Table.find?_upsert, if_neg hne]
  exact hd

theorem Sound.inserted (h : Sound s)
    (hfree : s.directories.find? project.stateDir = none)
    (hrow : violated s project = none) {contents : Contents}
    (hcontents : contents.descriptor = some project.descriptor) :
    Sound (inserted s project contents) := by
  have hmade := h.made hfree contents
  have hold : ∀ p, p ∈ (Registry.inserted s project contents).projects →
      p = project ∨ p ∈ s.projects :=
    fun p hp => (Table.mem_upsert.mp hp).imp_right And.left
  refine ⟨fun p hp => ?_, fun p hp q hq hdir => ?_⟩
  · obtain rfl | hp := hold p hp
    · exact ⟨_, find?_made _ contents, hcontents⟩
    · exact hmade.described p hp
  · have hother : ∀ r, r ∈ s.projects → r.stateDir ≠ project.stateDir :=
      fun r hr => (violated_eq_none hrow r hr).2
    obtain hnew | hp := hold p hp <;> obtain hnew' | hq := hold q hq
    · rw [hnew, hnew']
    · exact absurd (hnew ▸ hdir.symm) (hother q hq)
    · exact absurd (hnew' ▸ hdir) (hother p hp)
    · exact h.apart p hp q hq hdir

theorem Sound.add (h : Sound s) (hfresh : Fresh s answers)
    (hwrites : Writes s name prepare answers) :
    Sound (add name prepare answers s).2 := by
  obtain ⟨message, hadd, -⟩ | ⟨gitRoot, hroot, hmkdir, hcases⟩ :=
    add_cases name prepare hfresh
  · rw [hadd]
    exact h
  obtain ⟨-, -, message, hadd⟩ | ⟨-, -, message, contents, hadd⟩ |
    ⟨hinserts, -, contents, hadd⟩ | ⟨hinserts, hwrite, -⟩ := hcases
  · rw [hadd]
    exact h
  · rw [hadd]
    exact h.made hfresh contents
  · rw [hadd]
    have hfree : s.directories.find? (recordOf s name gitRoot answers).stateDir = none :=
      hfresh
    exact h.inserted hfree hinserts.2.2 rfl
  · exact absurd (hwrites gitRoot hroot hmkdir hinserts) hwrite

theorem Sound.describe (h : Sound s) {id : Units} {failure : Option WriteFailure}
    (hkept : ∀ f ∈ failure, f.truncated = false) : Sound (describe id failure s).2 := by
  rw [Registry.describe]
  simp only [Effect.read_bind, Effect.orThrow_bind]
  cases hfind : s.projects.find? id with
  | none => exact h
  | some project =>
      have hproject := Table.mem_of_find? hfind
      obtain ⟨d, hd, hdescriptor⟩ := h.described project hproject
      simp only [writeProjectDescriptor, hd]
      cases failure with
      | some f =>
          simp only [hkept f rfl, Bool.false_eq_true, if_false]
          exact h
      | none =>
          refine ⟨fun p hp => ?_, h.apart⟩
          obtain ⟨e, he, hself⟩ := h.described p hp
          have hread := Table.find?_update s.directories project.stateDir
            (·.describe (some project.descriptor)) (fun _ => rfl) p.stateDir
          by_cases hdir : p.stateDir = project.stateDir
          · obtain rfl := h.apart p hp project hproject hdir
            rw [if_pos rfl, hd] at hread
            exact ⟨_, hread, rfl⟩
          · rw [if_neg hdir, he] at hread
            exact ⟨e, hread, hself⟩

theorem Sound.step (h : Sound s) {l : Label} (hok : KeepsDescriptors s l)
    (ht : registrySystem.step s l = some t) : Sound t := by
  cases l with
  | add name prepare answers =>
      simp only [registrySystem, Option.ite_none_right_eq_some, Option.some.injEq] at ht
      obtain ⟨hfresh, rfl⟩ := ht
      exact h.add hfresh hok
  | select id =>
      obtain rfl := Option.some.inj ht
      rw [select]
      simp only [Effect.read_bind]
      cases s.projects.find? id with
      | none => exact h
      | some project => exact ⟨h.described, h.apart⟩
  | describe id failure =>
      obtain rfl := Option.some.inj ht
      exact h.describe hok

theorem Sound.reachable (h : registrySystem.ReachableUnder KeepsDescriptors s) :
    Sound s := by
  refine h.invariant (I := Sound) (fun s hs => ?_) fun s l t _ hI hok ht => hI.step hok ht
  have hnone : ∀ p, ¬ p ∈ s.projects := by
    rw [hs.1]
    exact fun p => Table.not_mem_empty p
  exact ⟨fun p hp => absurd hp (hnone p), fun p hp => absurd hp (hnone p)⟩

/--
A refused registration leaves nothing behind exactly when it is not the write of the
descriptor that fails, and what was made before another failure can be removed; and in
every run in which no write takes a descriptor away, each registered project has its
directory and its descriptor.
-/
theorem registration_iff (name : Option Units) (prepare : Option Prepare)
    (hfresh : Fresh s answers) :
    (AllOrNothing s name prepare answers ↔
      Writes s name prepare answers ∧ Removes s name prepare answers) ∧
    ∀ r, registrySystem.ReachableUnder KeepsDescriptors r → Described r :=
  ⟨allOrNothing_iff hfresh, fun _ hr => (Sound.reachable hr).described⟩

/-! ## One registration in an empty registry -/

def home : ProjectRegistry where
  dataHome := units "/data"

def granted : Answers where
  gitRoot := .ok (units "/src/app")
  randomUUID := units "p1"
  now := units "2026-01-01T00:00:00.000Z"

def fullDisk : Answers :=
  { granted with write := some { message := units "ENOSPC", truncated := true } }

theorem home_initial : registrySystem.initial home := ⟨rfl, rfl⟩

theorem registration_iff_first : AllOrNothing home none none granted ∧
    ∃ t, registrySystem.run home [.add none none granted] = some t ∧
      t.projects.rows.length = 1 ∧ Described t := by
  have hfresh : Fresh home granted := by decide +kernel
  obtain ⟨hiff, hruns⟩ := registration_iff none none hfresh
  have hwrites : Writes home none none granted := fun _ _ _ _ => rfl
  obtain ⟨t, hrun, hrows⟩ := registrySystem.exists_run_of_map
    (show (registrySystem.run home [.add none none granted]).map
      (·.projects.rows.length) = some 1 by decide +kernel)
  have hkept : ∀ l ∈ [Label.add none none granted], ∀ m, KeepsDescriptors m l := by
    intro l hl m
    obtain rfl := List.mem_singleton.mp hl
    exact fun _ _ _ _ => rfl
  have hokay := System.along_of_run hkept hrun
  exact ⟨hiff.mpr ⟨hwrites, fun _ _ _ _ => rfl⟩, t, hrun, hrows,
    hruns t ((System.ReachableUnder.initial home_initial).run hokay hrun)⟩

theorem registration_keeps_row : Fresh home fullDisk ∧
    ¬ AllOrNothing home none none fullDisk ∧
    ∃ t, registrySystem.Reachable t ∧ ¬ Described t := by
  have hfresh : Fresh home fullDisk := by decide +kernel
  refine ⟨hfresh, fun h => ?_, ?_⟩
  · have hinserts : Inserts home none none (units "/src/app") fullDisk := ⟨rfl, rfl, rfl⟩
    have hwrite := ((allOrNothing_iff hfresh).mp h).1 _ rfl rfl hinserts
    cases hwrite
  · obtain ⟨t, hrun, hobserved⟩ := registrySystem.exists_run_of_map
      (show (registrySystem.run home [.add none none fullDisk]).map
        (fun t => (t.projects.rows.length, t.directories.rows.length)) = some (1, 0) by
          decide +kernel)
    refine ⟨t, (System.Reachable.initial home_initial).run hrun, fun h => ?_⟩
    simp only [Prod.mk.injEq] at hobserved
    obtain ⟨p, hp⟩ := List.length_eq_one_iff.mp hobserved.1
    have hmem : p ∈ t.projects := by
      rw [Table.mem_rows, hp]
      exact List.mem_singleton_self p
    obtain ⟨d, hd, -⟩ := h p hmem
    have hin := Table.mem_of_find? hd
    rw [Table.mem_rows, List.eq_nil_of_length_eq_zero hobserved.2] at hin
    cases hin

end OrcState.Registry
