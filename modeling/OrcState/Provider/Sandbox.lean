import OrcState.Foundation.JsonArray
import OrcState.Foundation.Paths
import OrcState.Markdown.Frontmatter

/-!
# The roots of a sandboxed session

A session that is started in a sandbox is given roots that it may write under,
beside the directory it is launched in: in the settings of Claude, in the
arguments of the Codex command, and in the parameters of a Codex thread.  They
are read by a process that works in the launch directory and not in the
coordinator's.
-/

namespace OrcState.Provider.Sandbox

open OrcState.Foundation.Json
open OrcState.Foundation.Paths
open OrcState.Markdown (units)

/-! ## The roots -/

def targetGitWritableSubpaths : List Name :=
  [units "objects", units "refs", units "logs", units "worktrees"]

def targetGitWritableRoots (targetRepoRoot : Units) : List Units :=
  let gitDir := join targetRepoRoot (units ".git")
  targetGitWritableSubpaths.map (join gitDir)

def isWithin (here : Directory) (root path : Units) : Bool :=
  let rel := relative here (resolve here root) (resolve here path)
  rel = [] || (!dots.isPrefixOf rel && !isAbsolute rel)

structure SandboxRootsOptions where
  readOnly : Bool
  cwd : Units
  stateDir : Units
  gitRepoRoot : Units
  controlSocket : Option Units

def given (text : Option Units) : Option Units := text.filter (· ≠ [])

def SandboxRootsOptions.lifecycle (opts : SandboxRootsOptions) : Units :=
  (given opts.controlSocket).getD opts.stateDir

/-- `sandboxExtraWritableRoots`, before the roots within the launch directory go. -/
def SandboxRootsOptions.roots (opts : SandboxRootsOptions) : List Units :=
  opts.lifecycle :: targetGitWritableRoots opts.gitRepoRoot

def sandboxExtraWritableRoots (here : Directory) (opts : SandboxRootsOptions) :
    List Units :=
  if opts.readOnly then []
  else opts.roots.filter fun root => !isWithin here opts.cwd root

/-! ## The launch configuration -/

/-- The fields of a launch that the sandbox depends on. -/
structure LaunchConfig where
  /-- `execution_mode`, when it is a string. -/
  executionMode : Option Units := none
  /-- `read_only === true`. -/
  readOnly : Bool := false
  /-- `env.ORC_CONTROL_SOCKET`. -/
  controlSocket : Option Units := none
  /-- `sandbox_network`, when it is a string. -/
  sandboxNetwork : Option Units := none
  model : Option Units := none
  systemPrompt : Option Units := none

def controlSocketOf (config : LaunchConfig) : Option Units :=
  given config.controlSocket

def networkOpen (config : LaunchConfig) : Bool :=
  config.sandboxNetwork = some (units "open")

/-- `executionMode === 'sandbox'`, where a missing mode is full access. -/
def LaunchConfig.sandboxed (config : LaunchConfig) : Bool :=
  config.executionMode.getD (units "full-access") = units "sandbox"

structure Installation where
  stateDir : Units
  targetRepoRoot : Units

def sandboxRootsOptions (site : Installation) (config : LaunchConfig) (cwd : Units) :
    SandboxRootsOptions where
  readOnly := config.readOnly
  cwd := cwd
  stateDir := site.stateDir
  gitRepoRoot := site.targetRepoRoot
  controlSocket := controlSocketOf config

/-! ## The Codex command -/

def writableRootsKey : Units := units "sandbox_workspace_write.writable_roots="

def networkAccess : Units := units "sandbox_workspace_write.network_access=true"

def codexSandboxWritableRootArgs (here : Directory) (opts : SandboxRootsOptions) :
    List Units :=
  match sandboxExtraWritableRoots here opts with
  | [] => []
  | roots => [units "-c", writableRootsKey ++ stringifyAll roots]

def codexSandboxNetworkArgs (opts : SandboxRootsOptions) (openNetwork : Bool) :
    List Units :=
  if !opts.readOnly && (given opts.controlSocket).isSome && openNetwork then
    [units "-c", networkAccess]
  else []

def bypassFlag : Units := units "--dangerously-bypass-approvals-and-sandbox"

def orcMcpServerOff : Units :=
  units "mcp_servers.orchestrator=\x7bcommand=\"true\",enabled=false\x7d"

def isolatedMcpArgs : List Units := [units "-c", orcMcpServerOff]

def codexSandboxArgs (here : Directory) (site : Installation) (config : LaunchConfig)
    (cwd : Units) : List Units :=
  if config.sandboxed then
    let sandboxScope :=
      if config.readOnly then units "read-only" else units "workspace-write"
    let rootsOptions := sandboxRootsOptions site config cwd
    [units "--sandbox", sandboxScope, units "--ask-for-approval", units "never"] ++
      codexSandboxWritableRootArgs here rootsOptions ++
      codexSandboxNetworkArgs rootsOptions (networkOpen config)
  else [bypassFlag]

def codexModelArgs (config : LaunchConfig) : List Units :=
  match given config.model with
  | some model => [units "--model", model]
  | none => []

def buildStartArgs (here : Directory) (site : Installation) (config : LaunchConfig)
    (cwd : Units) : List Units :=
  codexSandboxArgs here site config cwd ++
    ([units "--enable", units "multi_agent"] ++ isolatedMcpArgs ++
      codexModelArgs config ++ (given config.systemPrompt).toList)

/-! ## The Codex thread -/

inductive SandboxMode where
  | readOnly
  | workspaceWrite
  | dangerFullAccess
  deriving DecidableEq

structure ThreadSandbox where
  sandbox : SandboxMode
  /-- `config['sandbox_workspace_write.writable_roots']`. -/
  writableRoots : Option (List Units) := none
  /-- `config['sandbox_workspace_write.network_access']`. -/
  networkAccess : Option Bool := none

def codexAppServerSandboxParams (here : Directory) (site : Installation)
    (config : LaunchConfig) (cwd : Units) : ThreadSandbox :=
  if config.readOnly then { sandbox := .readOnly }
  else if !config.sandboxed then { sandbox := .dangerFullAccess }
  else
    let controlSocket := controlSocketOf config
    let roots := sandboxExtraWritableRoots here
      { readOnly := false, cwd, stateDir := site.stateDir
        gitRepoRoot := site.targetRepoRoot, controlSocket }
    { sandbox := .workspaceWrite
      writableRoots := if roots = [] then none else some roots
      networkAccess :=
        if controlSocket.isSome && networkOpen config then some true else none }

/-! ## The Claude settings -/

def claudeSandboxFilesystem (here : Directory) (opts : SandboxRootsOptions) :
    Option (List Units) :=
  if opts.readOnly then none
  else some ([dot] :: sandboxExtraWritableRoots here opts)

structure ClaudeNetwork where
  allowUnixSockets : List Units
  allowAllUnixSockets : Bool

def claudeSandboxNetwork (linux : Bool) (controlSocket : Units) (openNetwork : Bool) :
    ClaudeNetwork where
  allowUnixSockets := [controlSocket]
  allowAllUnixSockets := openNetwork && linux

/-- The block `sandbox` of the settings file, and `permissions.deny` beside it. -/
structure ClaudeSandbox where
  allowWrite : Option (List Units) := none
  denyRead : List Units := []
  network : Option ClaudeNetwork := none
  deny : List Units := []

/-- What `prepareProviderLaunch` writes for Claude in sandbox mode. -/
def claudeSandbox (here : Directory) (linux : Bool) (site : Installation)
    (config : LaunchConfig) (cwd : Units) : Option ClaudeSandbox :=
  if config.sandboxed then
    let rootsOptions := sandboxRootsOptions site config cwd
    let operatorToken := (given rootsOptions.controlSocket).map fun _ =>
      join rootsOptions.stateDir (units "operator.token")
    some
      { allowWrite := claudeSandboxFilesystem here rootsOptions
        denyRead := operatorToken.toList
        network := (given rootsOptions.controlSocket).map fun socket =>
          claudeSandboxNetwork linux socket (networkOpen config)
        deny := operatorToken.toList.map fun token =>
          units "Read(/" ++ token ++ units ")" }
  else none

/-! ## The roots cover what they are meant to -/

/--
What a session is meant to write: its launch directory, the socket or else the
state directory, and four directories of the repository behind its worktree.
-/
def Granted (here : Directory) (opts : SandboxRootsOptions) (place : Place) : Prop :=
  locate here opts.cwd <+: place ∨ locate here opts.lifecycle <+: place ∨
    ∃ sub ∈ targetGitWritableSubpaths,
      locate here opts.gitRepoRoot ++ [units ".git", sub] <+: place

instance (here : Directory) (opts : SandboxRootsOptions) (place : Place) :
    Decidable (Granted here opts place) :=
  inferInstanceAs (Decidable (_ ∨ _ ∨ _))

/-- Under the launch directory or one of the roots, as that directory reads it. -/
def Under (launch : Directory) (roots : List Units) (place : Place) : Prop :=
  launch.place <+: place ∨ ∃ root ∈ roots, locate launch root <+: place

structure SandboxRootsOptions.Anchored (opts : SandboxRootsOptions) : Prop where
  lifecycle : isAbsolute opts.lifecycle = true
  gitRepoRoot : isAbsolute opts.gitRepoRoot = true

variable {here : Directory} {opts : SandboxRootsOptions} {root path : Units}
variable {place : Place} {site : Installation} {cwd : Units} {config : LaunchConfig}

theorem within_of_isWithin (h : isWithin here root path = true) :
    locate here root <+: locate here path := by
  by_contra hnot
  have hclimbs : dots <+: relative here (resolve here root) (resolve here path) :=
    relative_climbs (by simpa using hnot)
  unfold isWithin at h
  generalize relative here (resolve here root) (resolve here path) = rel at *
  have hne : rel ≠ [] := by
    rintro rfl
    simp [dots] at hclimbs
  simp only [Bool.or_eq_true, decide_eq_true_eq, hne, false_or, Bool.and_eq_true,
    Bool.not_eq_true', List.isPrefixOf_iff_prefix.mpr hclimbs] at h
  simp at h

theorem plain_git : Plain (units ".git") := by decide

theorem plain_sub : ∀ sub ∈ targetGitWritableSubpaths, Plain sub := by decide

theorem locate_targetGitWritableRoot (habsolute : isAbsolute path = true) (sub : Name)
    (hsub : sub ∈ targetGitWritableSubpaths) :
    locate here (join (join path (units ".git")) sub) =
      locate here path ++ [units ".git", sub] := by
  have hne : path ≠ [] := by
    rintro rfl
    simp [isAbsolute] at habsolute
  have hgit : join path (units ".git") ≠ [] := by
    intro hnil
    have := join_absolute habsolute (units ".git")
    simp [hnil, isAbsolute] at this
  rw [locate_join here hgit (plain_sub sub hsub), locate_join here hne plain_git]
  simp

theorem absolute_roots (h : opts.Anchored) :
    ∀ root ∈ opts.roots, isAbsolute root = true := by
  intro root hmem
  rcases List.mem_cons.mp hmem with rfl | hgit
  · exact h.lifecycle
  · obtain ⟨sub, -, rfl⟩ := List.mem_map.mp hgit
    exact join_absolute (join_absolute h.gitRepoRoot _) _

/-- Every root that goes lies within the launch directory. -/
theorem under_roots_iff (h : opts.Anchored) (hwrites : opts.readOnly = false)
    (here : Directory) (place : Place) :
    Under (here.change opts.cwd) (sandboxExtraWritableRoots here opts) place ↔
      Granted here opts place := by
  have hroots : Granted here opts place ↔ locate here opts.cwd <+: place ∨
      ∃ root ∈ opts.roots, locate here root <+: place := by
    unfold Granted SandboxRootsOptions.roots
    apply or_congr Iff.rfl
    rw [List.exists_mem_cons_iff]
    apply or_congr Iff.rfl
    constructor
    · rintro ⟨sub, hsub, hbelow⟩
      refine ⟨_, List.mem_map_of_mem hsub, ?_⟩
      rwa [locate_targetGitWritableRoot h.gitRepoRoot sub hsub]
    · rintro ⟨root, hmem, hbelow⟩
      obtain ⟨sub, hsub, rfl⟩ := List.mem_map.mp hmem
      rw [locate_targetGitWritableRoot h.gitRepoRoot sub hsub] at hbelow
      exact ⟨sub, hsub, hbelow⟩
  rw [hroots]
  have hlaunch : (here.change opts.cwd).place = locate here opts.cwd := rfl
  rw [Under, hlaunch]
  constructor
  · rintro (hcwd | ⟨root, hmem, hbelow⟩)
    · exact .inl hcwd
    · rw [sandboxExtraWritableRoots, if_neg (by simp [hwrites])] at hmem
      have hroot := (List.mem_filter.mp hmem).1
      rw [locate_of_isAbsolute (absolute_roots h root hroot) _ here] at hbelow
      exact .inr ⟨root, hroot, hbelow⟩
  · rintro (hcwd | ⟨root, hroot, hbelow⟩)
    · exact .inl hcwd
    · cases hin : isWithin here opts.cwd root with
      | true => exact .inl ((within_of_isWithin hin).trans hbelow)
      | false =>
          refine .inr ⟨root, ?_, ?_⟩
          · rw [sandboxExtraWritableRoots, if_neg (by simp [hwrites])]
            exact List.mem_filter.mpr ⟨hroot, by simp [hin]⟩
          · rwa [locate_of_isAbsolute (absolute_roots h root hroot) _ here]

theorem given_controlSocketOf (config : LaunchConfig) :
    given (controlSocketOf config) = controlSocketOf config := by
  unfold controlSocketOf given
  cases config.controlSocket with
  | none => rfl
  | some socket => by_cases h : socket = [] <;> simp [h]

theorem lifecycle_eq (site : Installation) (config : LaunchConfig) (cwd : Units) :
    (sandboxRootsOptions site config cwd).lifecycle =
      (controlSocketOf config).getD site.stateDir := by
  have h := given_controlSocketOf config
  simp only [SandboxRootsOptions.lifecycle, sandboxRootsOptions, h]

/-- In the repository itself, only the four directories are granted. -/
theorem granted_git_iff {name : Name} (hname : name ∉ targetGitWritableSubpaths)
    {rest : Place}
    (hplace : place = locate here opts.gitRepoRoot ++ units ".git" :: name :: rest) :
    Granted here opts place ↔
      locate here opts.cwd <+: place ∨ locate here opts.lifecycle <+: place := by
  unfold Granted
  apply or_congr Iff.rfl
  constructor
  · rintro (hlifecycle | ⟨sub, hsub, hbelow⟩)
    · exact hlifecycle
    · rw [hplace, List.prefix_append_right_inj, List.cons_prefix_cons,
        List.cons_prefix_cons] at hbelow
      exact absurd (hbelow.2.1 ▸ hsub) hname
  · exact .inl

end OrcState.Provider.Sandbox
