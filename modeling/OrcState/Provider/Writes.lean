import OrcState.Foundation.Utf16
import OrcState.Provider.Sandbox

/-!
# What a sandboxed session may write

How Claude and Codex read what they are given, and what their sandboxes then let
a process write, is theirs.  It is a parameter here, with what their manuals say
of it as named assumptions.
-/

namespace OrcState.Provider.Sandbox

open OrcState.Foundation
open OrcState.Foundation.Json
open OrcState.Foundation.Paths
open OrcState.Markdown (units)

/-! ## The providers -/

structure Reach where
  mode : SandboxMode
  roots : List Units := []
  network : Bool := false

def SandboxMode.text : SandboxMode → Units
  | .readOnly => units "read-only"
  | .workspaceWrite => units "workspace-write"
  | .dangerFullAccess => units "danger-full-access"

structure Providers where
  /-- What the Codex command makes of its configuration by its arguments. -/
  codexArgs : Reach → List Units → Option Reach
  subcommands : List Units
  codexThread : Reach → ThreadSandbox → Reach
  codexWrites : Directory → Reach → Place → Prop
  claudeWrites : Directory → ClaudeSandbox → Place → Prop
  /-- What the sandboxes open by themselves, such as `/tmp`. -/
  scratch : Place → Prop
  /-- What they keep closed within any root. -/
  guarded : Place → Prop

/-- A text that stands for itself as an argument and not for an option. -/
def Operand (text : Units) : Prop := text.head? ≠ some 0x2D

instance (text : Units) : Decidable (Operand text) :=
  inferInstanceAs (Decidable (_ ≠ _))

/-- A text whose JSON literal is the same text in TOML. -/
def TomlText (text : Units) : Prop := Utf16.wellFormed text = true ∧ 0x7F ∉ text

/-- The options of the Codex command, each for itself. -/
structure Providers.ReadsArgs (p : Providers) : Prop where
  nil : ∀ reach, p.codexArgs reach [] = some reach
  bypass : ∀ reach rest, p.codexArgs reach (bypassFlag :: rest) =
    p.codexArgs { reach with mode := .dangerFullAccess } rest
  scope : ∀ reach mode rest,
    p.codexArgs reach (units "--sandbox" :: SandboxMode.text mode :: rest) =
      p.codexArgs { reach with mode } rest
  approval : ∀ reach rest,
    p.codexArgs reach (units "--ask-for-approval" :: units "never" :: rest) =
      p.codexArgs reach rest
  roots : ∀ reach roots rest, (∀ root ∈ roots, TomlText root) →
    p.codexArgs reach
        (units "-c" :: (writableRootsKey ++ stringifyAll roots) :: rest) =
      p.codexArgs { reach with roots } rest
  network : ∀ reach rest, p.codexArgs reach (units "-c" :: networkAccess :: rest) =
    p.codexArgs { reach with network := true } rest
  server : ∀ reach rest, p.codexArgs reach (units "-c" :: orcMcpServerOff :: rest) =
    p.codexArgs reach rest
  feature : ∀ reach rest,
    p.codexArgs reach (units "--enable" :: units "multi_agent" :: rest) =
      p.codexArgs reach rest
  model : ∀ reach model rest, Operand model →
    p.codexArgs reach (units "--model" :: model :: rest) = p.codexArgs reach rest
  prompt : ∀ reach prompt, Operand prompt → prompt ∉ p.subcommands →
    p.codexArgs reach [prompt] = some reach

/-- What the manuals of the two providers say. -/
structure Providers.Documented (p : Providers) : Prop where
  args : p.ReadsArgs
  thread : ∀ reach params, p.codexThread reach params =
    { mode := params.sandbox
      roots := params.writableRoots.getD reach.roots
      network := params.networkAccess.getD reach.network }
  codexReadOnly : ∀ launch reach place, reach.mode = .readOnly →
    p.codexWrites launch reach place → p.scratch place
  codexWithin : ∀ launch reach place, reach.mode = .workspaceWrite →
    p.codexWrites launch reach place →
      Under launch reach.roots place ∨ p.scratch place
  codexOpens : ∀ launch reach place, reach.mode = .workspaceWrite →
    Under launch reach.roots place → ¬ p.guarded place →
      p.codexWrites launch reach place
  claudeWithin : ∀ launch settings place, p.claudeWrites launch settings place →
    Under launch (settings.allowWrite.getD []) place ∨ p.scratch place
  claudeOpens : ∀ launch settings place, (∃ root ∈ settings.allowWrite.getD [],
    locate launch root <+: place) → ¬ p.guarded place →
      p.claudeWrites launch settings place

/-- The model and the prompt of a launch are taken for what they are. -/
structure LaunchConfig.Accepted (config : LaunchConfig) (p : Providers) : Prop where
  model : ∀ model, given config.model = some model → Operand model
  prompt : ∀ prompt, given config.systemPrompt = some prompt →
    Operand prompt ∧ prompt ∉ p.subcommands

variable {p : Providers} {here : Directory} {place : Place} {site : Installation}
variable {cwd : Units} {config : LaunchConfig} {reach : Reach}

/-! ## The arguments are read as they were meant -/

theorem Providers.ReadsArgs.rest (hp : p.ReadsArgs) (hconfig : config.Accepted p)
    (reach : Reach) :
    p.codexArgs reach ([units "--enable", units "multi_agent"] ++ isolatedMcpArgs ++
      codexModelArgs config ++ (given config.systemPrompt).toList) = some reach := by
  have hprompt : p.codexArgs reach (given config.systemPrompt).toList =
      some reach := by
    cases hgiven : given config.systemPrompt with
    | none => exact hp.nil reach
    | some prompt =>
        obtain ⟨hoperand, hsub⟩ := hconfig.prompt prompt hgiven
        exact hp.prompt reach prompt hoperand hsub
  simp only [isolatedMcpArgs, List.cons_append, List.nil_append, hp.feature,
    hp.server]
  unfold codexModelArgs
  split
  · rename_i model hgiven
    rw [List.cons_append, List.cons_append, List.nil_append,
      hp.model reach model _ (hconfig.model model hgiven)]
    exact hprompt
  · exact hprompt

def LaunchConfig.TomlRoots (config : LaunchConfig) (site : Installation)
    (cwd : Units) : Prop :=
  ∀ root ∈ (sandboxRootsOptions site config cwd).roots, TomlText root

def sandboxedReach (here : Directory) (site : Installation) (config : LaunchConfig)
    (cwd : Units) (reach : Reach) : Reach :=
  let roots := sandboxExtraWritableRoots here (sandboxRootsOptions site config cwd)
  { mode := if config.readOnly then .readOnly else .workspaceWrite
    roots := if roots = [] then reach.roots else roots
    network := reach.network ||
      !config.readOnly && (controlSocketOf config).isSome && networkOpen config }

theorem Providers.ReadsArgs.extraRoots (hp : p.ReadsArgs)
    {opts : SandboxRootsOptions} (htoml : ∀ root ∈ opts.roots, TomlText root)
    (reach : Reach) (rest : List Units) :
    p.codexArgs reach (codexSandboxWritableRootArgs here opts ++ rest) =
      p.codexArgs
        { reach with
          roots := if sandboxExtraWritableRoots here opts = [] then reach.roots
            else sandboxExtraWritableRoots here opts } rest := by
  have hextra : ∀ root ∈ sandboxExtraWritableRoots here opts, TomlText root := by
    intro root hmem
    unfold sandboxExtraWritableRoots at hmem
    split at hmem
    · cases hmem
    · exact htoml root (List.mem_filter.mp hmem).1
  unfold codexSandboxWritableRootArgs
  split
  · rename_i hnone
    rw [if_pos hnone, List.nil_append]
  · rename_i hne
    rw [if_neg hne]
    exact hp.roots reach _ rest hextra

theorem Providers.ReadsArgs.openNetwork (hp : p.ReadsArgs)
    (opts : SandboxRootsOptions) (openNetwork : Bool) (reach : Reach)
    (rest : List Units) :
    p.codexArgs reach (codexSandboxNetworkArgs opts openNetwork ++ rest) =
      p.codexArgs
        { reach with
          network := reach.network ||
            !opts.readOnly && (given opts.controlSocket).isSome && openNetwork }
        rest := by
  unfold codexSandboxNetworkArgs
  split
  · rename_i hopen
    rw [hopen, Bool.or_true]
    exact hp.network reach rest
  · rename_i hclosed
    rw [Bool.eq_false_iff.mpr hclosed, Bool.or_false, List.nil_append]

theorem Providers.ReadsArgs.sandbox (hp : p.ReadsArgs)
    (htoml : config.TomlRoots site cwd) (reach : Reach) (rest : List Units) :
    p.codexArgs reach (codexSandboxArgs here site config cwd ++ rest) =
      p.codexArgs
        (if config.sandboxed then sandboxedReach here site config cwd reach
          else { reach with mode := .dangerFullAccess }) rest := by
  cases hsandboxed : config.sandboxed with
  | false =>
      rw [codexSandboxArgs, if_neg (by simp [hsandboxed])]
      exact hp.bypass reach rest
  | true =>
      have hmode : ∀ tail, p.codexArgs reach (units "--sandbox" ::
          (if config.readOnly then units "read-only" else units "workspace-write") ::
            tail) =
          p.codexArgs { reach with
            mode := if config.readOnly then .readOnly else .workspaceWrite } tail := by
        intro tail
        cases config.readOnly with
        | true => exact hp.scope reach .readOnly tail
        | false => exact hp.scope reach .workspaceWrite tail
      have hsocket : given (sandboxRootsOptions site config cwd).controlSocket =
          controlSocketOf config := given_controlSocketOf config
      rw [codexSandboxArgs, if_pos hsandboxed]
      simp only [List.cons_append, List.nil_append, List.append_assoc]
      rw [hmode, hp.approval, hp.extraRoots htoml, hp.openNetwork, hsocket]
      rfl

theorem Providers.ReadsArgs.command (hp : p.ReadsArgs) (hconfig : config.Accepted p)
    (htoml : config.TomlRoots site cwd) (reach : Reach) :
    p.codexArgs reach (buildStartArgs here site config cwd) =
      some (if config.sandboxed then sandboxedReach here site config cwd reach
        else { reach with mode := .dangerFullAccess }) := by
  rw [buildStartArgs, hp.sandbox htoml, hp.rest hconfig]

theorem Providers.Documented.thread_sandboxed (hp : p.Documented)
    (hsandboxed : config.sandboxed = true) (reach : Reach) :
    p.codexThread reach (codexAppServerSandboxParams here site config cwd) =
      sandboxedReach here site config cwd reach := by
  rw [hp.thread]
  unfold codexAppServerSandboxParams sandboxedReach
  cases hread : config.readOnly with
  | true =>
      have hnone : sandboxExtraWritableRoots here
          (sandboxRootsOptions site config cwd) = [] := by
        rw [sandboxExtraWritableRoots, if_pos]
        exact hread
      simp [hnone]
  | false =>
      have hopts : sandboxRootsOptions site config cwd =
          { readOnly := false, cwd, stateDir := site.stateDir
            gitRepoRoot := site.targetRepoRoot
            controlSocket := controlSocketOf config } := by
        simp [sandboxRootsOptions, hread]
      rw [hopts]
      simp only [hsandboxed, Bool.not_true, Bool.false_eq_true, if_false,
        Bool.not_false, Bool.true_and]
      congr 1
      · split
        · rfl
        · rfl
      · split
        · rename_i hopen
          simp [hopen]
        · rename_i hclosed
          simp [Bool.eq_false_iff.mpr hclosed]

/--
A Codex session is sandboxed in the same way as a command and as a thread, except
that a read-only one outside the sandbox mode is read-only only as a thread.
-/
theorem codex_runtimes_agree (hp : p.Documented) (hconfig : config.Accepted p)
    (htoml : config.TomlRoots site cwd) (reach : Reach) :
    ∃ command, p.codexArgs reach (buildStartArgs here site config cwd) =
        some command ∧
      (command = p.codexThread reach
          (codexAppServerSandboxParams here site config cwd) ↔
        (config.readOnly = true → config.sandboxed = true)) ∧
      (config.readOnly = true ∧ config.sandboxed = false →
        command.mode = .dangerFullAccess ∧
          (p.codexThread reach
            (codexAppServerSandboxParams here site config cwd)).mode =
              .readOnly) := by
  refine ⟨_, hp.args.command hconfig htoml reach, ?_⟩
  cases hsandboxed : config.sandboxed with
  | true => simp [hp.thread_sandboxed hsandboxed]
  | false =>
      rw [hp.thread, codexAppServerSandboxParams]
      cases config.readOnly <;> simp [hsandboxed]

/-! ## What a session may write -/

/-- A place that the providers neither open nor close by themselves. -/
def Providers.Ordinary (p : Providers) (place : Place) : Prop :=
  ¬ p.scratch place ∧ ¬ p.guarded place

theorem sandboxedReach_roots (hbase : reach.roots = []) :
    (sandboxedReach here site config cwd reach).roots =
      sandboxExtraWritableRoots here (sandboxRootsOptions site config cwd) := by
  simp only [sandboxedReach, hbase]
  split
  · rename_i hnone
    exact hnone.symm
  · rfl

section Writes

variable (hp : p.Documented)
variable (hanchored : (sandboxRootsOptions site config cwd).Anchored)

include hp hanchored

theorem granted_of_claudeWrites {linux : Bool} {settings : ClaudeSandbox}
    (hsettings : claudeSandbox here linux site config cwd = some settings)
    (hscratch : ¬ p.scratch place)
    (h : p.claudeWrites (here.change cwd) settings place) :
    Granted here (sandboxRootsOptions site config cwd) place := by
  have hunder := (hp.claudeWithin _ _ _ h).resolve_right hscratch
  unfold claudeSandbox at hsettings
  split at hsettings
  · cases hsettings
    unfold claudeSandboxFilesystem at hunder
    split at hunder
    · rcases hunder with hlaunch | ⟨root, hroot, -⟩
      · exact .inl hlaunch
      · cases hroot
    · rename_i hwrites
      rw [← under_roots_iff hanchored (Bool.eq_false_iff.mpr hwrites) here place]
      rcases hunder with hlaunch | ⟨root, hroot, hbelow⟩
      · exact .inl hlaunch
      · rcases List.mem_cons.mp hroot with rfl | hroot
        · rw [locate_dot] at hbelow
          exact .inl hbelow
        · exact .inr ⟨root, hroot, hbelow⟩
  · cases hsettings

theorem granted_of_codexWrites (hbase : reach.roots = [])
    (hscratch : ¬ p.scratch place)
    (h : p.codexWrites (here.change cwd) (sandboxedReach here site config cwd reach)
      place) :
    Granted here (sandboxRootsOptions site config cwd) place := by
  cases hread : config.readOnly with
  | true =>
      refine absurd (hp.codexReadOnly _ _ _ ?_ h) hscratch
      simp [sandboxedReach, hread]
  | false =>
      have hmode : (sandboxedReach here site config cwd reach).mode =
          .workspaceWrite := by
        simp [sandboxedReach, hread]
      have hunder := (hp.codexWithin _ _ _ hmode h).resolve_right hscratch
      rw [sandboxedReach_roots hbase] at hunder
      exact (under_roots_iff hanchored hread here place).mp hunder

variable (hwrites : config.readOnly = false) (hplace : p.Ordinary place)

include hwrites hplace

theorem claude_writes_iff (hsandboxed : config.sandboxed = true) (linux : Bool) :
    ∃ settings, claudeSandbox here linux site config cwd = some settings ∧
      (p.claudeWrites (here.change cwd) settings place ↔
        Granted here (sandboxRootsOptions site config cwd) place) := by
  have hallow : claudeSandboxFilesystem here (sandboxRootsOptions site config cwd) =
      some ([dot] ::
        sandboxExtraWritableRoots here (sandboxRootsOptions site config cwd)) := by
    rw [claudeSandboxFilesystem, if_neg]
    simp [sandboxRootsOptions, hwrites]
  refine ⟨_, by rw [claudeSandbox, if_pos hsandboxed],
    granted_of_claudeWrites hp hanchored
      (by rw [claudeSandbox, if_pos hsandboxed]) hplace.1, fun hgranted => ?_⟩
  refine hp.claudeOpens _ _ _ ?_ hplace.2
  simp only [hallow, Option.getD_some]
  rw [List.exists_mem_cons_iff, locate_dot]
  exact (under_roots_iff hanchored hwrites here place).mpr hgranted

theorem codex_writes_iff (hbase : reach.roots = []) :
    p.codexWrites (here.change cwd) (sandboxedReach here site config cwd reach)
        place ↔
      Granted here (sandboxRootsOptions site config cwd) place := by
  refine ⟨granted_of_codexWrites hp hanchored hbase hplace.1, fun hgranted => ?_⟩
  refine hp.codexOpens _ _ _ (by simp [sandboxedReach, hwrites]) ?_ hplace.2
  rw [sandboxedReach_roots hbase]
  exact (under_roots_iff hanchored hwrites here place).mpr hgranted

end Writes

/-- However a sandboxed session is started, it may write what it is meant to. -/
theorem sandbox_writes_granted (hp : p.Documented) (hconfig : config.Accepted p)
    (hsandboxed : config.sandboxed = true) (hwrites : config.readOnly = false)
    (hanchored : (sandboxRootsOptions site config cwd).Anchored)
    (htoml : config.TomlRoots site cwd) (hbase : reach.roots = [])
    (here : Directory) (linux : Bool) (hplace : p.Ordinary place) :
    (∃ settings, claudeSandbox here linux site config cwd = some settings ∧
      (p.claudeWrites (here.change cwd) settings place ↔
        Granted here (sandboxRootsOptions site config cwd) place)) ∧
    (∃ command, p.codexArgs reach (buildStartArgs here site config cwd) =
        some command ∧
      (p.codexWrites (here.change cwd) command place ↔
        Granted here (sandboxRootsOptions site config cwd) place)) ∧
    (p.codexWrites (here.change cwd)
        (p.codexThread reach (codexAppServerSandboxParams here site config cwd))
        place ↔
      Granted here (sandboxRootsOptions site config cwd) place) := by
  have hcodex : p.codexWrites (here.change cwd)
      (sandboxedReach here site config cwd reach) place ↔
        Granted here (sandboxRootsOptions site config cwd) place :=
    codex_writes_iff hp hanchored hwrites hplace hbase
  refine ⟨claude_writes_iff hp hanchored hwrites hplace hsandboxed linux,
    ⟨_, hp.args.command hconfig htoml reach, ?_⟩, ?_⟩
  · rw [if_pos hsandboxed]
    exact hcodex
  · rw [hp.thread_sandboxed hsandboxed]
    exact hcodex

/-! ## What no session may write -/

/--
No sandboxed session may write a hook of the repository, its configuration, or
anything else beside the four directories, unless its launch directory or the root
of its state holds it.
-/
theorem sandbox_spares_git (hp : p.Documented) (hconfig : config.Accepted p)
    (linux : Bool) (hsandboxed : config.sandboxed = true)
    (hanchored : (sandboxRootsOptions site config cwd).Anchored)
    (htoml : config.TomlRoots site cwd) (hbase : reach.roots = [])
    (name : Name) (hname : name ∉ targetGitWritableSubpaths) (rest : Place)
    (hplace : place = locate here site.targetRepoRoot ++ units ".git" :: name :: rest)
    (hscratch : ¬ p.scratch place) (hcwd : ¬locate here cwd <+: place)
    (hlifecycle :
      ¬locate here ((controlSocketOf config).getD site.stateDir) <+: place) :
    (∀ settings, claudeSandbox here linux site config cwd = some settings →
      ¬ p.claudeWrites (here.change cwd) settings place) ∧
    (∀ command, p.codexArgs reach (buildStartArgs here site config cwd) =
        some command → ¬ p.codexWrites (here.change cwd) command place) ∧
    ¬ p.codexWrites (here.change cwd)
      (p.codexThread reach (codexAppServerSandboxParams here site config cwd))
      place := by
  have hnone : ¬ Granted here (sandboxRootsOptions site config cwd) place := by
    rw [granted_git_iff hname hplace, lifecycle_eq]
    rintro (hin | hin)
    · exact hcwd hin
    · exact hlifecycle hin
  refine ⟨fun settings hsettings h => ?_, fun command hcommand h => ?_, fun h => ?_⟩
  · exact hnone (granted_of_claudeWrites hp hanchored hsettings hscratch h)
  · rw [hp.args.command hconfig htoml reach, if_pos hsandboxed] at hcommand
    cases hcommand
    exact hnone (granted_of_codexWrites hp hanchored hbase hscratch h)
  · rw [hp.thread_sandboxed hsandboxed] at h
    exact hnone (granted_of_codexWrites hp hanchored hbase hscratch h)

/-! ## A worker in its worktree -/

def scopeOf (scope : Units) : Option SandboxMode :=
  [SandboxMode.readOnly, .workspaceWrite, .dangerFullAccess].find?
    fun mode => mode.text = scope

def textOf : Value → Option Units
  | .string text => some text
  | _ => none

/-- An override of a key that the sandbox does not have is left to others. -/
def Reach.override (reach : Reach) (setting : Units) : Option Reach :=
  if setting = Sandbox.networkAccess then some { reach with network := true }
  else if writableRootsKey.isPrefixOf setting then
    match parseText (setting.drop writableRootsKey.length) with
    | some (.array items) =>
        (items.mapM textOf).map fun roots => { reach with roots }
    | _ => none
  else some reach

def codexSubcommands : List Units := [units "exec", units "login", units "resume"]

def codexValueOptions : List Units :=
  [units "--ask-for-approval", units "--enable", units "--model"]

def readArgs : Reach → List Units → Option Reach
  | reach, [] => some reach
  | reach, [arg] =>
      if arg = bypassFlag then some { reach with mode := .dangerFullAccess }
      else if arg.head? = some 0x2D || codexSubcommands.contains arg then none
      else some reach
  | reach, flag :: value :: rest =>
      if flag = bypassFlag then
        readArgs { reach with mode := .dangerFullAccess } (value :: rest)
      else if flag = units "--sandbox" then
        (scopeOf value).bind fun mode => readArgs { reach with mode } rest
      else if flag = units "-c" then
        (reach.override value).bind fun reach => readArgs reach rest
      else if codexValueOptions.contains flag && value.head? ≠ some 0x2D then
        readArgs reach rest
      else none

/-- Both sandboxes, with `/tmp` open and every `.codex` closed. -/
def providers : Providers where
  codexArgs := readArgs
  subcommands := codexSubcommands
  codexThread reach params :=
    { mode := params.sandbox
      roots := params.writableRoots.getD reach.roots
      network := params.networkAccess.getD reach.network }
  codexWrites launch reach place :=
    match reach.mode with
    | .readOnly => False
    | .dangerFullAccess => True
    | .workspaceWrite =>
        (Under launch reach.roots place ∨ [units "tmp"] <+: place) ∧
          units ".codex" ∉ place
  claudeWrites launch settings place :=
    (Under launch (settings.allowWrite.getD []) place ∨ [units "tmp"] <+: place) ∧
      units ".codex" ∉ place
  scratch place := [units "tmp"] <+: place
  guarded place := units ".codex" ∈ place

theorem mapM_textOf (texts : List Units) :
    (texts.map Value.string).mapM textOf = some texts := by
  induction texts with
  | nil => rfl
  | cons text texts ih => simp [textOf, ih]

theorem override_roots (reach : Reach) (roots : List Units) :
    reach.override (writableRootsKey ++ stringifyAll roots) =
      some { reach with roots } := by
  have hne : writableRootsKey ++ stringifyAll roots ≠ networkAccess := by
    intro heq
    have hbelow : writableRootsKey <+: networkAccess := heq ▸ List.prefix_append _ _
    exact absurd hbelow (by decide)
  have hkey : writableRootsKey.isPrefixOf (writableRootsKey ++ stringifyAll roots) =
      true := List.isPrefixOf_iff_prefix.mpr (List.prefix_append _ _)
  rw [Reach.override, if_neg hne, if_pos hkey, List.drop_left,
    parseText_stringifyAll]
  simp only [mapM_textOf, Option.map_some]

theorem override_server (reach : Reach) :
    reach.override orcMcpServerOff = some reach := by
  rw [Reach.override, if_neg (by decide), if_neg (by decide)]

theorem readArgs_override (reach : Reach) (setting : Units) (rest : List Units) :
    readArgs reach (units "-c" :: setting :: rest) =
      (reach.override setting).bind fun reach => readArgs reach rest := by
  rw [readArgs, if_neg (by decide), if_neg (by decide), if_pos rfl]

theorem readArgs_value {flag value : Units} (reach : Reach) (rest : List Units)
    (hflag : flag ∈ codexValueOptions)
    (hvalue : value.head? ≠ some 0x2D) :
    readArgs reach (flag :: value :: rest) = readArgs reach rest := by
  have hne : ∀ other ∈ [bypassFlag, units "--sandbox", units "-c"],
      ∀ flag ∈ codexValueOptions, flag ≠ other := by decide
  rw [readArgs, if_neg (hne bypassFlag (by simp) flag hflag),
    if_neg (hne _ (by simp) flag hflag), if_neg (hne _ (by simp) flag hflag),
    if_pos (by simp [hflag, hvalue])]

@[simp] theorem providers_codexArgs : providers.codexArgs = readArgs := rfl

theorem providers_readsArgs : providers.ReadsArgs where
  nil _ := rfl
  bypass reach rest := by
    rw [providers_codexArgs]
    cases rest with
    | nil => simp [readArgs]
    | cons value rest => rw [readArgs, if_pos rfl]
  scope reach mode rest := by
    have hscope : scopeOf mode.text = some mode := by
      cases mode <;> decide
    rw [providers_codexArgs, readArgs, if_neg (by decide), if_pos rfl, hscope,
      Option.bind_some]
  approval reach rest := by
    rw [providers_codexArgs, readArgs_value reach rest (by decide) (by decide)]
  roots reach roots rest _ := by
    rw [providers_codexArgs, readArgs_override, override_roots, Option.bind_some]
  network reach rest := by
    rw [providers_codexArgs, readArgs_override, Reach.override, if_pos rfl,
      Option.bind_some]
  server reach rest := by
    rw [providers_codexArgs, readArgs_override, override_server, Option.bind_some]
  feature reach rest := by
    rw [providers_codexArgs, readArgs_value reach rest (by decide) (by decide)]
  model reach model rest h := by
    rw [providers_codexArgs, readArgs_value reach rest (by decide) h]
  prompt reach prompt hoperand hsub := by
    have hne : prompt ≠ bypassFlag := by
      rintro rfl
      exact hoperand (by decide)
    have hplain : prompt.head? ≠ some 0x2D := hoperand
    have hother : prompt ∉ codexSubcommands := hsub
    rw [providers_codexArgs, readArgs, if_neg hne, if_neg (by simp [hplain, hother])]

theorem providers_documented : providers.Documented where
  args := providers_readsArgs
  thread _ _ := rfl
  codexReadOnly launch reach place hmode h := by
    simp only [providers, hmode] at h
  codexWithin launch reach place hmode h := by
    simp only [providers, hmode] at h
    exact h.1
  codexOpens launch reach place hmode hunder hopen := by
    simp only [providers, hmode]
    exact ⟨.inl hunder, hopen⟩
  claudeWithin _ _ _ h := h.1
  claudeOpens _ _ _ hroot hopen := ⟨.inl (.inr hroot), hopen⟩

theorem ordinary_providers (hscratch : ¬ [units "tmp"] <+: place)
    (hguarded : units ".codex" ∉ place) : providers.Ordinary place :=
  ⟨hscratch, hguarded⟩

def orchestrationRoot : Directory where
  place := [units "orch"]
  plain := by decide

def workerSite : Installation where
  stateDir := units "/orch/.orc-state"
  targetRepoRoot := units "/target/"

def workerConfig : LaunchConfig where
  executionMode := some (units "sandbox")
  controlSocket := some (units "/orch/.orc-state/control.sock")
  model := some (units "gpt-5")
  systemPrompt := some (units "Work on the task.")

def workerCwd : Units := units "worktrees/../.worktrees/run-1"

def noConfig : Reach where
  mode := .readOnly

theorem worker_anchored :
    (sandboxRootsOptions workerSite workerConfig workerCwd).Anchored :=
  ⟨by decide, by decide⟩

theorem worker_toml : workerConfig.TomlRoots workerSite workerCwd := by
  have hall : ∀ root ∈ (sandboxRootsOptions workerSite workerConfig workerCwd).roots,
      Utf16.wellFormed root = true ∧ 0x7F ∉ root := by decide +kernel
  exact hall

theorem worker_accepted : workerConfig.Accepted providers where
  model model h := by
    cases h
    decide
  prompt prompt h := by
    cases h
    exact ⟨by decide, by decide⟩

theorem sandbox_writes_granted_worker :
    providers.codexWrites (orchestrationRoot.change workerCwd)
      (providers.codexThread noConfig (codexAppServerSandboxParams orchestrationRoot
        workerSite workerConfig workerCwd))
      [units "target", units ".git", units "refs", units "heads"] :=
  (sandbox_writes_granted providers_documented worker_accepted rfl rfl
    worker_anchored worker_toml rfl orchestrationRoot true
    (ordinary_providers (by decide) (by decide))).2.2.mpr (by decide)

theorem sandbox_spares_git_worker :
    ¬ providers.codexWrites (orchestrationRoot.change workerCwd)
      (providers.codexThread noConfig (codexAppServerSandboxParams orchestrationRoot
        workerSite workerConfig workerCwd))
      [units "target", units ".git", units "hooks", units "pre-commit"] :=
  (sandbox_spares_git providers_documented worker_accepted true rfl worker_anchored
    worker_toml rfl (units "hooks") (by decide) [units "pre-commit"] (by decide)
    (ordinary_providers (by decide) (by decide)).1 (by decide) (by decide)).2.2

def scoutConfig : LaunchConfig where
  readOnly := true

/-- A scout outside the sandbox mode. -/
theorem codex_runtimes_agree_scout :
    ∃ command, providers.codexArgs noConfig
        (buildStartArgs orchestrationRoot workerSite scoutConfig workerCwd) =
          some command ∧ command.mode = .dangerFullAccess := by
  have htoml : scoutConfig.TomlRoots workerSite workerCwd := by
    have hall : ∀ root ∈
        (sandboxRootsOptions workerSite scoutConfig workerCwd).roots,
        Utf16.wellFormed root = true ∧ 0x7F ∉ root := by decide +kernel
    exact hall
  have haccepted : scoutConfig.Accepted providers :=
    ⟨by rintro _ ⟨⟩, by rintro _ ⟨⟩⟩
  obtain ⟨command, hcommand, -, hscout⟩ :
      ∃ command, providers.codexArgs noConfig
        (buildStartArgs orchestrationRoot workerSite scoutConfig workerCwd) =
          some command ∧ _ ∧ _ :=
    codex_runtimes_agree providers_documented haccepted htoml noConfig
  exact ⟨command, hcommand, (hscout ⟨rfl, rfl⟩).1⟩

end OrcState.Provider.Sandbox
