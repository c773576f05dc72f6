import LosslessTree.Proofs.Config.Environment

/-! Which source of the configuration counts. Each layer is checked over a configuration that is valid
already, so what is wrong with the result was set by that layer, and what comes out has for every field the
value of the highest source that sets it. -/
namespace LosslessTree.Config

variable {files : FileSystem} {env : Environment} {o : LoadOptions} {order : List Environment.Variable}
  {c c' : Config} {path : Bytes} {user project : Option Bytes} {warnings : List Bytes} {f : Failure}

/-- The settings of a file; none if it cannot be read. -/
def fileSettings (files : FileSystem) (path : Bytes) : List Setting :=
  match files.readFile path with
  | .ok content => (Decode.text content).1
  | .error _ => []

/-- A file that can be read, is understood, and gives no field an invalid value. -/
structure AcceptsFile (files : FileSystem) (path : Bytes) : Prop where
  decoded : ∃ content, files.readFile path = .ok content ∧
    Decode.text content = (fileSettings files path, none)
  valid : ∀ key s, Setting.last? (fileSettings files path) key = some s → s.errors = []

/-- Something wrong with a value that these settings give. -/
def AtFault (settings : List Setting) (e : Finding) : Prop :=
  ∃ s, Setting.last? settings s.key = some s ∧ e ∈ s.errors ∧ s.key.IsNamedBy e.field

lemma atFault_of_mem_errors {settings : List Setting} {e : Finding} (hvalid : c.errors = [])
    (he : e ∈ (c.apply settings).errors) : AtFault settings e := by
  obtain ⟨s, hs, he⟩ := exists_setting_of_mem_errors hvalid he
  exact ⟨s, hs, he, Setting.isNamedBy_of_mem_errors he⟩

lemma failure?_inFile (c : Config) (path : Bytes) : failure? (c.validate.inFile path) =
    c.errors.head?.map fun e => ⟨[.invalidSetting], ({ e with file := path } : Finding).text⟩ := by
  simp [failure?, Findings.inFile, validate, List.head?_map, Function.comp_def]

/-- What laying a file over a configuration comes to once it is decoded. -/
lemma overlayFile_decoded {content : Bytes} {settings : List Setting} (hread : files.readFile path = .ok content)
    (htext : Decode.text content = (settings, none)) (c : Config) : overlayFile files c path =
      match (c.apply settings).errors.head? with
      | some e => .error ⟨[.invalidSetting], ({ e with file := path } : Finding).text⟩
      | none => .ok ((c.apply settings).normalized,
          ((c.apply settings).validate.inFile path).warnings.map Finding.text) := by
  simp only [overlayFile, hread, decode, htext, failure?_inFile]
  cases (c.apply settings).errors.head? <;> rfl

lemma fileSettings_eq {content : Bytes} {settings : List Setting} (hread : files.readFile path = .ok content)
    (htext : Decode.text content = (settings, none)) : fileSettings files path = settings := by
  simp only [fileSettings, hread, htext]

/-- Unless a file is refused for one of its values, it is not refused as invalid. -/
lemma overlayFile_cases (files : FileSystem) (c : Config) (path : Bytes) :
    (∃ content settings, files.readFile path = .ok content ∧ Decode.text content = (settings, none)) ∨
      ∃ f, overlayFile files c path = .error f ∧ f.has .invalidSetting = false := by
  cases hread : files.readFile path with
  | error e =>
    refine .inr ⟨_, by rw [overlayFile, hread], ?_⟩
    cases hfault : e.fault <;> simp [Failure.has, Failure.within, Failure.ofAccess, hfault]
  | ok content =>
    rcases htext : Decode.text content with ⟨settings, _ | e⟩
    · exact .inl ⟨content, settings, rfl, htext⟩
    · refine .inr ⟨⟨[], path ++ ": " ++ e.message⟩, ?_, rfl⟩
      simp only [overlayFile, hread, decode, htext]

/-- A file that can be laid over a configuration is accepted itself, and the result is valid. -/
lemma overlayFile_ok (h : overlayFile files c path = .ok (c', warnings)) :
    AcceptsFile files path ∧ c' = (c.apply (fileSettings files path)).normalized ∧ c'.errors = [] := by
  rcases overlayFile_cases files c path with ⟨content, settings, hread, htext⟩ | ⟨f, hf, -⟩
  · have hsettings := fileSettings_eq hread htext
    rw [overlayFile_decoded hread htext] at h
    cases herrors : (c.apply settings).errors with
    | cons e rest => simp [herrors] at h
    | nil =>
      simp only [herrors, List.head?_nil, Except.ok.injEq, Prod.mk.injEq] at h
      refine ⟨⟨⟨content, hread, htext.trans (by rw [hsettings])⟩, fun key s hs => ?_⟩, ?_, ?_⟩
      · have hget := errors_eq_nil_iff.mp herrors key
        rw [get_apply, ← hsettings, hs] at hget
        exact hget
      · rw [hsettings, h.1]
      · rw [← h.1, errors_normalized, herrors]
  · cases hf.symm.trans h

/-- What is invalid after a file was laid over a valid configuration, that file has set. -/
lemma overlayFile_error (hvalid : c.errors = []) (h : overlayFile files c path = .error f)
    (hf : f.has .invalidSetting = true) : ∃ content e, files.readFile path = .ok content ∧
      Decode.text content = (fileSettings files path, none) ∧ AtFault (fileSettings files path) e ∧
      f = ⟨[.invalidSetting], ({ e with file := path } : Finding).text⟩ := by
  rcases overlayFile_cases files c path with ⟨content, settings, hread, htext⟩ | ⟨f', hf', hnot⟩
  · have hsettings := fileSettings_eq hread htext
    rw [overlayFile_decoded hread htext] at h
    cases herrors : (c.apply settings).errors with
    | nil => simp [herrors] at h
    | cons e rest =>
      simp only [herrors, List.head?_cons, Except.error.injEq] at h
      refine ⟨content, e, hread, htext.trans (by rw [hsettings]), ?_, h.symm⟩
      rw [hsettings]
      exact atFault_of_mem_errors hvalid (herrors ▸ .head _)
  · obtain rfl := Except.error.inj (hf'.symm.trans h)
    cases hnot.symm.trans hf

/-- What is said about a layer that is refused for one of its values. -/
def Layer.blame (layer : Layer) (e : Finding) : Failure :=
  (Failure.mk [.invalidSetting] ({ e with file := layer.path } : Finding).text).within
    (Bytes.ofString ("load " ++ layer.name ++ " config"))

lemma overlayAll_ok {sources : List Layer} (hvalid : c.errors = [])
    (h : overlayAll files sources c = .ok (c', warnings)) :
    (∀ layer ∈ sources, AcceptsFile files layer.path) ∧ c'.errors = [] ∧
      c'.normalized = (c.apply (sources.flatMap fun layer => fileSettings files layer.path)).normalized := by
  induction sources generalizing c warnings with
  | nil =>
    obtain ⟨rfl, -⟩ := Prod.mk.inj (Except.ok.inj h)
    exact ⟨List.forall_mem_nil _, hvalid, rfl⟩
  | cons layer rest ih =>
    rw [overlayAll] at h
    rcases hfirst : overlayFile files c layer.path with e | ⟨middle, first⟩
    · simp [hfirst, Except.mapError, bind, Except.bind] at h
    rcases hrest : overlayAll files rest middle with e | ⟨last, more⟩
    · simp [hfirst, hrest, Except.mapError, bind, Except.bind] at h
    simp only [hfirst, hrest, Except.mapError, bind, Except.bind, pure, Except.pure, Except.ok.injEq,
      Prod.mk.injEq] at h
    obtain ⟨rfl, -⟩ := h
    obtain ⟨haccepts, rfl, hmiddle⟩ := overlayFile_ok hfirst
    obtain ⟨hall, hlast, heq⟩ := ih hmiddle hrest
    refine ⟨List.forall_mem_cons.mpr ⟨haccepts, hall⟩, hlast, ?_⟩
    rw [heq, normalized_apply, List.flatMap_cons, apply_append]

lemma overlayAll_error {sources : List Layer} (hvalid : c.errors = [])
    (h : overlayAll files sources c = .error f) (hf : f.has .invalidSetting = true) :
    ∃ layer ∈ sources, ∃ content e, files.readFile layer.path = .ok content ∧
      Decode.text content = (fileSettings files layer.path, none) ∧
      AtFault (fileSettings files layer.path) e ∧ f = layer.blame e := by
  induction sources generalizing c with
  | nil => cases h
  | cons layer rest ih =>
    rw [overlayAll] at h
    rcases hfirst : overlayFile files c layer.path with f' | ⟨middle, first⟩
    · simp only [hfirst, Except.mapError, bind, Except.bind, Except.error.injEq] at h
      subst h
      obtain ⟨content, e, hread, htext, hfault, rfl⟩ := overlayFile_error hvalid hfirst hf
      exact ⟨layer, .head _, content, e, hread, htext, hfault, rfl⟩
    rcases hrest : overlayAll files rest middle with f' | ⟨last, more⟩
    · simp only [hfirst, hrest, Except.mapError, bind, Except.bind, Except.error.injEq] at h
      subst h
      obtain ⟨layer, hlayer, hblame⟩ := ih (overlayFile_ok hfirst).2.2 hrest
      exact ⟨layer, .tail _ hlayer, hblame⟩
    · simp [hfirst, hrest, Except.mapError, bind, Except.bind, pure, Except.pure] at h

/-- What the environment sets, unless it is left aside. -/
def environmentSettings (env : Environment) (o : LoadOptions) : List Setting :=
  if o.ignoreEnvironment then [] else Environment.known.filterMap env.given?

/-- All sources of settings, the one that counts most first. -/
def sources (files : FileSystem) (env : Environment) (o : LoadOptions) (user project : Option Bytes) :
    List (List Setting) :=
  [o.overrides,
    environmentSettings env o,
    if o.explicit.isEmpty then [] else fileSettings files o.explicit,
    if o.ignoreProject then [] else (project.map (fileSettings files)).getD [],
    if o.ignoreUser then [] else (user.map (fileSettings files)).getD []]

/-- Laid over each other, sources give each field the value of the first that sets it. -/
lemma last?_flatten_reverse (sources : List (List Setting)) (key : Key) :
    Setting.last? sources.reverse.flatten key = sources.findSome? fun s => Setting.last? s key := by
  induction sources with
  | nil => rfl
  | cons first rest ih =>
    rw [List.reverse_cons, List.flatten_concat, Setting.last?_append, ih, List.findSome?_cons]
    cases Setting.last? first key <;> rfl

lemma flatten_sources (files : FileSystem) (env : Environment) (o : LoadOptions) (user project : Option Bytes) :
    (sources files env o user project).reverse.flatten =
      ((layers o user project).flatMap fun layer => fileSettings files layer.path) ++
        environmentSettings env o ++ o.overrides := by
  unfold sources layers
  cases user <;> cases project <;> cases o.ignoreUser <;> cases o.ignoreProject <;>
    cases o.explicit.isEmpty <;> simp

/-- A configuration as its sources make it. -/
structure Resolved (files : FileSystem) (env : Environment) (o : LoadOptions) (user project : Option Bytes)
    (c : Config) : Prop where
  /-- Each field has the value of the highest source that sets it, the language trimmed. -/
  value : ∀ key, c.get key =
    (((sources files env o user project).findSome? fun s => Setting.last? s key).getD
      (({} : Config).get key)).trimmed
  /-- No file had a part in it that is not understood or invalid. -/
  layers : ∀ layer ∈ layers o user project, AcceptsFile files layer.path
  /-- Nor had a variable whose value is invalid. -/
  environment : o.ignoreEnvironment = false → env.Accepts Environment.known
  valid : c.errors = []

/-- What is said about a configuration that is invalid. -/
inductive Blamed (files : FileSystem) (env : Environment) (o : LoadOptions) (user project : Option Bytes) :
    Failure → Prop
  /-- A file is blamed for what it sets itself. -/
  | file {layer : Layer} {content : Bytes} {e : Finding} (member : layer ∈ layers o user project)
      (read : files.readFile layer.path = .ok content)
      (decoded : Decode.text content = (fileSettings files layer.path, none))
      (fault : AtFault (fileSettings files layer.path) e) : Blamed files env o user project (layer.blame e)
  /-- No file is blamed for what is set after the files. -/
  | resolved {e : Finding} (accepted : ∀ layer ∈ layers o user project, AcceptsFile files layer.path)
      (fault : AtFault (environmentSettings env o ++ o.overrides) e) :
      Blamed files env o user project ⟨[.invalidSetting], e.text⟩

/-- Laying the environment over a configuration, unless it is left aside. -/
lemma overlayEnvironment_ok (h : order.Perm Environment.known)
    (hlaid : (if o.ignoreEnvironment then pure c else overlayEnvironment order env c) = .ok c') :
    (o.ignoreEnvironment = false → env.Accepts Environment.known) ∧ c' = c.apply (environmentSettings env o) := by
  unfold environmentSettings
  cases hignore : o.ignoreEnvironment with
  | true =>
    rw [hignore] at hlaid
    exact ⟨nofun, (Except.ok.inj hlaid).symm⟩
  | false =>
    simp only [hignore, Bool.false_eq_true, if_false] at hlaid
    have hperm := overlayEnvironment_perm h env c
    rw [hlaid] at hperm
    cases hknown : overlayEnvironment Environment.known env c with
    | error f => simp [hknown, Except.toOption] at hperm
    | ok d =>
      simp only [hknown, Except.toOption, Option.some.injEq] at hperm
      obtain ⟨haccepts, rfl⟩ := overlayEnvironment_eq_ok_iff.mp hknown
      exact ⟨fun _ => haccepts, hperm⟩

/-- What resolving comes to once the files and the environment are laid over the defaults. -/
lemma resolve_laid {middle : Config} (hfiles : overlayAll files (layers o user project) {} = .ok (middle, warnings))
    (henv : (if o.ignoreEnvironment then pure middle else overlayEnvironment order env middle) = .ok c) :
    resolve order files env o user project =
      match (c.apply o.overrides).errors.head? with
      | some e => .error ⟨[.invalidSetting], e.text⟩
      | none => .ok
        { config := (c.apply o.overrides).normalized, user, project, explicit := o.explicit
          loadedFrom := (layers o user project).map Layer.path
          warnings := warnings ++ (c.apply o.overrides).validate.warnings.map Finding.text } := by
  simp only [resolve, hfiles, henv, bind, Except.bind, failure?, validate]
  cases (c.apply o.overrides).errors.head? <;> rfl

lemma errors_default : ({} : Config).errors = [] := by decide

/-- The environment is never what makes a failure one of validation. -/
lemma overlayEnvironment_error
    (h : (if o.ignoreEnvironment then pure c else overlayEnvironment order env c) = .error f) :
    f.has .invalidSetting = false := by
  cases hignore : o.ignoreEnvironment with
  | true => simp [hignore, pure, Except.pure] at h
  | false =>
    simp only [hignore, Bool.false_eq_true, if_false, overlayEnvironment] at h
    rcases hread : env.settingsOf order with ⟨settings, _ | message⟩
    · simp [hread] at h
    · simp only [hread, Except.error.injEq] at h
      subst h
      rfl

theorem resolve_ok {loaded : Loaded} (h : order.Perm Environment.known)
    (hresolve : resolve order files env o user project = .ok loaded) :
    loaded.user = user ∧ loaded.project = project ∧ Resolved files env o user project loaded.config := by
  rcases hfiles : overlayAll files (layers o user project) {} with f | ⟨middle, warnings⟩
  · simp [resolve, hfiles, bind, Except.bind] at hresolve
  rcases henv : (if o.ignoreEnvironment then pure middle else overlayEnvironment order env middle) with f | c
  · simp [resolve, hfiles, henv, bind, Except.bind] at hresolve
  rw [resolve_laid hfiles henv] at hresolve
  cases herrors : (c.apply o.overrides).errors with
  | cons e rest => simp [herrors] at hresolve
  | nil =>
    simp only [herrors, List.head?_nil, Except.ok.injEq] at hresolve
    subst hresolve
    obtain ⟨haccepts, -, hmiddle⟩ := overlayAll_ok errors_default hfiles
    obtain ⟨hvariables, rfl⟩ := overlayEnvironment_ok h henv
    refine ⟨rfl, rfl, fun key => ?_, haccepts, hvariables, herrors⟩
    have hconfig : ((middle.apply (environmentSettings env o)).apply o.overrides).normalized =
        (({} : Config).apply (sources files env o user project).reverse.flatten).normalized := by
      rw [← apply_append, ← normalized_apply, hmiddle, normalized_apply, ← apply_append, flatten_sources,
        List.append_assoc]
    rw [hconfig, get_normalized, get_apply, last?_flatten_reverse]

theorem resolve_error (h : order.Perm Environment.known)
    (hresolve : resolve order files env o user project = .error f) (hf : f.has .invalidSetting = true) :
    Blamed files env o user project f := by
  rcases hfiles : overlayAll files (layers o user project) {} with f' | ⟨middle, warnings⟩
  · simp only [resolve, hfiles, bind, Except.bind, Except.error.injEq] at hresolve
    subst hresolve
    obtain ⟨layer, hlayer, content, e, hread, htext, hfault, rfl⟩ := overlayAll_error errors_default hfiles hf
    exact .file hlayer hread htext hfault
  rcases henv : (if o.ignoreEnvironment then pure middle else overlayEnvironment order env middle) with f' | c
  · simp only [resolve, hfiles, henv, bind, Except.bind, Except.error.injEq] at hresolve
    subst hresolve
    cases (overlayEnvironment_error henv).symm.trans hf
  rw [resolve_laid hfiles henv] at hresolve
  cases herrors : (c.apply o.overrides).errors with
  | nil => simp [herrors] at hresolve
  | cons e rest =>
    simp only [herrors, List.head?_cons, Except.error.injEq] at hresolve
    subst hresolve
    obtain ⟨haccepts, hmiddle, -⟩ := overlayAll_ok errors_default hfiles
    obtain ⟨-, rfl⟩ := overlayEnvironment_ok h henv
    refine .resolved haccepts (atFault_of_mem_errors hmiddle ?_)
    rw [apply_append, herrors]
    exact .head _

lemma toOption_bind_congr {ε α β : Type} {x y : Except ε α} {g g' : α → Except ε β}
    (h : x.toOption = y.toOption) (hg : ∀ a, (g a).toOption = (g' a).toOption) :
    (x >>= g).toOption = (y >>= g').toOption := by
  cases x <;> cases y <;> simp_all [Except.toOption, bind, Except.bind]

theorem resolve_perm (h : order.Perm Environment.known) (files : FileSystem) (env : Environment) (o : LoadOptions)
    (user project : Option Bytes) : (resolve order files env o user project).toOption =
      (resolve Environment.known files env o user project).toOption := by
  refine toOption_bind_congr rfl fun laid => toOption_bind_congr ?_ fun _ => rfl
  split
  · rfl
  · exact overlayEnvironment_perm h env laid.1

/-- The files that the search comes up with. -/
def Located (files : FileSystem) (env : Environment) (o : LoadOptions) (cancel : Cancellation) (places : Places) :
    Prop :=
  ∃ start, startDir files o = .ok start ∧ (locate files env start cancel).1 = .ok places

lemma mapError_ofAccess {α : Type} {x : Except AccessError α} {context : Bytes}
    (h : (x.mapError fun e => (Failure.ofAccess e).within context) = .error f) : f.has .invalidSetting = false := by
  cases x with
  | ok a => cases h
  | error e =>
    obtain rfl := Except.error.inj h
    cases hfault : e.fault <;> simp [Failure.has, Failure.within, Failure.ofAccess, hfault]

lemma searchIn_error {home : Bytes} {dirs : List Bytes} {cancel : Cancellation}
    (h : (searchIn files home dirs cancel).1 = .error f) : f.has .invalidSetting = false := by
  induction dirs generalizing cancel with
  | nil => cases h
  | cons dir rest ih =>
    rw [searchIn] at h
    split at h
    · obtain rfl := Except.error.inj h
      rfl
    · split at h
      · cases h
      · split at h
        · cases h
        · exact ih h

lemma findProject_error {start : Bytes} {cancel : Cancellation}
    (h : (findProject files env start cancel).1 = .error f) : f.has .invalidSetting = false := by
  unfold findProject at h
  dsimp only at h
  split at h
  · next f' hdir =>
    obtain rfl := Except.error.inj h
    split at hdir
    · exact mapError_ofAccess hdir
    · exact mapError_ofAccess hdir
  · exact searchIn_error h

/-- Searching finds nothing invalid. -/
lemma locate_error {start : Bytes} {cancel : Cancellation} (h : (locate files env start cancel).1 = .error f) :
    f.has .invalidSetting = false := by
  unfold locate at h
  split at h
  · obtain rfl := Except.error.inj h
    rfl
  · cases hproject : (findProject files env start cancel.next).1 with
    | ok project => simp [hproject, Except.map] at h
    | error f' =>
      simp only [hproject, Except.map, Except.error.injEq] at h
      exact h ▸ findProject_error hproject

/-- Loading fails in the search already, or resolves what was found there. -/
lemma loadVisiting_cases (files : FileSystem) (env : Environment) (o : LoadOptions) (cancel : Cancellation) :
    (∃ f, f.has .invalidSetting = false ∧ ∀ order, (loadVisiting order files env o cancel).1 = .error f) ∨
      ∃ places, Located files env o cancel places ∧ ∀ order,
        (loadVisiting order files env o cancel).1 = resolve order files env o places.user places.project := by
  cases hstart : startDir files o with
  | error f =>
    have hf : f.has .invalidSetting = false := by
      unfold startDir at hstart
      split at hstart
      · exact mapError_ofAccess hstart
      · cases hstart
    exact .inl ⟨f, hf, fun order => by rw [loadVisiting, hstart]⟩
  | ok start =>
    rcases hlocate : locate files env start cancel with ⟨f | places, after⟩
    · have hf : f.has .invalidSetting = false := locate_error (congrArg Prod.fst hlocate)
      exact .inl ⟨f.within "discover paths", hf, fun order => by simp only [loadVisiting, hstart, hlocate]⟩
    · exact .inr ⟨places, ⟨start, hstart, congrArg Prod.fst hlocate⟩,
        fun order => by simp only [loadVisiting, hstart, hlocate]⟩

/-- A configuration that loads has in every field the value of the highest source that sets it, whatever the
order in which the variables of the environment are visited. One that does not is blamed on a file only for
what that file sets. -/
theorem load_precedence (h : order.Perm Environment.known) (files : FileSystem) (env : Environment)
    (o : LoadOptions) (cancel : Cancellation) :
    (loadVisiting order files env o cancel).1.toOption = (load files env o cancel).1.toOption ∧
    (∀ loaded, (loadVisiting order files env o cancel).1 = .ok loaded →
      Located files env o cancel ⟨loaded.user, loaded.project⟩ ∧
        Resolved files env o loaded.user loaded.project loaded.config) ∧
    ∀ f, (loadVisiting order files env o cancel).1 = .error f → f.has .invalidSetting = true →
      ∃ places, Located files env o cancel places ∧ Blamed files env o places.user places.project f := by
  rcases loadVisiting_cases files env o cancel with ⟨f, hf, hload⟩ | ⟨places, hplaces, hload⟩
  · refine ⟨by rw [load, hload, hload], fun loaded hloaded => ?_, fun f' hf' hinvalid => ?_⟩
    · cases (hload order).symm.trans hloaded
    · obtain rfl := Except.error.inj ((hload order).symm.trans hf')
      cases hf.symm.trans hinvalid
  · refine ⟨?_, fun loaded hloaded => ?_, fun f hf hinvalid => ?_⟩
    · rw [load, hload, hload]
      exact resolve_perm h files env o places.user places.project
    · obtain ⟨huser, hproject, hresolved⟩ := resolve_ok h ((hload order).symm.trans hloaded)
      rw [huser, hproject]
      exact ⟨hplaces, hresolved⟩
    · exact ⟨places, hplaces, resolve_error h ((hload order).symm.trans hf) hinvalid⟩

section Layered

/-- Two files that set the number of jobs, and a third that sets it to what it cannot be. -/
def layered : FileSystem where
  entries :=
    [(["p"], .directory), (["u"], .directory), (["u", "syntree"], .directory),
      (["u", "syntree", "config.yaml"], .file { content := "jobs: 5\nformat: json\n", mode := 0o644 }),
      (["p", ".syntree.yml"], .file { content := "jobs: 3\nlanguage: \" calc \"\n", mode := 0o644 }),
      (["p", "other.yml"], .file { content := "jobs: -2\n", mode := 0o644 })]

def layeredVariables : Environment :=
  [("XDG_CONFIG_HOME", "/u"), ("SYNTREE_FORMAT", "text"), ("SYNTREE_COLOR", "")]

def layeredOptions : LoadOptions where
  workingDir := "/p"
  overrides := [.maxDepth 4]

def brokenOptions : LoadOptions := { layeredOptions with explicit := "/p/other.yml" }

def layeredPlaces : Places where
  user := some "/u/syntree/config.yaml"
  project := some "/p/.syntree.yml"

lemma readFile_user : layered.readFile "/u/syntree/config.yaml" = .ok "jobs: 5\nformat: json\n" := by decide

lemma readFile_project : layered.readFile "/p/.syntree.yml" = .ok "jobs: 3\nlanguage: \" calc \"\n" := by decide

lemma readFile_other : layered.readFile "/p/other.yml" = .ok "jobs: -2\n" := by decide

lemma text_user : Decode.text "jobs: 5\nformat: json\n" = ([.jobs 5, .format "json"], none) := by decide +kernel

lemma text_project : Decode.text "jobs: 3\nlanguage: \" calc \"\n" = ([.jobs 3, .language " calc "], none) := by
  decide +kernel

lemma text_other : Decode.text "jobs: -2\n" = ([.jobs (-2)], none) := by decide +kernel

lemma hasFile_of_readFile {content : Bytes} (h : files.readFile path = .ok content) : files.hasFile path = true := by
  simp only [FileSystem.readFile, FileSystem.hasFile, FileSystem.stat, FileSystem.entryAt] at h ⊢
  cases hplace : files.locate true path with
  | error fault => simp [hplace, FileSystem.refused] at h
  | ok place =>
    cases place with
    | absent dir name => simp [hplace, FileSystem.refused] at h
    | found l =>
      rw [hplace] at h
      cases hentry : (files.entry? l).getD .directory <;>
        simp_all [FileSystem.refused, Entry.isDirectory]

lemma find?_hasFile {paths : List Bytes} {content : Bytes} (hfirst : paths.head? = some path)
    (h : files.readFile path = .ok content) : paths.find? files.hasFile = some path := by
  obtain ⟨rest, rfl⟩ := List.head?_eq_some_iff.mp hfirst
  exact List.find?_cons_of_pos (hasFile_of_readFile h)

lemma locate_layered : locate layered layeredVariables "/p" .never = (.ok layeredPlaces, .never) := by
  have hdir : layered.absolute "/p" = .ok "/p" := by decide
  have habove : ancestors "/p" = ["/p", "/"] := by decide
  have hstart : List.isEmpty (Bytes.ofString "/p") = false := by decide
  have huserDir : userDir layeredVariables = "/u/syntree" := by decide
  have hproject : fileIn? layered "/p" = some "/p/.syntree.yml" :=
    find?_hasFile (by decide) readFile_project
  have huser : findUser? layered layeredVariables = some "/u/syntree/config.yaml" := by
    rw [findUser?, huserDir]
    exact find?_hasFile (by decide) readFile_user
  simp [locate, findProject, searchIn, hdir, habove, hstart, hproject, huser, layeredPlaces,
    Except.mapError, Except.map]

lemma resolve_layered : (resolve Environment.known.reverse layered layeredVariables layeredOptions
    layeredPlaces.user layeredPlaces.project).toOption.map Loaded.config =
      some { language := "calc", jobs := 3, maxDepth := 4 } := by
  have hlayers : layers layeredOptions layeredPlaces.user layeredPlaces.project =
      [⟨"user", "/u/syntree/config.yaml"⟩, ⟨"project", "/p/.syntree.yml"⟩] := rfl
  simp only [resolve, hlayers, overlayAll, overlayFile, decode, readFile_user, readFile_project, text_user,
    text_project]
  decide +kernel

lemma resolve_broken : (match resolve Environment.known.reverse layered layeredVariables brokenOptions
      layeredPlaces.user layeredPlaces.project with
    | .ok _ => false
    | .error f => f.has .invalidSetting) = true := by
  have hlayers : layers brokenOptions layeredPlaces.user layeredPlaces.project =
      [⟨"user", "/u/syntree/config.yaml"⟩, ⟨"project", "/p/.syntree.yml"⟩, ⟨"explicit", "/p/other.yml"⟩] := rfl
  simp only [resolve, hlayers, overlayAll, overlayFile, decode, readFile_user, readFile_project, readFile_other,
    text_user, text_project, text_other]
  decide +kernel

end Layered

/-- The project's file goes before the user's, the environment before both, and what is given on the command
line before all. A file with an invalid number of jobs is blamed for it. -/
theorem load_precedence_layered :
    (∃ loaded, (loadVisiting Environment.known.reverse layered layeredVariables layeredOptions .never).1 = .ok loaded ∧
      loaded.config = { language := "calc", jobs := 3, maxDepth := 4 } ∧
      Resolved layered layeredVariables layeredOptions loaded.user loaded.project loaded.config) ∧
    ∃ (f : Failure) (places : Places),
      (loadVisiting Environment.known.reverse layered layeredVariables brokenOptions .never).1 = .error f ∧
      f.has .invalidSetting = true ∧
      Blamed layered layeredVariables brokenOptions places.user places.project f := by
  have hload (o : LoadOptions) (ho : startDir layered o = .ok "/p") :
      (loadVisiting Environment.known.reverse layered layeredVariables o .never).1 =
        resolve Environment.known.reverse layered layeredVariables o layeredPlaces.user layeredPlaces.project := by
    simp only [loadVisiting, ho, locate_layered]
  have hstart : List.isEmpty (Bytes.ofString "/p") = false := by decide
  have hperm : Environment.known.reverse.Perm Environment.known := List.reverse_perm _
  constructor
  · cases hresolve : resolve Environment.known.reverse layered layeredVariables layeredOptions layeredPlaces.user
        layeredPlaces.project with
    | error f =>
      have hconfig := resolve_layered
      simp [hresolve, Except.toOption] at hconfig
    | ok loaded =>
      have hloaded := (hload layeredOptions (by simp [startDir, layeredOptions, hstart])).trans hresolve
      have hconfig := resolve_layered
      simp only [hresolve, Except.toOption, Option.map_some, Option.some.injEq] at hconfig
      exact ⟨loaded, hloaded, hconfig, ((load_precedence hperm _ _ _ _).2.1 loaded hloaded).2⟩
  · have hinvalid := resolve_broken
    split at hinvalid
    · cases hinvalid
    · next f hresolve =>
      have hfailed := (hload brokenOptions
        (by simp [startDir, brokenOptions, layeredOptions, hstart])).trans hresolve
      obtain ⟨places, -, hblamed⟩ := (load_precedence hperm _ _ _ _).2.2 f hfailed hinvalid
      exact ⟨f, places, hfailed, hinvalid, hblamed⟩

end LosslessTree.Config
