import Mathlib.Data.List.Forall2
import LayerLint.Run

/-!
# The status of a run

A run has to load the settings file that its arguments name, every Dockerfile and the history
(`Loads`). When one of these fails, the run ends with status 1 and has written nothing; otherwise
its status follows from the contents of the Dockerfiles and the codes that are left out
(`statusOfContents`). So it does not matter for the status in which form, with which colours, from
which severity on and with what else the results are shown, as long as the settings come from the
same file (`exitCode_run`). Arguments that are refused share their status with suggestions of high
severity (`statusesApart_iff`).
-/

namespace LayerLint

/-! ## What a run loads -/

/-- Everything that a run with these arguments has to load can be loaded. Settings files that are
only looked for need not. -/
structure Loads (w : World) (a : Arguments) : Prop where
  config : ∀ path, a.config = some path → ∃ t s, w.read path = .ok t ∧ Settings.parse? t = some s
  files : ∀ path ∈ a.files, ∃ t, w.read path = .ok t
  history : ∀ path, a.history = some path → ∃ t, w.read path = .ok t

def World.Governs (w : World) (s : Settings) (a : Arguments) : Prop :=
  ∃ warnings, w.settings a.config = .ok (s, warnings)

def ignoredCodes (s : Settings) (a : Arguments) : List Text :=
  (s.ignoreRules ++ a.ignore).map Text.trim

/-- The status of a run over Dockerfiles with these contents: 2 when a suggestion about one of them
has high severity, and 0 otherwise. -/
def statusOfContents (ignore contents : List Text) : Nat :=
  if contents.any fun t => (analyze ignore t).suggestions.any fun s => s.severity = .high then 2
  else 0

theorem Report.hasHigh_eq_any (r : Report) :
    r.hasHigh = r.suggestions.any fun s => s.severity = .high := by
  rw [Bool.eq_iff_iff, List.any_eq_true]
  unfold hasHigh
  rw [decide_eq_true_iff]
  exact List.countP_pos_iff

theorem statusOf_map_analyze (ignore contents : List Text) :
    statusOf (contents.map (analyze ignore)) = statusOfContents ignore contents := by
  unfold statusOf statusOfContents
  rw [List.any_map]
  simp only [Function.comp_def, Report.hasHigh_eq_any]

/-! ## Settings -/

theorem Settings.ofContent_eq_ok {path : Text} {content : Except ReadFault Text} {s : Settings}
    (h : ofContent path content = .ok s) : ∃ t, content = .ok t ∧ parse? t = some s := by
  cases content with
  | error fault => cases h
  | ok t =>
    refine ⟨t, rfl, ?_⟩
    unfold ofContent at h
    dsimp only at h
    split at h
    · next hparse =>
      cases h
      exact hparse
    · cases h

/-- Only a settings file that is named can be missed. -/
theorem World.settings_eq_error {w : World} {config : Option Text} {fault : SettingsFault}
    (h : w.settings config = .error fault) :
    ∃ path, config = some path ∧ ∀ t s, w.read path = .ok t → Settings.parse? t ≠ some s := by
  cases config with
  | none => cases h
  | some path =>
    refine ⟨path, rfl, fun t s ht hs => ?_⟩
    simp only [settings, ht, Settings.ofContent, hs] at h
    cases h

theorem World.exists_governs {w : World} {a : Arguments} (h : Loads w a) :
    ∃ s, w.Governs s a := by
  cases hs : w.settings a.config with
  | ok result => exact ⟨result.1, result.2, hs⟩
  | error fault =>
    obtain ⟨path, hpath, hnone⟩ := w.settings_eq_error hs
    obtain ⟨t, s, ht, hparse⟩ := h.config path hpath
    exact absurd hparse (hnone t s ht)

theorem World.Governs.config {w : World} {s : Settings} {a : Arguments} (h : w.Governs s a)
    (path : Text) (hpath : a.config = some path) :
    ∃ t s, w.read path = .ok t ∧ Settings.parse? t = some s := by
  obtain ⟨warnings, h⟩ := h
  rw [hpath] at h
  cases hs : Settings.ofContent path (w.read path) with
  | error fault =>
    simp only [World.settings, hs] at h
    cases h
  | ok s' =>
    obtain ⟨t, ht, hparse⟩ := Settings.ofContent_eq_ok hs
    exact ⟨t, s', ht, hparse⟩

namespace Settings

def displayKeys : List Text := ["min_severity", "format", "color", "estimate_size"]

theorem ignoreRules_of_ofEntries? {entries : Toml.Entries} {s : Settings}
    (h : ofEntries? entries = some s) :
    get? entries "ignore_rules" strings? [] = some s.ignoreRules := by
  simp only [ofEntries?, bind, Option.bind_eq_some_iff] at h
  obtain ⟨_, -, rules, hrules, _, -, _, -, _, -, hs⟩ := h
  cases hs
  exact hrules

/-- What else a settings file says does not touch the rules that it ignores. -/
theorem ignoreRules_eq_of_displayKeys {entries entries' : Toml.Entries} {s s' : Settings}
    (h : ofEntries? entries = some s) (h' : ofEntries? entries' = some s')
    (hsame : ∀ key, key ∉ displayKeys → entries.get? key = entries'.get? key) :
    s.ignoreRules = s'.ignoreRules := by
  have hrules := ignoreRules_of_ofEntries? h
  have hrules' := ignoreRules_of_ofEntries? h'
  unfold get? at hrules hrules'
  rw [hsame _ (by decide), hrules'] at hrules
  exact (Option.some.inj hrules).symm

end Settings

/-! ## Dockerfiles and history -/

theorem exists_contents {w : World} {files : List Text}
    (h : ∀ path ∈ files, ∃ t, w.read path = .ok t) :
    ∃ contents : List Text, files.map w.read = contents.map .ok := by
  induction files with
  | nil => exact ⟨[], rfl⟩
  | cons path files ih =>
    obtain ⟨t, ht⟩ := h path (List.mem_cons_self ..)
    obtain ⟨contents, hcontents⟩ := ih fun p hp => h p (List.mem_cons_of_mem _ hp)
    exact ⟨t :: contents, by rw [List.map_cons, List.map_cons, ht, hcontents]⟩

theorem analyzeFile_of_ok {w : World} {path t : Text} (h : w.read path = .ok t)
    (ignore : List Text) : analyzeFile w ignore path = .ok (analyze ignore t) := by
  unfold analyzeFile readFile
  rw [h]
  rfl

theorem analyzeFile_of_error {w : World} {path : Text} {fault : ReadFault}
    (h : w.read path = .error fault) (ignore : List Text) :
    analyzeFile w ignore path = .error (.file path fault) := by
  unfold analyzeFile readFile
  rw [h]
  rfl

theorem mapM_analyzeFile {w : World} {files contents : List Text}
    (h : files.map w.read = contents.map .ok) (ignore : List Text) :
    files.mapM (analyzeFile w ignore) = .ok (contents.map (analyze ignore)) := by
  induction files generalizing contents with
  | nil =>
    rw [List.map_nil, eq_comm, List.map_eq_nil_iff] at h
    rw [h]
    rfl
  | cons path files ih =>
    cases contents with
    | nil => cases h
    | cons t contents =>
      rw [List.map_cons, List.map_cons, List.cons.injEq] at h
      rw [List.mapM_cons, analyzeFile_of_ok h.1, ih h.2]
      rfl

/-- Reading stops at the first file that cannot be read. -/
theorem mapM_analyzeFile_of_unreadable {w : World} {files : List Text} {path : Text}
    (hmem : path ∈ files) (h : ∀ t, w.read path ≠ .ok t) (ignore : List Text) :
    ∃ path fault, files.mapM (analyzeFile w ignore) = .error (.file path fault) := by
  induction files with
  | nil => cases hmem
  | cons first files ih =>
    rw [List.mapM_cons]
    cases hfirst : w.read first with
    | error fault =>
      refine ⟨first, fault, ?_⟩
      rw [analyzeFile_of_error hfirst]
      rfl
    | ok t =>
      have hrest : path ∈ files := by
        rcases List.mem_cons.1 hmem with rfl | hrest
        · exact absurd hfirst (h t)
        · exact hrest
      obtain ⟨path, fault, hfault⟩ := ih hrest
      refine ⟨path, fault, ?_⟩
      rw [analyzeFile_of_ok hfirst, hfault]
      rfl

namespace Plan

variable {p : Plan} {w : World}

theorem gather_of_readable {contents : List Text}
    (hfiles : p.files.map w.read = contents.map .ok)
    (hhistory : ∀ path, p.history = some path → ∃ t, w.read path = .ok t) :
    ∃ layers, p.gather w = .ok (contents.map (analyze p.ignore), layers) := by
  unfold gather
  rw [mapM_analyzeFile hfiles]
  cases hpath : p.history with
  | none => exact ⟨none, rfl⟩
  | some path =>
    obtain ⟨t, ht⟩ := hhistory path hpath
    refine ⟨some (History.parse t), ?_⟩
    simp only [loadHistory, readFile, ht]
    rfl

theorem gather_of_unreadable_file {path : Text} (hmem : path ∈ p.files)
    (h : ∀ t, w.read path ≠ .ok t) : ∃ path fault, p.gather w = .error (.file path fault) := by
  obtain ⟨path, fault, hfault⟩ := mapM_analyzeFile_of_unreadable hmem h p.ignore
  refine ⟨path, fault, ?_⟩
  unfold gather
  rw [hfault]
  rfl

theorem gather_of_unreadable_history {path : Text} (hpath : p.history = some path)
    (h : ∀ t, w.read path ≠ .ok t) : ∃ path fault, p.gather w = .error (.file path fault) := by
  by_cases hfiles : ∀ file ∈ p.files, ∃ t, w.read file = .ok t
  · obtain ⟨contents, hcontents⟩ := exists_contents hfiles
    cases hread : w.read path with
    | ok t => exact absurd hread (h t)
    | error fault =>
      refine ⟨path, fault, ?_⟩
      unfold gather
      rw [mapM_analyzeFile hcontents, hpath]
      simp only [loadHistory, readFile, hread]
      rfl
  · simp only [not_forall, not_exists] at hfiles
    obtain ⟨file, hmem, hnone⟩ := hfiles
    exact gather_of_unreadable_file hmem hnone

end Plan

/-! ## Runs -/

section
variable {w : World} {a : Arguments}

def Stops (o : Outcome) : Prop := o.exitCode = 1 ∧ o.output = []

theorem stops_of_settings_error {fault : SettingsFault}
    (h : w.settings a.config = .error fault) : Stops (runArguments w a) := by
  unfold runArguments
  rw [h]
  exact ⟨rfl, rfl⟩

theorem stops_of_gather_error {s : Settings} {path : Text} {fault : ReadFault}
    (hs : w.Governs s a)
    (h : (Plan.ofArguments w a s).gather w = .error (.file path fault)) :
    Stops (runArguments w a) := by
  obtain ⟨warnings, hs⟩ := hs
  unfold runArguments
  rw [hs]
  simp only [h]
  exact ⟨rfl, rfl⟩

theorem stops_of_not_loads (h : ¬ Loads w a) : Stops (runArguments w a) := by
  cases hs : w.settings a.config with
  | error fault => exact stops_of_settings_error hs
  | ok result =>
    have hgoverns : w.Governs result.1 a := ⟨result.2, hs⟩
    by_cases hfiles : ∀ path ∈ a.files, ∃ t, w.read path = .ok t
    · -- settings and files are there, so the history is not
      have hhistory : ¬ ∀ path, a.history = some path → ∃ t, w.read path = .ok t :=
        fun hhistory => h ⟨hgoverns.config, hfiles, hhistory⟩
      simp only [not_forall, not_exists] at hhistory
      obtain ⟨path, hpath, hnone⟩ := hhistory
      obtain ⟨_, _, hgather⟩ :=
        Plan.gather_of_unreadable_history (p := .ofArguments w a result.1) hpath hnone
      exact stops_of_gather_error hgoverns hgather
    · simp only [not_forall, not_exists] at hfiles
      obtain ⟨path, hmem, hnone⟩ := hfiles
      obtain ⟨_, _, hgather⟩ :=
        Plan.gather_of_unreadable_file (p := .ofArguments w a result.1) hmem hnone
      exact stops_of_gather_error hgoverns hgather

theorem exitCode_of_loads {s : Settings} {contents : List Text} (h : Loads w a)
    (hs : w.Governs s a)
    (hcontents : a.files.map w.read = contents.map .ok) :
    (runArguments w a).exitCode = statusOfContents (ignoredCodes s a) contents := by
  obtain ⟨layers, hgather⟩ :=
    Plan.gather_of_readable (p := .ofArguments w a s) hcontents h.history
  obtain ⟨warnings, hs⟩ := hs
  unfold runArguments
  rw [hs]
  simp only [hgather]
  exact statusOf_map_analyze _ contents

theorem run_of_parse {arguments : List Text} (ha : Arguments.parse arguments = .ok a) :
    run w arguments = runArguments w a := by
  unfold run
  rw [ha]

end

/-! ## Two runs -/

def Settings.ofContent? : Except ReadFault Text → Option Settings
  | .ok t => parse? t
  | .error _ => none

/-- The files that may have the settings of a run, in the order in which they are tried. -/
def World.sources (w : World) (a : Arguments) : List (Text × Except ReadFault Text) :=
  match a.config with
  | some path => [(path, w.read path)]
  | none => w.settingsFiles

/-- The position of the file that has the settings: the first one that can be used. -/
def World.sourceIndex (w : World) (a : Arguments) : Nat :=
  (w.sources a).findIdx fun f => (Settings.ofContent? f.2).isSome

namespace Settings

/-- Settings files that say the same but for the keys about showing results. -/
def AlikeContents (content content' : Except ReadFault Text) : Prop :=
  content = content' ∨ ∃ t t' entries entries', content = .ok t ∧ content' = .ok t' ∧
    Toml.parse? t = some entries ∧ Toml.parse? t' = some entries' ∧
    ∀ key, key ∉ displayKeys → entries.get? key = entries'.get? key

theorem AlikeContents.ignoreRules_eq {content content' : Except ReadFault Text} {s s' : Settings}
    (h : AlikeContents content content') (hs : ofContent? content = some s)
    (hs' : ofContent? content' = some s') : s.ignoreRules = s'.ignoreRules := by
  rcases h with rfl | ⟨t, t', entries, entries', rfl, rfl, ht, ht', hsame⟩
  · rw [Option.some.inj (hs.symm.trans hs')]
  · have hentries : parse? t = ofEntries? entries := by
      unfold parse?
      rw [ht, Option.bind_some]
    have hentries' : parse? t' = ofEntries? entries' := by
      unfold parse?
      rw [ht', Option.bind_some]
    exact ignoreRules_eq_of_displayKeys (hentries.symm.trans hs) (hentries'.symm.trans hs') hsame

theorem ofContent?_eq_some {path : Text} {content : Except ReadFault Text} {s : Settings}
    (h : ofContent path content = .ok s) : ofContent? content = some s := by
  obtain ⟨t, rfl, hparse⟩ := ofContent_eq_ok h
  exact hparse

theorem ofContent?_eq_none {path : Text} {content : Except ReadFault Text} {fault : SettingsFault}
    (h : ofContent path content = .error fault) : ofContent? content = none := by
  cases content with
  | error _ => rfl
  | ok t =>
    unfold ofContent at h
    dsimp only at h
    split at h
    · cases h
    · next hparse => exact hparse

def ofSources (sources : List (Text × Except ReadFault Text)) : Settings :=
  (sources.findSome? fun f => ofContent? f.2).getD {}

theorem ofCandidates_fst (sources : List (Text × Except ReadFault Text)) :
    (ofCandidates sources).1 = ofSources sources := by
  induction sources with
  | nil => rfl
  | cons f sources ih =>
    obtain ⟨path, content⟩ := f
    unfold ofCandidates ofSources
    rw [List.findSome?_cons]
    cases h : ofContent path content with
    | ok s => rw [ofContent?_eq_some h, Option.getD_some]
    | error fault =>
      rw [ofContent?_eq_none h]
      exact ih

/-- Among files that are alike in pairs, those at the same position ignore the same rules. -/
theorem ignoreRules_ofSources {sources sources' : List (Text × Except ReadFault Text)}
    (h : List.Forall₂ (fun f f' => f.1 = f'.1 ∧ AlikeContents f.2 f'.2) sources sources')
    (hindex : sources.findIdx (fun f => (ofContent? f.2).isSome) =
      sources'.findIdx fun f => (ofContent? f.2).isSome) :
    (ofSources sources).ignoreRules = (ofSources sources').ignoreRules := by
  induction h with
  | nil => rfl
  | @cons f f' sources sources' hf _ ih =>
    rw [List.findIdx_cons, List.findIdx_cons] at hindex
    unfold ofSources
    rw [List.findSome?_cons, List.findSome?_cons]
    cases hs : ofContent? f.2 with
    | some s =>
      cases hs' : ofContent? f'.2 with
      | some s' => exact hf.2.ignoreRules_eq hs hs'
      | none => simp [hs, hs'] at hindex
    | none =>
      cases hs' : ofContent? f'.2 with
      | some s' => simp [hs, hs'] at hindex
      | none =>
        refine ih ?_
        simpa [hs, hs'] using hindex

end Settings

theorem World.Governs.eq_ofSources {w : World} {s : Settings} {a : Arguments}
    (h : w.Governs s a) : s = Settings.ofSources (w.sources a) := by
  obtain ⟨warnings, h⟩ := h
  unfold sources
  cases hconfig : a.config with
  | none =>
    rw [hconfig] at h
    rw [← Settings.ofCandidates_fst]
    exact (congrArg Prod.fst (Except.ok.inj h)).symm
  | some path =>
    rw [hconfig] at h
    unfold settings at h
    dsimp only at h
    cases hs : Settings.ofContent path (w.read path) with
    | error fault =>
      rw [hs] at h
      cases h
    | ok s' =>
      rw [hs] at h
      cases h
      unfold Settings.ofSources
      rw [List.findSome?_cons, Settings.ofContent?_eq_some hs, Option.getD_some]

/-- Two runs that differ in nothing but how the results are shown: they are about the same
Dockerfiles, are told to leave out the same codes, and find settings files that are alike. The form
of the output, the least severity, colours, estimates, the threshold for layers and the history do
not count. -/
structure ShownOtherwise (w w' : World) (a a' : Arguments) : Prop where
  files : a.files = a'.files
  contents : ∀ path ∈ a.files, w.read path = w'.read path
  ignore : a.ignore = a'.ignore
  config : a.config = a'.config
  settings : List.Forall₂ (fun f f' => f.1 = f'.1 ∧ Settings.AlikeContents f.2 f'.2)
    (w.sources a) (w'.sources a')

theorem ShownOtherwise.exitCode_eq {w w' : World} {a a' : Arguments}
    (h : ShownOtherwise w w' a a') (hloads : Loads w a) (hloads' : Loads w' a')
    (hindex : w.sourceIndex a = w'.sourceIndex a') :
    (runArguments w a).exitCode = (runArguments w' a').exitCode := by
  obtain ⟨s, hs⟩ := World.exists_governs hloads
  obtain ⟨s', hs'⟩ := World.exists_governs hloads'
  have hrules : s.ignoreRules = s'.ignoreRules := by
    rw [hs.eq_ofSources, hs'.eq_ofSources]
    exact Settings.ignoreRules_ofSources h.settings hindex
  obtain ⟨contents, hcontents⟩ := exists_contents hloads.files
  have hcontents' : a'.files.map w'.read = contents.map .ok := by
    rw [← h.files, ← hcontents]
    exact List.map_congr_left fun path hpath => (h.contents path hpath).symm
  rw [exitCode_of_loads hloads hs hcontents, exitCode_of_loads hloads' hs' hcontents']
  unfold ignoredCodes
  rw [hrules, h.ignore]

/-- The status of a run with arguments that are understood. When something cannot be loaded, it is
1 and nothing is written. Otherwise the contents of the Dockerfiles and the codes that are left out
determine it. So runs that differ in nothing but how the results are shown end with the same status,
as long as both have their settings from the same file. -/
theorem exitCode_run {w : World} {arguments : List Text} {a : Arguments}
    (ha : Arguments.parse arguments = .ok a) :
    (¬ Loads w a → (run w arguments).exitCode = 1 ∧ (run w arguments).output = []) ∧
    (Loads w a → ∃ (s : Settings) (contents : List Text),
      w.Governs s a ∧ a.files.map w.read = contents.map .ok ∧
      (run w arguments).exitCode = statusOfContents (ignoredCodes s a) contents) ∧
    ∀ w' arguments' a', Arguments.parse arguments' = .ok a' → Loads w a → Loads w' a' →
      ShownOtherwise w w' a a' → w.sourceIndex a = w'.sourceIndex a' →
      (run w arguments).exitCode = (run w' arguments').exitCode := by
  refine ⟨fun h => ?_, fun h => ?_, fun w' arguments' a' ha' h h' hshown hindex => ?_⟩
  · rw [run_of_parse ha]
    exact stops_of_not_loads h
  · obtain ⟨s, hs⟩ := World.exists_governs h
    obtain ⟨contents, hcontents⟩ := exists_contents h.files
    exact ⟨s, contents, hs, hcontents, by rw [run_of_parse ha, exitCode_of_loads h hs hcontents]⟩
  · rw [run_of_parse ha, run_of_parse ha']
    exact hshown.exitCode_eq h h' hindex

theorem Toml.Entries.get?_cons_of_ne {key name : Text} (h : name ≠ key) (value : Toml.Value)
    (entries : Toml.Entries) : get? key ((name, value) :: entries) = get? key entries := if_neg h

/-- Without named settings and Dockerfiles only the default Dockerfile and the history count. -/
theorem loads_ofGiven {w : World} {g : Arguments.Given} {t : Text} (hfiles : g.files = [])
    (hconfig : g.config = none) (hread : w.read Arguments.defaultFile = .ok t)
    (hhistory : ∀ path, g.history = some path → ∃ t, w.read path = .ok t) :
    Loads w (.ofGiven g) where
  config path hpath := by
    rw [show (Arguments.ofGiven g).config = none from hconfig] at hpath
    cases hpath
  files path hpath := by
    unfold Arguments.ofGiven at hpath
    rw [if_pos hfiles] at hpath
    rw [List.mem_singleton.1 hpath]
    exact ⟨t, hread⟩
  history := hhistory

/-- A Dockerfile with an update that has no install, under settings that leave out one rule: one run
plainly, and one with other settings for what is shown, a history, an estimate and a least severity.
A run whose history is missing stops. -/
theorem exitCode_run_shown_otherwise :
    let work (settings : String) : FileTree := .directory
      [("Dockerfile", .file "RUN apk update\n".toUTF8), ("layers", .file "a|2MB|sh\n".toUTF8),
        (Settings.fileName, .file settings.toUTF8)]
    let w := World.ofTrees (work "ignore_rules = [\"DFO004\"]\n") (.directory []) true
    let w' := World.ofTrees
      (work "format = \"json\"\nignore_rules = [\"DFO004\"]\ncolor = false\n") (.directory []) false
    (run w []).exitCode =
      (run w' ["--min-severity=high", "--history=layers", "--estimate-size"]).exitCode ∧
    (run w' ["--history=missing"]).exitCode = 1 ∧ (run w' ["--history=missing"]).output = [] := by
  intro work w w'
  let shown : Arguments.Given :=
    { minSeverity := some .high, history := some "layers", estimateSize := true }
  have hloads : Loads w (.ofGiven {}) := loads_ofGiven rfl rfl rfl fun _ h => nomatch h
  have hloads' : Loads w' (.ofGiven shown) := loads_ofGiven rfl rfl rfl fun path h => by
    rw [← Option.some.inj h]
    exact ⟨"a|2MB|sh\n", rfl⟩
  have halike : Settings.AlikeContents (.ok "ignore_rules = [\"DFO004\"]\n".toList)
      (.ok "format = \"json\"\nignore_rules = [\"DFO004\"]\ncolor = false\n".toList) := by
    refine .inr ⟨_, _, [("ignore_rules", .array [.string "DFO004"])],
      [("format", .string "json"), ("ignore_rules", .array [.string "DFO004"]),
        ("color", .boolean false)], rfl, rfl, rfl, rfl, fun key hkey => ?_⟩
    have hformat : "format".toList ≠ key := fun h => hkey (h ▸ by decide)
    have hcolor : "color".toList ≠ key := fun h => hkey (h ▸ by decide)
    rw [Toml.Entries.get?_cons_of_ne hformat]
    unfold Toml.Entries.get?
    rw [Toml.Entries.get?_cons_of_ne hcolor]
  have hshown : ShownOtherwise w w' (.ofGiven {}) (.ofGiven shown) := by
    refine ⟨rfl, fun path hpath => ?_, rfl, rfl, .cons ⟨rfl, halike⟩ .nil⟩
    rw [List.mem_singleton.1 hpath]
    rfl
  have hmissing : ¬ Loads w' (.ofGiven { history := some "missing" }) := by
    intro h
    obtain ⟨t, ht⟩ := h.history _ rfl
    cases ht
  have hindex : w.sourceIndex (.ofGiven {}) = w'.sourceIndex (.ofGiven shown) := by decide +kernel
  exact ⟨(exitCode_run rfl).2.2 _ _ _ rfl hloads hloads' hshown hindex,
    (exitCode_run rfl).1 hmissing⟩

/-- A settings file that is only looked for is passed over as a whole when one of its values cannot
be used. Here that is the form of the output, and with it goes the list of the rules to ignore. -/
theorem exitCode_ne_of_unknown_format :
    let work (settings : String) : FileTree := .directory
      [("Dockerfile", .file "RUN apk update\n".toUTF8), (Settings.fileName, .file settings.toUTF8)]
    let w := World.ofTrees (work "ignore_rules = [\"DFO002\"]\nformat = \"json\"\n")
      (.directory []) false
    let w' := World.ofTrees (work "ignore_rules = [\"DFO002\"]\nformat = \"xml\"\n")
      (.directory []) false
    ∃ a, Arguments.parse [] = .ok a ∧ Loads w a ∧ Loads w' a ∧ ShownOtherwise w w' a a ∧
      (run w []).exitCode = 0 ∧ (run w' []).exitCode = 2 := by
  intro work w w'
  have halike : Settings.AlikeContents
      (.ok "ignore_rules = [\"DFO002\"]\nformat = \"json\"\n".toList)
      (.ok "ignore_rules = [\"DFO002\"]\nformat = \"xml\"\n".toList) := by
    refine .inr ⟨_, _, [("ignore_rules", .array [.string "DFO002"]), ("format", .string "json")],
      [("ignore_rules", .array [.string "DFO002"]), ("format", .string "xml")],
      rfl, rfl, rfl, rfl, fun key hkey => ?_⟩
    have hformat : "format".toList ≠ key := fun h => hkey (h ▸ by decide)
    unfold Toml.Entries.get?
    rw [Toml.Entries.get?_cons_of_ne hformat, Toml.Entries.get?_cons_of_ne hformat]
  have hloads : Loads w (.ofGiven {}) := loads_ofGiven rfl rfl rfl fun _ h => nomatch h
  have hloads' : Loads w' (.ofGiven {}) := loads_ofGiven rfl rfl rfl fun _ h => nomatch h
  refine ⟨.ofGiven {}, rfl, hloads, hloads', ?_, by decide +kernel, by decide +kernel⟩
  refine ⟨rfl, fun path hpath => ?_, rfl, rfl, .cons ⟨rfl, halike⟩ .nil⟩
  rw [List.mem_singleton.1 hpath]
  rfl

/-! ## What a status says -/

def Refused (arguments : List Text) : Prop := ∃ e, Arguments.parse arguments = .error (.usage e)

/-- The arguments are understood, but something that the run has to load cannot be loaded. -/
def LacksInput (w : World) (arguments : List Text) : Prop :=
  ∃ a, Arguments.parse arguments = .ok a ∧ ¬ Loads w a

/-- Everything is loaded, and a suggestion about one of the Dockerfiles has high severity. -/
def FindsHigh (w : World) (arguments : List Text) : Prop :=
  ∃ a s, Arguments.parse arguments = .ok a ∧ Loads w a ∧ w.Governs s a ∧
    ∃ path ∈ a.files, ∃ t, w.read path = .ok t ∧
      ∃ x ∈ (analyze (ignoredCodes s a) t).suggestions, x.severity = .high

/-- Status 2 says that something of high severity was found, and errors of all kinds end with
status 1. -/
structure StatusesApart (w : World) (arguments : List Text) : Prop where
  two_iff : (run w arguments).exitCode = 2 ↔ FindsHigh w arguments
  one_of_error : Refused arguments ∨ LacksInput w arguments → (run w arguments).exitCode = 1

theorem statusOfContents_eq_two_iff {ignore contents : List Text} :
    statusOfContents ignore contents = 2 ↔
      ∃ t ∈ contents, ∃ x ∈ (analyze ignore t).suggestions, x.severity = .high := by
  unfold statusOfContents
  split
  · next h =>
    simp only [List.any_eq_true, decide_eq_true_eq] at h
    exact iff_of_true rfl h
  · next h =>
    simp only [List.any_eq_true, decide_eq_true_eq] at h
    exact iff_of_false (by decide) h

theorem statusOfContents_ne_one (ignore contents : List Text) :
    statusOfContents ignore contents ≠ 1 := by
  unfold statusOfContents
  split
  · decide
  · decide

section
variable {w : World} {arguments : List Text} {a : Arguments}

theorem World.Governs.unique {s s' : Settings} (h : w.Governs s a) (h' : w.Governs s' a) :
    s = s' := by
  obtain ⟨_, h⟩ := h
  obtain ⟨_, h'⟩ := h'
  rw [h] at h'
  cases h'
  rfl

theorem findsHigh_iff {s : Settings} {contents : List Text}
    (ha : Arguments.parse arguments = .ok a) (h : Loads w a) (hs : w.Governs s a)
    (hcontents : a.files.map w.read = contents.map .ok) :
    FindsHigh w arguments ↔ statusOfContents (ignoredCodes s a) contents = 2 := by
  have hread : ∀ t, t ∈ contents ↔ ∃ path ∈ a.files, w.read path = .ok t := by
    intro t
    rw [← List.mem_map, hcontents]
    simp
  rw [statusOfContents_eq_two_iff]
  constructor
  · rintro ⟨a', s', ha', -, hs', path, hpath, t, ht, hhigh⟩
    cases ha.symm.trans ha'
    rw [hs.unique hs']
    exact ⟨t, (hread t).2 ⟨path, hpath, ht⟩, hhigh⟩
  · rintro ⟨t, hmem, hhigh⟩
    obtain ⟨path, hpath, ht⟩ := (hread t).1 hmem
    exact ⟨a, s, ha, h, hs, path, hpath, t, ht, hhigh⟩

theorem exitCode_of_refused (h : Refused arguments) : (run w arguments).exitCode = 2 := by
  obtain ⟨e, he⟩ := h
  unfold run
  rw [he]
  rfl

/-- A run with arguments that are understood. -/
theorem exitCode_of_parse (ha : Arguments.parse arguments = .ok a) :
    ((run w arguments).exitCode = 2 ↔ FindsHigh w arguments) ∧
      ((run w arguments).exitCode = 1 ↔ LacksInput w arguments) := by
  have hlacks : LacksInput w arguments ↔ ¬ Loads w a := by
    constructor
    · rintro ⟨a', ha', h⟩
      cases ha.symm.trans ha'
      exact h
    · exact fun h => ⟨a, ha, h⟩
  rw [hlacks, run_of_parse ha]
  by_cases h : Loads w a
  · obtain ⟨s, hs⟩ := World.exists_governs h
    obtain ⟨contents, hcontents⟩ := exists_contents h.files
    rw [findsHigh_iff ha h hs hcontents, exitCode_of_loads h hs hcontents]
    exact ⟨Iff.rfl, iff_of_false (statusOfContents_ne_one _ _) fun hnot => hnot h⟩
  · rw [(stops_of_not_loads h).1]
    refine ⟨iff_of_false (by decide) ?_, iff_of_true rfl h⟩
    rintro ⟨a', s, ha', h', -⟩
    cases ha.symm.trans ha'
    exact h h'

/-- Help and version end with status 0, like a run that finds nothing of high severity. -/
theorem exitCode_of_not_refused (h : ¬ Refused arguments) :
    ((run w arguments).exitCode = 2 ↔ FindsHigh w arguments) ∧
      ((run w arguments).exitCode = 1 ↔ LacksInput w arguments) := by
  cases hparse : Arguments.parse arguments with
  | ok a => exact exitCode_of_parse hparse
  | error early =>
    have hnone : ∀ a, Arguments.parse arguments ≠ .ok a := by simp [hparse]
    have hzero : (run w arguments).exitCode = 0 := by
      unfold run
      rw [hparse]
      cases early with
      | help => rfl
      | version => rfl
      | usage e => exact absurd ⟨e, hparse⟩ h
    rw [hzero]
    constructor
    · exact iff_of_false (by decide) fun ⟨a, _, ha, _⟩ => hnone a ha
    · exact iff_of_false (by decide) fun ⟨a, ha, _⟩ => hnone a ha

theorem Refused.parse_ne_ok (h : Refused arguments) : Arguments.parse arguments ≠ .ok a := by
  obtain ⟨e, he⟩ := h
  simp [he]

end

/-- What each status says. Status 2 stands for two things, refused arguments and suggestions of high
severity, and so the statuses are kept apart exactly when the arguments are not refused. -/
theorem statusesApart_iff (w : World) (arguments : List Text) :
    ((run w arguments).exitCode = 2 ↔ Refused arguments ∨ FindsHigh w arguments) ∧
      ((run w arguments).exitCode = 1 ↔ LacksInput w arguments) ∧
      (StatusesApart w arguments ↔ ¬ Refused arguments) := by
  by_cases h : Refused arguments
  · have htwo := exitCode_of_refused (w := w) h
    have hfinds : ¬ FindsHigh w arguments := fun ⟨_, _, ha, _⟩ => h.parse_ne_ok ha
    have hlacks : ¬ LacksInput w arguments := fun ⟨_, ha, _⟩ => h.parse_ne_ok ha
    refine ⟨iff_of_true htwo (.inl h), iff_of_false ?_ hlacks, iff_of_false ?_ (not_not.2 h)⟩
    · rw [htwo]
      decide
    · exact fun hapart => hfinds (hapart.two_iff.1 htwo)
  · obtain ⟨htwo, hone⟩ := exitCode_of_not_refused (w := w) h
    refine ⟨?_, hone, iff_of_true ?_ h⟩
    · rw [htwo, or_iff_right h]
    · exact ⟨htwo, fun herror => hone.2 (herror.resolve_left h)⟩

/-- An option that does not exist is an error, but the run ends with status 2. -/
theorem not_statusesApart_of_unknownOption :
    ¬ StatusesApart (.ofTrees (.directory []) (.directory []) false) ["--bogus".toList] := by
  intro h
  have hone := h.one_of_error (.inl ⟨.unknownArgument, rfl⟩)
  exact absurd hone (by decide)

end LayerLint
