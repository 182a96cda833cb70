import PascalUnit.Proofs.CommandLine.Arguments
import PascalUnit.Proofs.CommandLine.Configuration
import PascalUnit.Proofs.Report.Stages

/-!
# Invocations stage by stage

An invocation settles its format and label width, reads the format as a view, and
reports on its file.  It prints the report when every stage succeeds.  Otherwise it
prints nothing but the fault of the first stage that fails.
-/

namespace PascalUnit
namespace Invocation

variable {files : Files} {i : Invocation}

/-!
## Stages
-/

/-- An invocation all of whose stages succeed, and its report. -/
inductive Reports (files : Files) (i : Invocation) : String → Prop where
  | intro {s : Settings} {v : View} {report : String} :
      i.settings files = .ok s → v ∈ View.all → v.name = s.format →
        Report.ofFile files v ⟨i.query, s.labelWidth⟩ i.path = .ok report →
          Reports files i report

/-- The first stage of an invocation that fails, and what is said about it. -/
inductive Stops (files : Files) (i : Invocation) : String → Prop where
  | unsettled {e : Settings.Error} :
      i.settings files = .error e →
        Stops files i ("Configuration error: " ++ e.message ++ "\n")
  | viewless {s : Settings} {e : ViewError} :
      i.settings files = .ok s → (∀ v ∈ View.all, v.name ≠ s.format) →
        View.parse s.format = .error e →
          Stops files i
            ("Error: " ++ e.message ++
              "\nRun 'pitonisa list-formats' to see the supported formats\n")
  | reportless {s : Settings} {v : View} {e : ReportError} :
      i.settings files = .ok s → v ∈ View.all → v.name = s.format →
        Report.Refused files v i.query i.path e →
          Stops files i (i.path ++ ": " ++ e.message ++ "\n")

theorem run_of_reports (h : ∀ w, i.labelWidth = some w → w < Text.countLimit) {report : String}
    (hreports : Reports files i report) : i.run files = .success (endLine report) := by
  cases hreports with
  | intro hsettings _ hname hreport =>
      rw [run, build_layers h, hsettings]
      simp only [View.parse_eq_ok_iff.mpr hname, hreport]

theorem run_of_stops (h : ∀ w, i.labelWidth = some w → w < Text.countLimit) {text : String}
    (hstops : Stops files i text) : i.run files = .failure text := by
  rw [run, build_layers h]
  cases hstops with
  | unsettled hsettings => rw [hsettings]
  | viewless hsettings _ hview =>
      rw [hsettings]
      simp only [hview]
  | @reportless s v e hsettings _ hname hrefused =>
      have hreport : Report.ofFile files v ⟨i.query, s.labelWidth⟩ i.path = .error e :=
        Report.ofFile_of_refused hrefused
      rw [hsettings]
      simp only [View.parse_eq_ok_iff.mpr hname, hreport]

theorem reports_or_stops (files : Files) (i : Invocation) :
    (∃ report, Reports files i report) ∨ ∃ text, Stops files i text := by
  cases hsettings : i.settings files with
  | error e => exact Or.inr ⟨_, .unsettled hsettings⟩
  | ok s =>
      cases hview : View.parse s.format with
      | error e =>
          have hnone : ∀ v ∈ View.all, v.name ≠ s.format := by
            intro v _ hname
            rw [View.parse_eq_ok_iff.mpr hname] at hview
            cases hview
          exact Or.inr ⟨_, .viewless hsettings hnone hview⟩
      | ok v =>
          have hname := View.parse_eq_ok_iff.mp hview
          cases hreport : Report.ofFile files v ⟨i.query, s.labelWidth⟩ i.path with
          | error e =>
              exact Or.inr ⟨_, .reportless hsettings v.mem_all hname
                (Report.ofFile_eq_error_iff.mp hreport)⟩
          | ok report => exact Or.inl ⟨report, .intro hsettings v.mem_all hname hreport⟩

end Invocation

/-!
## What is printed
-/

theorem endLine_eq (text : String) :
    endLine text = if ['\n'] <:+ text.toList then text else text ++ "\n" := by
  have hlast : text.toList.getLast? = some '\n' ↔ ['\n'] <:+ text.toList := by
    rw [List.getLast?_eq_some_iff, List.IsSuffix]
    simp only [eq_comm]
  rw [endLine]
  simp only [hlast]

/-- A text is printed on a line of its own, after two blanks. -/
def Listed (text : String) (o : Outcome) : Prop :=
  ("  " ++ text).toList ∈ o.output.toList.splitOn '\n'

theorem splitOn_formatList :
    Command.formatList.toList.splitOn '\n' =
      "Available formats:".toList :: [] ::
        (View.all.map fun v => ("  " ++ v.name).toList) ++ [[]] := by
  decide +kernel

theorem listed_listFormats_iff (files : Files) (text : String) :
    Listed text (runArguments files ["list-formats"]) ↔ ∃ v ∈ View.all, v.name = text := by
  have houtput : (runArguments files ["list-formats"]).output = Command.formatList := rfl
  rw [Listed, houtput, splitOn_formatList]
  constructor
  · intro h
    simp only [List.cons_append, List.mem_cons, List.mem_append, List.mem_map, List.not_mem_nil,
      or_false, String.toList_append] at h
    rcases h with hheading | hempty | ⟨v, hv, hname⟩ | hempty
    · cases hheading
    · cases hempty
    · rw [List.append_cancel_left_eq] at hname
      exact ⟨v, hv, String.toList_injective hname⟩
    · cases hempty
  · rintro ⟨v, hv, rfl⟩
    simp only [List.cons_append, List.mem_cons, List.mem_append]
    exact Or.inr (Or.inr (Or.inl (List.mem_map.mpr ⟨v, hv, rfl⟩)))

/-!
## Runs
-/

namespace Invocation

structure Executes (files : Files) (i : Invocation) (o : Outcome) : Prop where
  /-- The settings are built from the defaults, the files and the command line. -/
  built : Settings.build files i.layers = i.settings files
  /-- The run succeeds exactly when every stage does. -/
  success : o.code = 0 ↔ ∃ report, Reports files i report
  reported : ∀ report, Reports files i report →
    o.output = (if ['\n'] <:+ report.toList then report else report ++ "\n") ∧
      o.diagnostics = ""
  failure : o.code ≠ 0 → o.code = 1 ∧ o.output = ""
  /-- A run that fails tells the first stage that does. -/
  stopped : ∀ text, (o.code = 1 ∧ o.diagnostics = text) ↔ Stops files i text
  /-- A format on the command line is the one that is used. -/
  format : ∀ text, i.format = some text → ∀ s, i.settings files = .ok s → s.format = text
  /-- So is a label width, unless as a signed number it is negative. -/
  labelWidth : ∀ w, i.labelWidth = some w → ∀ s, i.settings files = .ok s →
    w < 2 ^ 63 ∧ s.labelWidth = w
  /-- When both are given, nothing in the files can spoil them. -/
  settled : ∀ text w root, i.format = some text → i.labelWidth = some w → w < 2 ^ 63 →
    Settings.layFiles files i.fileLayers Settings.defaults = .ok root →
      i.settings files = .ok ⟨text, w⟩
  rejected : ∀ w, i.labelWidth = some w → 2 ^ 63 ≤ w →
    ∃ e, i.settings files = .error e ∧
      o = ⟨1, "", "Configuration error: " ++ e.message ++ "\n"⟩

theorem executes_run (files : Files) (h : ∀ w, i.labelWidth = some w → w < Text.countLimit) :
    Executes files i (i.run files) where
  built := build_layers h
  success := by
    constructor
    · intro hcode
      rcases reports_or_stops files i with hreports | ⟨text, hstops⟩
      · exact hreports
      · rw [run_of_stops h hstops] at hcode
        cases hcode
    · rintro ⟨report, hreports⟩
      rw [run_of_reports h hreports]
      rfl
  reported report hreports := by
    rw [run_of_reports h hreports, ← endLine_eq]
    exact ⟨rfl, rfl⟩
  failure hcode := by
    rcases reports_or_stops files i with ⟨report, hreports⟩ | ⟨text, hstops⟩
    · rw [run_of_reports h hreports] at hcode
      exact (hcode rfl).elim
    · rw [run_of_stops h hstops]
      exact ⟨rfl, rfl⟩
  stopped text := by
    constructor
    · rintro ⟨hcode, rfl⟩
      rcases reports_or_stops files i with ⟨report, hreports⟩ | ⟨text, hstops⟩
      · rw [run_of_reports h hreports] at hcode
        cases hcode
      · rw [run_of_stops h hstops]
        exact hstops
    · intro hstops
      rw [run_of_stops h hstops]
      exact ⟨rfl, rfl⟩
  format text hformat s hsettings := format_of_settings hformat hsettings
  labelWidth w hwidth s hsettings := labelWidth_of_settings hwidth hsettings
  settled text w root := settings_of_explicit
  rejected w hwidth hlarge := by
    cases hsettings : i.settings files with
    | ok s =>
        have hsmall := (labelWidth_of_settings hwidth hsettings).1
        omega
    | error e => exact ⟨e, rfl, run_of_stops h (.unsettled hsettings)⟩

/--
Every label width of 64 bits can be asked for, views are read from the names that are
listed and from no others, and an invocation is carried out stage by stage.
-/
theorem executes_by_stages (files : Files) (i : Invocation) :
    ((∃ arguments, Command.ofArguments? arguments = some (.execute i)) ↔
        ∀ w, i.labelWidth = some w → w < 2 ^ 64) ∧
      (∀ text v, View.parse text = .ok v ↔ v ∈ View.all ∧ v.name = text) ∧
      (∀ text, Listed text (runArguments files ["list-formats"]) ↔
        ∃ v, View.parse text = .ok v) ∧
      ∀ arguments, Command.ofArguments? arguments = some (.execute i) →
        Executes files i (runArguments files arguments) := by
  refine ⟨exists_arguments_iff, ?_, ?_, ?_⟩
  · intro text v
    rw [View.parse_eq_ok_iff]
    exact ⟨fun hname => ⟨v.mem_all, hname⟩, fun h => h.2⟩
  · intro text
    simp only [listed_listFormats_iff, View.parse_eq_ok_iff, View.mem_all, true_and]
  · intro arguments harguments
    have hrun : runArguments files arguments = i.run files := by
      rw [runArguments, harguments]
      rfl
    rw [hrun]
    exact executes_run files (exists_arguments_iff.mp ⟨arguments, harguments⟩)

/-- A source of one name, beside settings of which no format can be made. -/
def unusableFiles : Files
  | "pitonisa.toml" => .file "inspect=1\n".toUTF8
  | "a.pas" => .file "a".toUTF8
  | _ => .absent

def selfContained (w : Nat) : Invocation :=
  ⟨"a.pas", some "token-simple", none, none, some w⟩

theorem settings_selfContained :
    (selfContained 9).settings unusableFiles = .ok ⟨"token-simple", 9⟩ := by
  have hfile : Settings.locate? unusableFiles "pitonisa.toml" =
      some ("pitonisa.toml", "inspect=1\n") := by
    decide +kernel
  have htable : Toml.parse? "inspect=1\n" = some [("inspect", .integer 1)] := by
    decide +kernel
  have hroot : ∃ root, Settings.layFiles unusableFiles (selfContained 9).fileLayers
      Settings.defaults = .ok root := by
    simp [selfContained, fileLayers, Command.localSettings, Settings.layFiles, hfile, htable]
  rcases hroot with ⟨root, hroot⟩
  exact settings_of_explicit rfl rfl (by decide) hroot

theorem reports_selfContained :
    Reports unusableFiles (selfContained 9) "<ident:a><end-of-input>\n" := by
  apply Reports.intro settings_selfContained (View.mem_all .tokenDump) rfl
  decide +kernel

theorem executes_by_stages_selfContained :
    (runArguments unusableFiles
        ["execute", "a.pas", "-ftoken-simple", "--max-label-chars", "9"]).code = 0 ∧
      (runArguments unusableFiles
        ["execute", "a.pas", "-ftoken-simple", "--max-label-chars", "9"]).output =
          "<ident:a><end-of-input>\n" ∧
      (runArguments unusableFiles
        ["execute", "-f", "token-simple", "a.pas",
          "--max-label-chars=9223372036854775808"]).code = 1 := by
  have hsmall := (executes_by_stages unusableFiles (selfContained 9)).2.2.2
    ["execute", "a.pas", "-ftoken-simple", "--max-label-chars", "9"] (by decide +kernel)
  have hlarge := (executes_by_stages unusableFiles (selfContained (2 ^ 63))).2.2.2
    ["execute", "-f", "token-simple", "a.pas", "--max-label-chars=9223372036854775808"]
    (by decide +kernel)
  refine ⟨hsmall.success.mpr ⟨_, reports_selfContained⟩, ?_, ?_⟩
  · rw [(hsmall.reported _ reports_selfContained).1]
    decide
  · rcases hlarge.rejected (2 ^ 63) rfl le_rfl with ⟨e, _, ho⟩
    rw [ho]

end Invocation
end PascalUnit
