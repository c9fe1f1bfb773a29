import JsonSurvey.Proofs.Analysis
import JsonSurvey.Screen
import JsonSurvey.Screen.Layout

/-! Runs of the screen. What an upload shows is its own analysis, and no other event touches it
(`views_after_upload`, `views_after`). So however uploads, edits and exports follow one another, the
screen shows the analysis of the last upload and of no earlier one, and before the first upload it
shows nothing (`run_consistent`). -/

namespace JsonSurvey

/-! ### Analyses -/

namespace Analysis

/-- What an analysis gives for the variants, the coordinates, their table and the button. -/
def views (a : Analysis) : Value × Value × Value × Bool :=
  (a.variantsValue, a.coordinatesValue, a.rowsValue, a.exportable)

/-- There is something to export exactly if the variants are a list that is not empty. -/
theorem exportable_iff {a : Analysis} :
    a.exportable = true ↔ ∃ v vs, a.variantsValue = .list (v :: vs) := by
  unfold exportable variantsValue
  cases a.variants with
  | nil => simp [Value.list]
  | cons v vs => simp [Value.list]

end Analysis

namespace Screen

/-! ### The components of an event -/

/-- What a component shows. -/
inductive Shown
  | value (v : Value)
  | text (t : Option Text)
  | enabled (b : Bool)

/-- What the component with a label shows. -/
def shown (screen : Screen) (label : Text) : Option Shown :=
  if label = Layout.variantsLabel then some (.value screen.variants)
  else if label = Layout.coordinatesLabel then some (.value screen.coordinates)
  else if label = Layout.tableLabel then some (.value screen.table)
  else if label = Layout.statusLabel then some (.text screen.status)
  else if label = Layout.fileNameLabel then some (.text screen.fileName)
  else if label = Layout.downloadLabel then some (.text screen.download)
  else if label = Layout.exportText then some (.enabled screen.exportEnabled)
  else none

/-- The results of an analysis, in the order in which its handler gives them. -/
def analysisResults (a : Analysis) : List Shown :=
  [.value a.variantsValue, .value a.coordinatesValue, .value a.rowsValue, .text (some a.status),
    .enabled a.exportable]

/-- The results of an export, in the order in which its handler gives them. -/
def outcomeResults (outcome : Export.Outcome) : List Shown :=
  [.text outcome.path, .text (some outcome.status)]

/-- The components that the wiring of a handler names show its results, in order, and all others
show what they did before. -/
def SetsOutputs (handler : Handler) (results : List Shown) (before after : Screen) : Prop :=
  ∀ wiring ∈ Layout.wirings, wiring.handler = handler →
    wiring.outputs.map after.shown = results.map some ∧
      ∀ label ∉ wiring.outputs, after.shown label = before.shown label

theorem setsOutputs_showAnalysis (screen : Screen) (a : Analysis) :
    SetsOutputs .analyse (analysisResults a) screen (screen.showAnalysis a) := by
  intro wiring hwiring hhandler
  simp only [Layout.wirings, List.mem_cons, List.not_mem_nil, or_false] at hwiring
  rcases hwiring with rfl | rfl
  · refine ⟨rfl, fun label hlabel => ?_⟩
    simp only [List.mem_cons, List.not_mem_nil, or_false, not_or] at hlabel
    obtain ⟨hvariants, hcoordinates, htable, hstatus, hexport⟩ := hlabel
    simp only [shown, if_neg hvariants, if_neg hcoordinates, if_neg htable, if_neg hstatus,
      if_neg hexport]
    rfl
  · contradiction

theorem setsOutputs_showOutcome (screen : Screen) (outcome : Export.Outcome) :
    SetsOutputs .exportResults (outcomeResults outcome) screen (screen.showOutcome outcome) := by
  intro wiring hwiring hhandler
  simp only [Layout.wirings, List.mem_cons, List.not_mem_nil, or_false] at hwiring
  rcases hwiring with rfl | rfl
  · contradiction
  · refine ⟨rfl, fun label hlabel => ?_⟩
    simp only [List.mem_cons, List.not_mem_nil, or_false, not_or] at hlabel
    obtain ⟨hdownload, hstatus⟩ := hlabel
    simp only [shown, if_neg hdownload, if_neg hstatus]
    rfl

/-! ### Events -/

/-- Something that happens to the screen, with the file tree as it is then and, for an export, the
directory for temporary files and the environment. -/
inductive Event
  | upload (tree : FileTree) (source : Source)
  | typeName (name : Option Text)
  | clickExport (tree : FileTree) (temporary : Text) (environment : Environment)

/-- What is uploaded has one of the types that can be read from. -/
def Event.IsSupported : Event → Prop
  | .upload _ source => source.isSupported = true
  | _ => True

def Event.IsUpload : Event → Prop
  | .upload .. => True
  | _ => False

/-- The screen after an event. The fault of a handler leaves it as it was. -/
def after (screen : Screen) : Event → Screen
  | .upload tree source => (screen.upload tree source).result.toOption.getD screen
  | .typeName name => screen.typeName name
  | .clickExport tree temporary environment =>
    (screen.clickExport tree temporary environment).2.result.toOption.getD screen

/-- The screen after events, from the start on. -/
def run (events : List Event) : Screen := events.foldl after initial

/-- What is shown of an analysis: the variants, the coordinates, their table and the button. -/
def views (screen : Screen) : Value × Value × Value × Bool :=
  (screen.variants, screen.coordinates, screen.table, screen.exportEnabled)

theorem views_eq {screen : Screen} {v c t : Value} {b : Bool} :
    screen.views = (v, c, t, b) ↔ screen.variants = v ∧ screen.coordinates = c ∧
      screen.table = t ∧ screen.exportEnabled = b := by
  simp only [views, Prod.mk.injEq]

section
variable {screen : Screen} {tree : FileTree} {source : Source} {events later : List Event}

theorem run_append : run (events ++ later) = later.foldl after (run events) := List.foldl_append

theorem run_concat (events : List Event) (event : Event) :
    run (events ++ [event]) = (run events).after event := run_append

/-! ### One event -/

theorem after_upload {a : Analysis} (h : (Analysis.ofSource tree source).result = .ok a) :
    screen.after (.upload tree source) = screen.showAnalysis a := by
  rw [after, upload, Report.result_bind, h]
  rfl

/-- An upload of a source without an analysis changes nothing. -/
theorem after_upload_of_error {fault : Fault}
    (h : (Analysis.ofSource tree source).result = .error fault) :
    screen.after (.upload tree source) = screen := by
  rw [after, upload, Report.result_bind, h]
  rfl

/-- An export changes nothing but what is downloaded and the status. -/
theorem after_clickExport (screen : Screen) (tree : FileTree) (temporary : Text)
    (environment : Environment) : ∃ download status,
      screen.after (.clickExport tree temporary environment) =
        { screen with download := download, status := status } := by
  rw [after, clickExport, Report.result_bind]
  cases (Export.runWithSettings tree temporary environment screen.variants screen.coordinates
    screen.fileName).2.result with
  | ok outcome => exact ⟨outcome.path, some outcome.status, rfl⟩
  | error fault => exact ⟨screen.download, screen.status, rfl⟩

/-- An upload touches neither the file name nor what is downloaded. -/
theorem after_upload_frame (screen : Screen) (tree : FileTree) (source : Source) :
    (screen.after (.upload tree source)).fileName = screen.fileName ∧
      (screen.after (.upload tree source)).download = screen.download := by
  cases h : (Analysis.ofSource tree source).result with
  | ok a =>
    rw [after_upload h]
    exact ⟨rfl, rfl⟩
  | error fault =>
    rw [after_upload_of_error h]
    exact ⟨rfl, rfl⟩

/-- The views after an upload are those of its analysis. -/
theorem views_after_upload (screen : Screen) (tree : FileTree) (h : source.isSupported = true) :
    ∃ a, (Analysis.ofSource tree source).result = .ok a ∧
      (screen.after (.upload tree source)).views = a.views := by
  obtain ⟨a, ha⟩ := Analysis.ofSource_total tree h
  refine ⟨a, ha, ?_⟩
  rw [after_upload ha]
  rfl

/-- No event but an upload touches the views. -/
theorem views_after {event : Event} (h : ¬ event.IsUpload) (screen : Screen) :
    (screen.after event).views = screen.views := by
  cases event with
  | upload => exact absurd trivial h
  | typeName => rfl
  | clickExport tree temporary environment =>
    obtain ⟨download, status, hafter⟩ := after_clickExport screen tree temporary environment
    rw [hafter]
    rfl

/-! ### Runs -/

theorem views_foldl_after (h : ∀ event ∈ later, ¬ event.IsUpload) (screen : Screen) :
    (later.foldl after screen).views = screen.views := by
  induction later generalizing screen with
  | nil => rfl
  | cons event later ih =>
    obtain ⟨hevent, hlater⟩ := List.forall_mem_cons.mp h
    rw [List.foldl_cons, ih hlater, views_after hevent]

/-- Before the first upload the views are those of the start. -/
theorem views_run (h : ∀ event ∈ events, ¬ event.IsUpload) : (run events).views = initial.views :=
  views_foldl_after h initial

/-- The views are those of the last upload, whatever came before it. -/
theorem views_run_upload (hsource : source.isSupported = true)
    (hlater : ∀ event ∈ later, ¬ event.IsUpload) :
    ∃ a, (Analysis.ofSource tree source).result = .ok a ∧
      (run (events ++ .upload tree source :: later)).views = a.views := by
  obtain ⟨a, ha, hviews⟩ := views_after_upload (run events) tree hsource
  refine ⟨a, ha, ?_⟩
  rw [run_append, List.foldl_cons, views_foldl_after hlater, hviews]

/-- Events have a last upload, unless they have none. -/
theorem exists_last_upload (events : List Event) : (∀ event ∈ events, ¬ event.IsUpload) ∨
    ∃ earlier tree source later, events = earlier ++ .upload tree source :: later ∧
      ∀ event ∈ later, ¬ event.IsUpload := by
  induction events with
  | nil => exact .inl (List.forall_mem_nil _)
  | cons event events ih =>
    rcases ih with hnone | ⟨earlier, tree, source, later, rfl, hlater⟩
    · cases event with
      | upload tree source => exact .inr ⟨[], tree, source, events, rfl, hnone⟩
      | typeName | clickExport => exact .inl (List.forall_mem_cons.mpr ⟨id, hnone⟩)
    · exact .inr ⟨event :: earlier, tree, source, later, rfl, hlater⟩

/-- The views of a run are those of the start or those of an analysis. -/
theorem views_run_cases (hevents : ∀ event ∈ events, event.IsSupported) :
    ((∀ event ∈ events, ¬ event.IsUpload) ∧ (run events).views = initial.views) ∨
      ∃ a : Analysis, (run events).views = a.views := by
  rcases exists_last_upload events with hnone | ⟨earlier, tree, source, later, rfl, hlater⟩
  · exact .inl ⟨hnone, views_run hnone⟩
  · obtain ⟨a, _, hviews⟩ := views_run_upload (hevents _ List.mem_append_cons_self) hlater
    exact .inr ⟨a, hviews⟩

/-- However uploads, edits and exports follow one another, the button is enabled exactly if variants
are shown, and the table has the rows of the coordinates that are shown; before the first upload
nothing is shown. The views are those of the analysis of the last upload, whatever came before it
and whatever edits and exports came behind it. An upload touches neither the file name nor what is
downloaded, an edit the file name alone, and an export only what is downloaded and the status. -/
theorem run_consistent (hevents : ∀ event ∈ events, event.IsSupported) :
    ((run events).exportEnabled = true ↔ ∃ v vs, (run events).variants = .list (v :: vs)) ∧
      ((∀ event ∈ events, ¬ event.IsUpload) → (run events).variants = .null ∧
        (run events).coordinates = .null ∧ (run events).table = .null) ∧
      ((∃ event ∈ events, event.IsUpload) →
        Analysis.rows (run events).coordinates = .ok (run events).table) ∧
      (∀ earlier tree source later, events = earlier ++ .upload tree source :: later →
        (∀ event ∈ later, ¬ event.IsUpload) →
          ∃ a, (Analysis.ofSource tree source).result = .ok a ∧
            (run events).variants = a.variantsValue ∧
            (run events).coordinates = a.coordinatesValue ∧
            (run events).exportEnabled = a.exportable) ∧
      (∀ tree source, (run (events ++ [.upload tree source])).fileName = (run events).fileName ∧
        (run (events ++ [.upload tree source])).download = (run events).download) ∧
      (∀ name, run (events ++ [.typeName name]) = { run events with fileName := name }) ∧
      ∀ tree temporary environment, ∃ download status,
        run (events ++ [.clickExport tree temporary environment]) =
          { run events with download := download, status := status } := by
  simp only [run_concat]
  refine ⟨?_, ?_, ?_, ?_, after_upload_frame _, fun _ => rfl, after_clickExport _⟩
  · rcases views_run_cases hevents with ⟨_, hviews⟩ | ⟨a, hviews⟩
    · obtain ⟨hvariants, _, _, hexport⟩ := views_eq.mp hviews
      rw [hvariants, hexport]
      simp [initial]
    · obtain ⟨hvariants, _, _, hexport⟩ := views_eq.mp hviews
      rw [hvariants, hexport]
      exact Analysis.exportable_iff
  · intro hnone
    obtain ⟨hvariants, hcoordinates, htable, _⟩ := views_eq.mp (views_run hnone)
    exact ⟨hvariants, hcoordinates, htable⟩
  · rintro ⟨event, hevent, hupload⟩
    rcases views_run_cases hevents with ⟨hnone, _⟩ | ⟨a, hviews⟩
    · exact absurd hupload (hnone event hevent)
    · obtain ⟨_, hcoordinates, htable, _⟩ := views_eq.mp hviews
      rw [hcoordinates, htable]
      exact Analysis.rows_coordinatesValue a
  · rintro earlier tree source later rfl hlater
    obtain ⟨a, ha, hviews⟩ := views_run_upload (hevents _ List.mem_append_cons_self) hlater
    obtain ⟨hvariants, hcoordinates, _, hexport⟩ := views_eq.mp hviews
    exact ⟨a, ha, hvariants, hcoordinates, hexport⟩

/-- Nothing of a document is left on the screen after an upload of a file that is not there. -/
theorem run_consistent_missing :
    let events : List Event := [
      .upload .empty (.textStream "[null]" 0 true),
      .upload .empty (.pathText "missing.json"),
      .typeName (some "results"),
      .clickExport .empty "/tmp" []]
    (∀ event ∈ events, event.IsSupported) ∧ (run events).variants = .list [] ∧
      (run events).exportEnabled = false := by
  intro events
  have hevents : ∀ event ∈ events, event.IsSupported := by
    simp [events, Event.IsSupported, Source.isSupported]
  have hlater : ∀ event ∈ events.drop 2, ¬ event.IsUpload := by
    simp [events, Event.IsUpload]
  obtain ⟨_, _, _, hlast, _⟩ := run_consistent hevents
  obtain ⟨a, ha, hvariants, _, hexport⟩ := hlast (events.take 1) _ _ _ rfl hlater
  have hfailed : ∃ status,
      (Analysis.ofSource .empty (.pathText "missing.json")).result = .ok (.failed status) :=
    ⟨_, rfl⟩
  obtain ⟨status, hfailed⟩ := hfailed
  cases ha.symm.trans hfailed
  exact ⟨hevents, hvariants, hexport⟩

end

end Screen
end JsonSurvey
