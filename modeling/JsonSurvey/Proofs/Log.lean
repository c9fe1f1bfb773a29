import JsonSurvey.Startup

/-! Setting up the root logger time and again. The first set-up of a run adds the handler, so that
every later one finds a handler and leaves the root logger as it is (`Root.setUps_of_handlers`). A
name in upper case is that of a standard level, or one of the two names of message forms, or stands
for nothing (`levelOfName_cases`). With the name of a message form the first set-up fails behind the
adding of its handler, the level that the root logger had stays for good (`Root.setUps_bare`), and
the program does not start (`Startup.run_fails_iff`). -/

namespace JsonSurvey.Log

/-! ### Names of levels -/

/-- The standard levels under their names. -/
def standardLevels : List (Text × Int) :=
  [("NOTSET", 0), ("DEBUG", debugLevel), ("INFO", infoLevel), ("WARNING", warningLevel),
    ("WARN", warningLevel), ("ERROR", errorLevel), ("CRITICAL", criticalLevel),
    ("FATAL", criticalLevel)]

/-- The name of a message form. -/
def formName : Text := "BASIC_FORMAT"

/-- The name of the table of message forms. -/
def formTableName : Text := "_STYLES"

theorem named?_of_mem : ∀ l ∈ standardLevels, named? l.1 = some (.level l.2) := by
  simp only [standardLevels, List.forall_mem_cons]
  exact ⟨rfl, rfl, rfl, rfl, rfl, rfl, rfl, rfl, nofun⟩

theorem named?_eq_none {name : Text} (hlevel : standardLevels.lookup name = none)
    (hform : name ≠ formName) (htable : name ≠ formTableName) : named? name = none := by
  have hne : ∀ l ∈ standardLevels, name ≠ l.1 := by
    intro l hl heq
    simpa [heq] using List.lookup_eq_none_iff.mp hlevel l hl
  simp only [standardLevels, List.forall_mem_cons] at hne
  obtain ⟨hnotset, hdebug, hinfo, hwarning, hwarn, herror, hcritical, hfatal, -⟩ := hne
  rw [formName] at hform
  rw [formTableName] at htable
  rw [named?, if_neg hnotset, if_neg hdebug, if_neg hinfo, if_neg (not_or.mpr ⟨hwarning, hwarn⟩),
    if_neg herror, if_neg (not_or.mpr ⟨hcritical, hfatal⟩), if_neg hform, if_neg htable]

/-- A name gives the level that it is the name of, or the level of information, unless it is the
name of a message form or of their table. -/
theorem levelOfName_cases (name : Text) :
    (name.upper ≠ formName ∧ name.upper ≠ formTableName ∧
      levelOfName name = .ok ((standardLevels.lookup name.upper).getD infoLevel)) ∨
    (name.upper = formName ∧
      levelOfName name = .error (.unknownLevel "%(levelname)s:%(name)s:%(message)s")) ∨
    (name.upper = formTableName ∧
      ∃ description, levelOfName name = .error (.notALevel description)) := by
  rw [levelOfName]
  generalize name.upper = upper
  by_cases hform : upper = formName
  · subst hform
    exact .inr (.inl ⟨rfl, rfl⟩)
  by_cases htable : upper = formTableName
  · subst htable
    exact .inr (.inr ⟨rfl, _, rfl⟩)
  refine .inl ⟨hform, htable, ?_⟩
  cases hlevel : standardLevels.lookup upper with
  | none =>
    rw [named?_eq_none hlevel hform htable]
    rfl
  | some level =>
    obtain ⟨before, after, hsplit, -⟩ := List.lookup_eq_some_iff.mp hlevel
    rw [named?_of_mem (upper, level) (by simp [hsplit])]
    rfl

/-! ### Set-ups -/

namespace Root
variable {root : Root}

/-- The root logger after set-ups for levels of the given names, with what each of them reported. -/
def setUps (root : Root) : List Text → Root × List (Option Fault)
  | [] => (root, [])
  | name :: names =>
    let (next, fault?) := root.setUp name
    let (last, faults) := next.setUps names
    (last, fault? :: faults)

theorem setUps_cons (name : Text) (names : List Text) :
    root.setUps (name :: names) =
      (((root.setUp name).1.setUps names).1,
        (root.setUp name).2 :: ((root.setUp name).1.setUps names).2) := rfl

theorem setUp_of_handlers (h : root.handlers ≠ 0) (name : Text) :
    root.setUp name = (root, none) := if_neg h

/-- The set-ups of a root logger that has a handler change nothing and do not fail. -/
theorem setUps_of_handlers (h : root.handlers ≠ 0) (names : List Text) :
    root.setUps names = (root, names.map fun _ => none) := by
  induction names with
  | nil => rfl
  | cons name names ih =>
    rw [setUps_cons, setUp_of_handlers h, ih]
    rfl

theorem setUp_bare_of_ok {name : Text} {number : Int} (h : levelOfName name = .ok number)
    (level : Int) : (Root.mk level 0).setUp name = (⟨number, 1⟩, none) := by
  rw [setUp, if_pos rfl, h]

/-- A first set-up that fails has added its handler. -/
theorem setUp_bare_of_error {name : Text} {fault : Fault} (h : levelOfName name = .error fault)
    (level : Int) : (Root.mk level 0).setUp name = (⟨level, 1⟩, some fault) := by
  rw [setUp, if_pos rfl, h]

/-- A run from a root logger without handlers ends as its first set-up, which alone can fail. -/
theorem setUps_of_setUp_bare {level number : Int} {name : Text} {fault? : Option Fault}
    (h : (Root.mk level 0).setUp name = (⟨number, 1⟩, fault?)) (names : List Text) :
    (Root.mk level 0).setUps (name :: names) =
      (⟨number, 1⟩, fault? :: names.map fun _ => none) := by
  have hrest : (Root.mk number 1).setUps names = (⟨number, 1⟩, names.map fun _ => none) :=
    setUps_of_handlers Nat.one_ne_zero names
  rw [setUps_cons, h, hrest]

/-- A run of set-ups of a root logger without handlers ends with one handler and the level that the
first of them set, and later ones change nothing and do not fail. The first sets the level that its
name stands for in upper case, and the level of information if it is no name of a level. Only with
the name of a message form, or of the table of them, does it fail, and the level stays. -/
theorem setUps_bare (level : Int) (name : Text) (names : List Text) :
    ∃ number fault?, (Root.mk level 0).setUps (name :: names) =
        (⟨number, 1⟩, fault? :: names.map fun _ => none) ∧
      (name.upper ≠ formName → name.upper ≠ formTableName →
        fault? = none ∧ number = (standardLevels.lookup name.upper).getD infoLevel) ∧
      (name.upper = formName →
        fault? = some (.unknownLevel "%(levelname)s:%(name)s:%(message)s") ∧ number = level) ∧
      (name.upper = formTableName →
        (∃ description, fault? = some (.notALevel description)) ∧ number = level) := by
  have hnames : formName ≠ formTableName := by decide
  obtain ⟨hform, htable, hname⟩ | ⟨hform, hname⟩ | ⟨htable, description, hname⟩ :=
    levelOfName_cases name
  · refine ⟨_, none, setUps_of_setUp_bare (setUp_bare_of_ok hname level) names, ?_⟩
    exact ⟨fun _ _ => ⟨rfl, rfl⟩, fun h => absurd h hform, fun h => absurd h htable⟩
  · refine ⟨level, _, setUps_of_setUp_bare (setUp_bare_of_error hname level) names, ?_⟩
    exact ⟨fun h => absurd hform h, fun _ => ⟨rfl, rfl⟩,
      fun h => absurd (hform.symm.trans h) hnames⟩
  · refine ⟨level, _, setUps_of_setUp_bare (setUp_bare_of_error hname level) names, ?_⟩
    exact ⟨fun _ h => absurd htable h, fun h => absurd (h.symm.trans htable) hnames,
      fun _ => ⟨⟨description, rfl⟩, rfl⟩⟩

/-- The name of a message form in small letters: the set-up fails, and a later one for the level of
information comes too late. -/
theorem setUps_formName :
    standardLevels.lookup (Text.upper "basic_format") = none ∧
      Root.initial.setUps ["basic_format", "info"] =
        (⟨warningLevel, 1⟩,
          [some (.unknownLevel "%(levelname)s:%(name)s:%(message)s"), none]) :=
  ⟨rfl, rfl⟩

end Root
end JsonSurvey.Log

namespace JsonSurvey.Startup
open Log

/-- With settings that can be loaded, the program does not start exactly if the level of its log is
the name of a message form or of the table of them. -/
theorem run_fails_iff {exportDirectory : Text} {environment : Environment} {settings : Settings}
    (h : (Settings.load exportDirectory environment).result = .ok settings) (level : Int) :
    (∃ fault, (run ⟨level, 0⟩ exportDirectory environment).2.result = .error fault) ↔
      settings.logLevel.upper = formName ∨ settings.logLevel.upper = formTableName := by
  obtain ⟨hform, htable, hname⟩ | ⟨hform, hname⟩ | ⟨htable, description, hname⟩ :=
    levelOfName_cases settings.logLevel
  · simp [run, h, Root.setUp_bare_of_ok hname level, hform, htable]
  · simp [run, h, Root.setUp_bare_of_error hname level, hform]
  · simp [run, h, Root.setUp_bare_of_error hname level, htable]

end JsonSurvey.Startup
