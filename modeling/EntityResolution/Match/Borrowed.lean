/-
# Columns borrowed from related records

A configuration may widen every standardized row with attributes of a related record: a left
join of the standardized table with itself, on the source that is declared and the bare id that
a column of the row holds. Every pass scores the widened rows.

A full pass of the widened corpus sees every borrowed column as it is now. An incremental pass
rescores the records whose own content hash moved, and the hash does not cover what a row
borrows. So it leaves what a full pass would exactly when the pairs that it keeps have the same
scores on both widened corpora.
-/

import EntityResolution.Match.FullScores

namespace EntityResolution.Match

open EntityResolution.Collections EntityResolution.Runs

universe v x y z

variable {H : Type v} {S : Type x} {E : Type y} {I : Type z}

/-- A standardized row as text: the canonical columns and the keys of `metadata`. -/
structure StdColumns where
  column : String → Option String
  metadata : String → Option String

/-- One `features.related` entry. -/
structure RelatedFeature where
  columnPrefix : String
  keyColumn : String
  targetSource : String
  attributes : List String
  deriving DecidableEq

/-- `is_standard_column`. -/
def isStandardColumn (name : String) : Bool :=
  ["record_key", "source_system", "source_record_id", "given_name", "family_name",
    "name_variants", "email", "email_valid", "phone_e164", "phone_valid", "addr_number",
    "addr_street", "addr_unit", "addr_city", "addr_region", "addr_postal"].contains name

/-- `read_column`: a canonical column, or a key of `metadata`. -/
def readColumn (row : StdColumns) (name : String) : Option String :=
  if isStandardColumn name then row.column name else row.metadata name

/-- `column_for`. -/
def RelatedFeature.columnFor (feature : RelatedFeature) (name : String) : String :=
  feature.columnPrefix ++ "_" ++ name

/-- The record key a feature joins on; NULL when the row has no id there. -/
def RelatedFeature.relatedKey (feature : RelatedFeature) (row : StdColumns) : Option String :=
  (readColumn row feature.keyColumn).map fun id => feature.targetSource ++ ":" ++ id

/-- A standardized row with the columns it borrows. -/
structure WideRow where
  own : StdColumns
  borrowed : List (String × Option String)

/-- The columns a feature contributes to a row: all NULL when its key points at nothing. -/
def borrowedColumns (std : Corpus String H StdColumns) (row : StdColumns)
    (feature : RelatedFeature) : List (String × Option String) :=
  let related := (feature.relatedKey row).bind fun key => std[key]?
  feature.attributes.map fun name =>
    (feature.columnFor name, related.bind fun record => readColumn record.row name)

/-- `widened_std`: every record with its own content hash and its widened row. -/
def widenedStd (features : List RelatedFeature) (std : Corpus String H StdColumns) :
    Corpus String H WideRow :=
  std.map fun _ record =>
    ⟨record.contentHash, record.row, features.flatMap (borrowedColumns std record.row)⟩

/-- What a history of passes runs under: the features, the members and what they read of the
configuration. -/
structure Setting (S : Type x) (E : Type y) (I : Type z) where
  features : List RelatedFeature
  config : Config S
  ensemble : Ensemble WideRow S E I
  reviewLow : S

/-- A completed pass: full, or incremental with the segment it also rescores. -/
inductive WidePass
  | full
  | incremental (segment : Option (WideRow → Option Bool))

/-- One completed pass of a history, with the corpus it meets. -/
structure WideStep (H : Type v) where
  std : Corpus String H StdColumns
  stamp : RunStamp
  pass : WidePass

variable [LinearOrder S] [LinearOrder I]

/-- The statements of a full pass over the widened corpus. -/
def fullWide (setting : Setting S E I) (step : WideStep H) (lake : Lake String H S E I) :
    List (Statement String H WideRow S E I) :=
  runMatchEnsemble setting.config setting.ensemble.members setting.reviewLow step.stamp
    (widenedStd setting.features step.std) lake

/-- The lake a pass over the widened corpus leaves. -/
def completeWide [DecidableEq H] (setting : Setting S E I) (lake : Lake String H S E I)
    (step : WideStep H) : Lake String H S E I :=
  commit lake
    (match step.pass with
    | .full => fullWide setting step lake
    | .incremental segment =>
        runMatchEnsembleIncremental setting.ensemble.members setting.reviewLow step.stamp segment
          (widenedStd setting.features step.std) lake)

/-- The active scores are those a full pass over the same widened corpus leaves, whatever lake
that pass starts from. -/
def ScoresAsFull (setting : Setting S E I) (step : WideStep H) (later : Lake String H S E I) :
    Prop :=
  ∀ lake identity a b, activeVerdict later identity a b =
    activeVerdict (commit lake (fullWide setting step lake)) identity a b

/-- The pass is full, or the widened corpora before it and now leave it nothing to miss. -/
def BorrowsTheSame (setting : Setting S E I) (before : Corpus String H StdColumns)
    (step : WideStep H) : Prop :=
  match step.pass with
  | .full => True
  | .incremental segment =>
      Undisturbed setting.config setting.ensemble setting.reviewLow segment
        (widenedStd setting.features before) (widenedStd setting.features step.std)

/-- The lake is as a full pass over a widened corpus leaves it. -/
def SettledWide (setting : Setting S E I) (lake : Lake String H S E I)
    (std : Corpus String H StdColumns) : Prop :=
  Settled setting.config setting.ensemble setting.reviewLow (widenedStd setting.features std) lake

section Steps

variable {setting : Setting S E I} {step : WideStep H} {lake later : Lake String H S E I}
  {before : Corpus String H StdColumns}

theorem widenedStd_empty (features : List RelatedFeature) :
    widenedStd features (∅ : Corpus String H StdColumns) = ∅ := by
  ext1 key
  simp [widenedStd]

theorem settledWide_fresh : SettledWide setting (Lake.fresh : Lake String H S E I) ∅ := by
  rw [SettledWide, widenedStd_empty]
  exact settled_fresh

theorem settledWide_full
    (hsymmetric : ∀ member ∈ setting.ensemble.members, SideSymmetric member) :
    SettledWide setting (commit lake (fullWide setting step lake)) step.std :=
  fun _ => viewOf_runMatchEnsemble hsymmetric lake

theorem scoresAsFull_iff
    (hsymmetric : ∀ member ∈ setting.ensemble.members, SideSymmetric member) :
    ScoresAsFull setting step later ↔ ∀ identity a b, activeVerdict later identity a b =
      (settledView setting.config setting.ensemble setting.reviewLow
        (widenedStd setting.features step.std) identity).active a b := by
  have hfull (lake : Lake String H S E I) (identity : I) (a b : String) :
      activeVerdict (commit lake (fullWide setting step lake)) identity a b =
        (settledView setting.config setting.ensemble setting.reviewLow
          (widenedStd setting.features step.std) identity).active a b := by
    have hsettled : SettledWide setting (commit lake (fullWide setting step lake)) step.std :=
      settledWide_full hsymmetric
    exact congrFun (congrFun (congrArg ModelView.active (hsettled identity)) a) b
  constructor
  · intro hscores identity a b
    rw [hscores Lake.fresh, hfull]
  · intro hscores lake identity a b
    rw [hscores, hfull]

/-- A completed pass from a settled lake leaves the scores of a full one exactly when it borrows
nothing that moved. -/
theorem scoresAsFull_completeWide_iff [DecidableEq H]
    (hsymmetric : ∀ member ∈ setting.ensemble.members, SideSymmetric member)
    (hsettled : SettledWide setting lake before) :
    ScoresAsFull setting step (completeWide setting lake step) ↔
      BorrowsTheSame setting before step := by
  rw [scoresAsFull_iff hsymmetric, completeWide, BorrowsTheSame]
  cases step.pass with
  | full =>
      apply iff_of_true _ trivial
      intro identity a b
      have hfull : SettledWide setting (commit lake (fullWide setting step lake)) step.std :=
        settledWide_full hsymmetric
      exact congrFun (congrFun (congrArg ModelView.active (hfull identity)) a) b
  | incremental segment => exact active_incremental_iff hsymmetric hsettled

/-- A completed pass that leaves the scores of a full one leaves the lake settled. -/
theorem settledWide_completeWide [DecidableEq H]
    (hsymmetric : ∀ member ∈ setting.ensemble.members, SideSymmetric member)
    (hscores : ScoresAsFull setting step (completeWide setting lake step)) :
    SettledWide setting (completeWide setting lake step) step.std := by
  rw [scoresAsFull_iff hsymmetric] at hscores
  rw [completeWide] at hscores ⊢
  cases hpass : step.pass with
  | full => exact settledWide_full hsymmetric
  | incremental segment =>
      rw [hpass] at hscores
      exact settled_incremental hscores

end Steps

/-- In a history of completed full, incremental and segment passes under one configuration,
with any changes of the corpus between them, every pass leaves the active scores of a full pass
over the same widened corpus exactly when every incremental pass borrows nothing that moved:
each pair it keeps has the same full score in the widened corpora before it and now, and each
pair it scores again is one that no cascade skips. -/
theorem borrowed_scores_as_full_iff [DecidableEq H] (setting : Setting S E I)
    (hsymmetric : ∀ member ∈ setting.ensemble.members, SideSymmetric member)
    (history : List (WideStep H)) :
    AfterEach (completeWide setting) (ScoresAsFull setting) Lake.fresh history ↔
      Along (fun _ step => step.std) (BorrowsTheSame setting) ∅ history := by
  apply afterEach_iff_along_of_tracks (SettledWide setting)
  · intro lake before step hsettled
    exact scoresAsFull_completeWide_iff hsymmetric hsettled
  · intro lake before step _ hscores
    exact settledWide_completeWide hsymmetric hscores
  · exact settledWide_fresh

/-- People borrow the name of their employer; two of them are compared on it. -/
def sampleSetting : Setting ℕ Unit ℕ where
  features := [⟨"employer", "employer_id", "crm", ["given_name"]⟩]
  config := ⟨[], 9⟩
  ensemble :=
    ⟨[{ identity := 1
        candidate := fun l r =>
          (l.own.metadata "employer_id").isSome && (r.own.metadata "employer_id").isSome
        score := fun l r => if l.borrowed = r.borrowed then 9 else 2
        evidence := fun _ _ => () }], by simp, by decide⟩
  reviewLow := 1

theorem sampleSetting_symmetric :
    ∀ member ∈ sampleSetting.ensemble.members, SideSymmetric member := by
  intro member hmember
  rw [sampleSetting, List.mem_singleton] at hmember
  subst hmember
  exact ⟨fun _ _ => Bool.and_comm _ _, fun l r => by simp only [eq_comm]⟩

/-- Two people and their employers, the second of which has a name and a content hash. -/
def sampleStaff (name : String) (hash : ℕ) : Corpus String ℕ StdColumns :=
  let row (columns metadata : List (String × String)) : StdColumns :=
    ⟨fun name => columns.lookup name, fun name => metadata.lookup name⟩
  Std.ExtTreeMap.ofList
    [("people:1", ⟨1, row [] [("employer_id", "a")]⟩),
      ("people:2", ⟨2, row [] [("employer_id", "b")]⟩),
      ("crm:a", ⟨3, row [("given_name", "Acme")] []⟩),
      ("crm:b", ⟨hash, row [("given_name", name)] []⟩)] compare

/-- With no related record touched, an incremental pass scores as a full one. -/
theorem borrowed_scores_as_full_iff_unchanged :
    (∀ member ∈ sampleSetting.ensemble.members, SideSymmetric member) ∧
      AfterEach (completeWide sampleSetting) (ScoresAsFull sampleSetting) Lake.fresh
        [⟨sampleStaff "Acme" 4, ⟨"run-1", 1⟩, .full⟩,
          ⟨sampleStaff "Acme" 4, ⟨"run-2", 2⟩, .incremental none⟩] := by
  refine ⟨sampleSetting_symmetric, ?_⟩
  rw [borrowed_scores_as_full_iff sampleSetting sampleSetting_symmetric]
  exact ⟨trivial, undisturbed_of_same_rows rfl fun _ _ _ => rfl, trivial⟩

/-- The second employer is renamed: the two people keep the score of the shared name. -/
theorem renamed_employer_keeps_score :
    ¬ AfterEach (completeWide sampleSetting) (ScoresAsFull sampleSetting) Lake.fresh
        [⟨sampleStaff "Acme" 4, ⟨"run-1", 1⟩, .full⟩,
          ⟨sampleStaff "Apex" 5, ⟨"run-2", 2⟩, .incremental none⟩] := by
  intro hrun
  exact absurd (hrun.2.1 Lake.fresh 1 "people:1" "people:2") (by decide +kernel)

end EntityResolution.Match
