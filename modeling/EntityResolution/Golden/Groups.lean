/-
# Survivorship groups and the published config

A golden record takes each of its columns from one decision: a scalar attribute is decided on its
own, and the fields of a group are decided together. The groups in effect are those the config
declares and, unless the config declares its own, the built-in `address`; the scalars in effect
are the attributes that no declared group claims. Publication checks the declared groups.

The written columns of a published config are the survivable columns, each once, exactly when the
declared groups respect the built-in group: publication looks at declared groups only.
-/

import EntityResolution.Foundations.Collections

namespace EntityResolution.Golden

open EntityResolution.Collections

/-- The entity type a config resolves. -/
inductive EntityType
  | person
  | account
  deriving DecidableEq

/-- One set of fields that survive together from a single member record. -/
structure SurvivorshipGroup where
  fields : List String
  controlling : Option String
  deriving DecidableEq

/-- The part of a config that the golden stage reads: the priority rank of each source, the
survivorship chains and groups, and the columns borrowed from related records. -/
structure Config where
  entityType : EntityType
  sources : BTreeMap String ℕ
  survivorship : BTreeMap String (List String)
  survivorshipGroups : BTreeMap String SurvivorshipGroup
  relatedColumns : List String

/-- Is this a config of accounts? -/
def Config.isAccount (config : Config) : Bool := config.entityType == .account

/-- `SCALAR_ATTRIBUTES` and `ACCT_SCALAR_ATTRIBUTES`. -/
def scalarAttributes (account : Bool) : List String :=
  if account then ["company_name", "domain", "phone_e164"]
  else ["given_name", "family_name", "email", "phone_e164", "birth_date"]

/-- `ADDRESS_COLUMNS` and `ACCT_ADDRESS_COLUMNS`. -/
def addressColumns (account : Bool) : List String :=
  if account then ["addr_street", "addr_city", "addr_region", "addr_postal"]
  else ["addr_number", "addr_street", "addr_unit", "addr_city", "addr_region", "addr_postal"]

/-- The survivable columns of a golden record. -/
def survivableColumns (account : Bool) : List String :=
  scalarAttributes account ++ addressColumns account

/-- The names of `int_std_record_columns`. -/
def intStdRecordColumns (account : Bool) : List String :=
  ["id", "record_key", "source_system", "source_record_id", "content_hash", "std_version"] ++
    (if account then
      ["company_name", "company_name_norm", "company_variants", "domain", "domain_norm",
        "phone_e164", "phone_valid", "addr_street", "addr_city", "addr_region", "addr_postal"]
    else
      ["given_name", "family_name", "name_variants", "email", "email_valid", "phone_e164",
        "phone_valid", "addr_number", "addr_street", "addr_unit", "addr_city", "addr_region",
        "addr_postal", "birth_date"]) ++
    ["metadata", "updated_at_source", "ingest_batch_id", "ingested_at", "created_at", "updated_at"]

/-- A group in effect for a config. -/
structure ResolvedGroup where
  token : String
  fields : List String
  controlling : Option String
  deriving DecidableEq

/-- The declared groups, in the order of their tokens. -/
def declaredGroups (config : Config) : List ResolvedGroup :=
  config.survivorshipGroups.toList.map fun entry =>
    { token := entry.1, fields := entry.2.fields, controlling := entry.2.controlling }

/-- The built-in group, unless the config declares its own. -/
def builtinGroups (config : Config) (account : Bool) : List ResolvedGroup :=
  if config.survivorshipGroups.contains "address" then []
  else [{ token := "address", fields := addressColumns account, controlling := none }]

/-- `resolved_groups`: the built-in group and the declared ones, sorted by token. -/
def resolvedGroups (config : Config) (account : Bool) : List ResolvedGroup :=
  (builtinGroups config account ++ declaredGroups config).insertionSort
    fun first second => first.token ≤ second.token

/-- The fields that some declared group claims. -/
def claimedFields (config : Config) : List String :=
  (declaredGroups config).flatMap ResolvedGroup.fields

/-- `resolved_scalars`: the attributes that no declared group claims. -/
def resolvedScalars (config : Config) (account : Bool) : List String :=
  (scalarAttributes account).filter fun attr => attr ∉ claimedFields config

/-- The columns that the golden record statement projects, decision by decision:
`scalar_projection`, then `group_projection`. -/
def projectedColumns (config : Config) : List String :=
  resolvedScalars config config.isAccount ++
    (resolvedGroups config config.isAccount).flatMap ResolvedGroup.fields

/-- What the check of the survivorship groups reports. -/
inductive GroupProblem
  | fewFields (token : String) (count : ℕ)
  | noChain (token : String)
  | unknownColumn (token field : String)
  | claimedTwice (field other token : String)
  | ownChain (field token : String)
  | foreignControlling (token controlling : String)
  | tokenCollides (token : String)
  deriving DecidableEq

/-- The text of a problem. -/
def GroupProblem.message : GroupProblem → String
  | .fewFields token count =>
      s!"survivorship_groups `{token}` lists {count} field(s); a group needs at least two, " ++
        s!"or it is just that field's own survivorship chain"
  | .noChain token =>
      s!"survivorship_groups `{token}` has no survivorship chain; a group is decided " ++
        s!"once, under its own name — add `survivorship.{token}`"
  | .unknownColumn token field =>
      s!"survivorship_groups `{token}` references unknown standardized column `{field}`"
  | .claimedTwice field other token =>
      s!"`{field}` is in both survivorship_groups `{other}` and `{token}`; two " ++
        s!"decisions writing one column is the ambiguity groups exist to remove"
  | .ownChain field token =>
      s!"`{field}` is in survivorship_groups `{token}` and also has its own " ++
        s!"`survivorship.{field}` chain; the group decides it, so that chain would " ++
        s!"never be read"
  | .foreignControlling token controlling =>
      s!"survivorship_groups `{token}` ranks on `{controlling}`, which is not one of its " ++
        s!"own fields"
  | .tokenCollides token =>
      s!"survivorship_groups `{token}` collides with the attribute `{token}`, which is " ++
        s!"still elected on its own; name the group something else or put `{token}` in it"

/-- The columns a config may name: the standardized ones and the borrowed ones. -/
def validColumns (config : Config) : List String :=
  intStdRecordColumns config.isAccount ++ config.relatedColumns

/-- The check of one field, over the fields claimed so far. -/
def checkField (config : Config) (token : String)
    (check : BTreeMap String String × List GroupProblem) (field : String) :
    BTreeMap String String × List GroupProblem :=
  if field ∉ validColumns config then (check.1, check.2 ++ [.unknownColumn token field])
  else
    (check.1.insert field token,
      check.2 ++
        ((check.1[field]?).toList.map fun other => .claimedTwice field other token) ++
        if config.survivorship.contains field then [.ownChain field token] else [])

/-- The check of one declared group. -/
def checkGroup (config : Config) (check : BTreeMap String String × List GroupProblem)
    (group : ResolvedGroup) : BTreeMap String String × List GroupProblem :=
  let size := if group.fields.length < 2 then
    [GroupProblem.fewFields group.token group.fields.length] else []
  let chain := if config.survivorship.contains group.token then [] else
    [GroupProblem.noChain group.token]
  let fields := group.fields.foldl (checkField config group.token)
    (check.1, check.2 ++ size ++ chain)
  let controlling := (group.controlling.filter fun field => field ∉ group.fields).toList.map
    fun field => GroupProblem.foreignControlling group.token field
  let collision := if group.token ∈ scalarAttributes config.isAccount ∧
      group.token ∉ group.fields then [GroupProblem.tokenCollides group.token] else []
  (fields.1, fields.2 ++ controlling ++ collision)

/-- The problems of the survivorship groups, in the order they are found. -/
def groupProblems (config : Config) : List GroupProblem :=
  ((declaredGroups config).foldl (checkGroup config) (∅, [])).2

/-- `config_reference_problems`, with those of the other blocks of the document: sorted, each once.
-/
def configReferenceProblems (otherProblems : Config → List String) (config : Config) :
    List String :=
  ((otherProblems config ++ (groupProblems config).map GroupProblem.message).insertionSort
    (· ≤ ·)).dedup

theorem checkField_eq_nil {config : Config} {token field : String}
    {check : BTreeMap String String × List GroupProblem}
    (hclean : (checkField config token check field).2 = []) :
    check.2 = [] ∧ field ∈ validColumns config ∧ field ∉ check.1 ∧
      (checkField config token check field).1 = check.1.insert field token := by
  rw [checkField] at hclean ⊢
  by_cases hvalid : field ∈ validColumns config
  · rw [if_neg (not_not_intro hvalid)] at hclean ⊢
    simp only [List.append_eq_nil_iff, List.map_eq_nil_iff, Option.toList_eq_nil_iff] at hclean
    refine ⟨hclean.1.1, hvalid, ?_, rfl⟩
    rw [BTreeMap.mem_iff_exists_getElem?]
    rintro ⟨other, hother⟩
    rw [hclean.1.2] at hother
    cases hother
  · rw [if_pos hvalid] at hclean
    simp at hclean

theorem foldl_checkField_eq_nil {config : Config} {token : String} {fields : List String}
    {check : BTreeMap String String × List GroupProblem}
    (hclean : (fields.foldl (checkField config token) check).2 = []) :
    check.2 = [] ∧ (∀ field ∈ fields, field ∈ validColumns config ∧ field ∉ check.1) ∧
      fields.Nodup ∧ ∀ field, field ∈ (fields.foldl (checkField config token) check).1 ↔
        field ∈ fields ∨ field ∈ check.1 := by
  induction fields generalizing check with
  | nil => exact ⟨hclean, by simp, List.nodup_nil, by simp⟩
  | cons head fields ih =>
      rw [List.foldl_cons] at hclean ⊢
      obtain ⟨hhead, hfields, hnodup, hclaimed⟩ := ih hclean
      obtain ⟨hbefore, hvalid, hfresh, hinsert⟩ := checkField_eq_nil hhead
      rw [hinsert] at hfields hclaimed
      refine ⟨hbefore, ?_, ?_, ?_⟩
      · intro field hfield
        rcases List.mem_cons.mp hfield with rfl | htail
        · exact ⟨hvalid, hfresh⟩
        · have hlater := hfields field htail
          rw [BTreeMap.mem_insert_iff, not_or] at hlater
          exact ⟨hlater.1, hlater.2.2⟩
      · rw [List.nodup_cons]
        refine ⟨?_, hnodup⟩
        intro hmem
        exact (hfields head hmem).2 (BTreeMap.mem_insert_iff.mpr (.inl rfl))
      · intro field
        rw [hclaimed, BTreeMap.mem_insert_iff, List.mem_cons]
        tauto

theorem foldl_checkGroup_eq_nil {config : Config} {groups : List ResolvedGroup}
    {check : BTreeMap String String × List GroupProblem}
    (hclean : (groups.foldl (checkGroup config) check).2 = []) :
    check.2 = [] ∧ (groups.flatMap ResolvedGroup.fields).Nodup ∧
      ∀ field ∈ groups.flatMap ResolvedGroup.fields,
        field ∈ validColumns config ∧ field ∉ check.1 := by
  induction groups generalizing check with
  | nil => exact ⟨hclean, by simp, by simp⟩
  | cons group groups ih =>
      rw [List.foldl_cons] at hclean
      obtain ⟨hgroup, hnodup, hlater⟩ := ih hclean
      simp only [checkGroup, List.append_eq_nil_iff] at hgroup
      obtain ⟨hbefore, hfields, hfieldsNodup, hclaimed⟩ := foldl_checkField_eq_nil hgroup.1.1
      simp only [List.append_eq_nil_iff] at hbefore
      simp only [checkGroup] at hlater
      rw [List.flatMap_cons]
      refine ⟨hbefore.1.1, ?_, ?_⟩
      · rw [List.nodup_append]
        refine ⟨hfieldsNodup, hnodup, ?_⟩
        intro field hfield other hother hsame
        subst hsame
        exact (hlater field hother).2 ((hclaimed field).mpr (.inl hfield))
      · intro field hfield
        rcases List.mem_append.mp hfield with hhere | hthere
        · exact hfields field hhere
        · refine ⟨(hlater field hthere).1, ?_⟩
          intro hmem
          exact (hlater field hthere).2 ((hclaimed field).mpr (.inr hmem))

theorem groupProblems_eq_nil {otherProblems : Config → List String} {config : Config}
    (hclean : configReferenceProblems otherProblems config = []) : groupProblems config = [] := by
  rw [configReferenceProblems, List.dedup_eq_nil] at hclean
  have hnone := List.perm_nil.mp (hclean ▸ List.perm_insertionSort _ _).symm
  exact List.map_eq_nil_iff.mp (List.append_eq_nil_iff.mp hnone).2

theorem nodup_claimedFields {config : Config} (hclean : groupProblems config = []) :
    (claimedFields config).Nodup :=
  (foldl_checkGroup_eq_nil hclean).2.1

/-! ## The projected columns -/

/-- The declared groups respect the built-in one: a config that declares `address` places every
address column in some group, and any other config leaves them all to the built-in group. -/
def RespectsAddress (config : Config) : Prop :=
  if config.survivorshipGroups.contains "address" then
    ∀ column ∈ addressColumns config.isAccount, column ∈ claimedFields config
  else
    ∀ column ∈ addressColumns config.isAccount, column ∉ claimedFields config

instance (config : Config) : Decidable (RespectsAddress config) := by
  unfold RespectsAddress
  infer_instance

theorem projectedColumns_perm (config : Config) :
    (projectedColumns config).Perm
      (resolvedScalars config config.isAccount ++
        ((if config.survivorshipGroups.contains "address" then []
          else addressColumns config.isAccount) ++ claimedFields config)) := by
  rw [projectedColumns, List.perm_append_left_iff]
  have hsort := List.perm_insertionSort (fun first second : ResolvedGroup =>
    first.token ≤ second.token) (builtinGroups config config.isAccount ++ declaredGroups config)
  have hflat := hsort.flatMap_right ResolvedGroup.fields
  rw [List.flatMap_append] at hflat
  rw [resolvedGroups]
  apply hflat.trans
  rw [claimedFields, List.perm_append_right_iff, builtinGroups]
  split
  · exact List.Perm.refl _
  · simp

theorem scalarAttributes_nodup (account : Bool) : (scalarAttributes account).Nodup := by
  cases account <;> decide

theorem addressColumns_nodup (account : Bool) : (addressColumns account).Nodup := by
  cases account <;> decide

theorem scalar_not_address (account : Bool) :
    ∀ column ∈ scalarAttributes account, column ∉ addressColumns account := by
  cases account <;> decide

theorem count_scalar {config : Config} (hclean : groupProblems config = []) {column : String}
    (hscalar : column ∈ scalarAttributes config.isAccount) :
    (projectedColumns config).count column = 1 := by
  have haddress := scalar_not_address _ column hscalar
  rw [(projectedColumns_perm config).count_eq, List.count_append, List.count_append]
  have hbuiltin : (if config.survivorshipGroups.contains "address" then []
      else addressColumns config.isAccount).count column = 0 := by
    apply List.count_eq_zero_of_not_mem
    split
    · simp
    · exact haddress
  rw [hbuiltin, resolvedScalars]
  by_cases hclaimed : column ∈ claimedFields config
  · rw [(nodup_claimedFields hclean).count, if_pos hclaimed, List.count_eq_zero_of_not_mem]
    rw [List.mem_filter]
    simp [hclaimed]
  · rw [List.count_eq_zero_of_not_mem hclaimed, List.count_filter (by simpa using hclaimed),
      (scalarAttributes_nodup _).count, if_pos hscalar]

theorem count_address {config : Config} (hclean : groupProblems config = []) {column : String}
    (haddress : column ∈ addressColumns config.isAccount) :
    (projectedColumns config).count column =
      (if config.survivorshipGroups.contains "address" then 0 else 1) +
        if column ∈ claimedFields config then 1 else 0 := by
  rw [(projectedColumns_perm config).count_eq, List.count_append, List.count_append,
    (nodup_claimedFields hclean).count]
  have hscalar : (resolvedScalars config config.isAccount).count column = 0 := by
    apply List.count_eq_zero_of_not_mem
    intro hmem
    exact scalar_not_address _ column (List.mem_filter.mp hmem).1 haddress
  rw [hscalar, Nat.zero_add]
  congr 1
  split
  · rfl
  · rw [(addressColumns_nodup _).count, if_pos haddress]

theorem survivable_once_iff {config : Config} (hclean : groupProblems config = []) :
    (∀ column ∈ survivableColumns config.isAccount, (projectedColumns config).count column = 1) ↔
      RespectsAddress config := by
  have hsplit : (∀ column ∈ survivableColumns config.isAccount,
      (projectedColumns config).count column = 1) ↔
      ∀ column ∈ addressColumns config.isAccount, (projectedColumns config).count column = 1 := by
    apply Iff.intro
    · intro hall column hcolumn
      exact hall column (List.mem_append_right _ hcolumn)
    · intro hall column hcolumn
      rcases List.mem_append.mp hcolumn with hscalar | haddress
      · exact count_scalar hclean hscalar
      · exact hall column haddress
  rw [hsplit, RespectsAddress]
  by_cases hdeclared : config.survivorshipGroups.contains "address" = true
  · rw [if_pos hdeclared]
    apply forall₂_congr
    intro column hcolumn
    rw [count_address hclean hcolumn, if_pos hdeclared]
    by_cases hclaimed : column ∈ claimedFields config
    · simp [hclaimed]
    · simp [hclaimed]
  · rw [if_neg hdeclared]
    apply forall₂_congr
    intro column hcolumn
    rw [count_address hclean hcolumn, if_neg hdeclared]
    by_cases hclaimed : column ∈ claimedFields config
    · simp [hclaimed]
    · simp [hclaimed]

theorem survivableColumns_nodup (account : Bool) : (survivableColumns account).Nodup := by
  cases account <;> decide

theorem mem_projectedColumns {config : Config} {column : String}
    (hcolumn : column ∈ projectedColumns config) :
    column ∈ survivableColumns config.isAccount ∨ column ∈ claimedFields config := by
  rw [(projectedColumns_perm config).mem_iff, List.mem_append, List.mem_append] at hcolumn
  rcases hcolumn with hscalar | hbuiltin | hclaimed
  · exact .inl (List.mem_append_left _ (List.mem_filter.mp hscalar).1)
  · split at hbuiltin
    · cases hbuiltin
    · exact .inl (List.mem_append_right _ hbuiltin)
  · exact .inr hclaimed

/-- The projection is a listing of the survivable columns when each is projected once and the
groups claim no other column. -/
theorem perm_survivableColumns_iff (config : Config) :
    (projectedColumns config).Perm (survivableColumns config.isAccount) ↔
      (∀ column ∈ survivableColumns config.isAccount, (projectedColumns config).count column = 1) ∧
        ∀ field ∈ claimedFields config, field ∈ survivableColumns config.isAccount := by
  apply Iff.intro
  · intro hperm
    apply And.intro
    · intro column hcolumn
      rw [hperm.count_eq, (survivableColumns_nodup _).count, if_pos hcolumn]
    · intro field hfield
      rw [← hperm.mem_iff, (projectedColumns_perm config).mem_iff]
      exact List.mem_append_right _ (List.mem_append_right _ hfield)
  · intro h
    rw [List.perm_iff_count]
    intro column
    rw [(survivableColumns_nodup _).count]
    by_cases hcolumn : column ∈ survivableColumns config.isAccount
    · rw [if_pos hcolumn, h.1 column hcolumn]
    · rw [if_neg hcolumn, List.count_eq_zero]
      intro hmem
      rcases mem_projectedColumns hmem with hsurvivable | hclaimed
      · exact hcolumn hsurvivable
      · exact hcolumn (h.2 column hclaimed)

/-- A published config writes every survivable column by exactly one decision if and only if its
declared groups respect the built-in address group; and then the written columns are exactly the
survivable ones if and only if, besides, no group claims another column. -/
theorem one_decision_per_column_iff (otherProblems : Config → List String) (config : Config)
    (hclean : configReferenceProblems otherProblems config = []) :
    ((∀ column ∈ survivableColumns config.isAccount,
      (projectedColumns config).count column = 1) ↔ RespectsAddress config) ∧
    ((projectedColumns config).Perm (survivableColumns config.isAccount) ↔
      RespectsAddress config ∧
        ∀ field ∈ claimedFields config, field ∈ survivableColumns config.isAccount) := by
  have honce := survivable_once_iff (groupProblems_eq_nil hclean)
  exact ⟨honce, by rw [perm_survivableColumns_iff, honce]⟩

/-- A person config with one declared group and the chains it needs. -/
def groupedConfig (token : String) (fields : List String) : Config where
  entityType := .person
  sources := ∅
  survivorship := (((∅ : BTreeMap String (List String)).insert token ["recency"]).insert "address"
    ["recency"]).insert "email" ["recency"]
  survivorshipGroups := (∅ : BTreeMap String SurvivorshipGroup).insert token ⟨fields, none⟩
  relatedColumns := []

/-- Grouping the two names keeps one decision for each column. -/
theorem fullName_one_decision :
    configReferenceProblems (fun _ => []) (groupedConfig "full_name" ["given_name", "family_name"])
      = [] ∧
    ∀ column ∈ survivableColumns false,
      (projectedColumns (groupedConfig "full_name" ["given_name", "family_name"])).count column
        = 1 :=
  ⟨by decide +kernel,
    (one_decision_per_column_iff (fun _ => [])
      (groupedConfig "full_name" ["given_name", "family_name"]) (by decide +kernel)).1.mpr
      (by decide +kernel)⟩

/-- A published config may write an address column twice: a group of another name claims it, and
the built-in group still writes it. -/
theorem published_groups_break_partition :
    ¬ ∀ config : Config, configReferenceProblems (fun _ => []) config = [] →
      ∀ column ∈ survivableColumns config.isAccount,
        (projectedColumns config).count column = 1 := by
  intro hall
  have htwice := hall (groupedConfig "location" ["addr_city", "addr_region"]) (by decide +kernel)
    "addr_city" (by decide +kernel)
  have hcount : (projectedColumns (groupedConfig "location" ["addr_city", "addr_region"])).count
      "addr_city" = 2 := by
    decide +kernel
  rw [hcount] at htwice
  cases htwice

end EntityResolution.Golden
