/-
# Match scores

The list of match scores is paged by pair, and the cursor carries both keys with a separator between
them. Several members of an ensemble can have scored one pair, so a page may end inside a pair; the
rest of its rows is then skipped.

What to label next are the scores nearest to the threshold that have no label yet. Labels live in
another store, so the labelled pairs are taken out of what was fetched, and as many more rows are
fetched as there are labels, up to a bound.
-/

import EntityResolution.ReadApi.Paging

namespace EntityResolution.ReadApi

open EntityResolution.Collections EntityResolution.KeysetPaging

variable {V P : Type}

/-- A row of the list of match scores. -/
structure MatchScoreItem (P : Type) where
  recAKey : String
  recBKey : String
  matchProbability : P
  modelVersion : String
  evidence : String
  isActive : Bool
  runId : String
  scoredAt : ℤ

/-- A pair of record keys, ordered by the first and then by the second. -/
abbrev Pair := Lex (String × String)

def MatchScoreItem.pair (row : MatchScoreItem P) : Pair := toLex (row.recAKey, row.recBKey)

/-- `PAIR_SEP`. -/
def pairSep : Char := Char.ofNat 0x1f

/-- The key of a cursor: both keys of a pair. -/
def pairText (pair : Pair) : String :=
  (ofLex pair).1 ++ String.singleton pairSep ++ (ofLex pair).2

/-- `after.split_once(PAIR_SEP).unwrap_or((after, ""))`. -/
def splitPair (after : String) : Pair :=
  toLex (String.ofList (after.toList.takeWhile (· ≠ pairSep)),
    String.ofList ((after.toList.dropWhile (· ≠ pairSep)).drop 1))

/-- Both keys are read back, when the first has no separator. -/
theorem splitPair_pairText {pair : Pair} (hpair : pairSep ∉ (ofLex pair).1.toList) :
    splitPair (pairText pair) = pair := by
  have htext : (pairText pair).toList =
      (ofLex pair).1.toList ++ pairSep :: (ofLex pair).2.toList := by
    simp [pairText]
  have hfront : ∀ c ∈ (ofLex pair).1.toList, decide (c ≠ pairSep) = true :=
    fun c hc => decide_eq_true (ne_of_mem_of_not_mem hc hpair)
  rw [splitPair, htext, List.takeWhile_append_of_pos hfront, List.dropWhile_append_of_pos hfront]
  simp

section List

variable [LE P] [DecidableLE P]

/-- The conditions of `match_score/read/active_page.sql` beside the keys. -/
def inBand (minProb maxProb : Option P) (row : MatchScoreItem P) : Bool :=
  row.isActive && (minProb.all fun low => low ≤ row.matchProbability) &&
    maxProb.all fun high => row.matchProbability ≤ high

/-- `($after_a IS NULL OR rec_a_key > $after_a OR (rec_a_key = $after_a AND rec_b_key > $after_b))`.
-/
def afterPair (after : Option Pair) (row : MatchScoreItem P) : Bool :=
  after.all fun pair => (ofLex pair).1 < row.recAKey ||
    (decide ((ofLex pair).1 = row.recAKey) && decide ((ofLex pair).2 < row.recBKey))

/-- `active_page`. Rows of one pair come in the order that the engine has for this request. -/
def activePage (order : List (MatchScoreItem P) → List (MatchScoreItem P))
    (rows : List (MatchScoreItem P)) (after : Option Pair) (minProb maxProb : Option P)
    (limit : ℕ) : List (MatchScoreItem P) :=
  (order ((rows.filter (inBand minProb maxProb)).filter (afterPair after))).take limit

/-- `read::match_scores_list`. -/
def readMatchScores (codec : Codec) (toValue : MatchScoreItem P → V)
    (order : List (MatchScoreItem P) → List (MatchScoreItem P))
    (rows : Except String (List (MatchScoreItem P))) (snapshot : ℤ) (after : Option String)
    (minProb maxProb : Option P) (limit : ℤ) : Except String (List V × Option String) :=
  let limit := clampLimit limit
  rows.map fun rows =>
    typedPage codec toValue (fun row => pairText row.pair)
      (activePage order rows (after.map splitPair) minProb maxProb (limit + 1).toNat) snapshot limit

/-- `match_scores_list`. -/
def matchScoresList (codec : Codec) (reals : Reals P) (toValue : MatchScoreItem P → V)
    (order : ℕ → List (MatchScoreItem P) → List (MatchScoreItem P))
    (lake : Lake (List (MatchScoreItem P))) (request : ℕ) (params : Query) :
    Except Refusal (List V × Option String) := do
  let (snapshot, after) ← pageOrErr codec (lake.latest request) (params "cursor")
  let bandLow := (params "band_low").bind reals.parse
  let bandHigh := (params "band_high").bind reals.parse
  lakeRead (readMatchScores codec toValue (order request) (lake.rows snapshot) snapshot after
    bandLow bandHigh (parseLimit (params "limit")))

variable {codec : Codec} {toValue : MatchScoreItem P → V} {rows : List (MatchScoreItem P)}
  {snapshot : ℤ} {minProb maxProb : Option P}

omit [LE P] [DecidableLE P] in
theorem filter_afterPair (after : Option Pair) (rows : List (MatchScoreItem P)) :
    rows.filter (afterPair after) = rowsAfter MatchScoreItem.pair after rows := by
  rw [rowsAfter]
  apply List.filter_congr
  intro row _
  cases after with
  | none => rfl
  | some pair =>
      rw [afterPair, Option.all_some, Option.all_some, Bool.eq_iff_iff]
      simp only [Bool.or_eq_true, Bool.and_eq_true, decide_eq_true_eq, MatchScoreItem.pair,
        Prod.Lex.lt_iff, ofLex_toLex]

/-- A page of match scores is one by pair. -/
theorem serves_readMatchScores (codec : Codec) (toValue : MatchScoreItem P → V)
    (rows : List (MatchScoreItem P)) (snapshot : ℤ) (minProb maxProb : Option P)
    {order : List (MatchScoreItem P) → List (MatchScoreItem P)}
    (horder : ∀ rows, Ordered MatchScoreItem.pair rows (order rows)) {after : Option String}
    {pair : Option Pair} (hafter : after.map splitPair = pair) (limit : ℤ) :
    Serves MatchScoreItem.pair (rows.filter (inBand minProb maxProb)) toValue
      (fun pair => encodeCursor codec snapshot (pairText pair))
      (readMatchScores codec toValue order (.ok rows) snapshot after minProb maxProb
        limit) pair := by
  have hlimit := clampLimit_pos limit
  refine ⟨order (rowsAfter MatchScoreItem.pair pair (rows.filter (inBand minProb maxProb))),
    (clampLimit limit).toNat, by omega, horder _, ?_⟩
  have hfetched : activePage order rows pair minProb maxProb (clampLimit limit + 1).toNat =
      (order (rowsAfter MatchScoreItem.pair pair (rows.filter (inBand minProb maxProb)))).take
        ((clampLimit limit).toNat + 1) := by
    rw [activePage, filter_afterPair,
      show (clampLimit limit + 1).toNat = (clampLimit limit).toNat + 1 by omega]
  rw [readMatchScores, hafter, Except.map, hfetched, typedPage_eq codec hlimit]
  congr 2
  rw [page, page]
  split_ifs
  · rw [Option.map_map, Option.map_map]
    rfl
  · rfl

/-- Every scored pair is listed. Where no record key has the separator, a client that follows
the cursors gets to the end, and gets at least one active score of every pair in the band, none
twice, in the order of the pairs; and all of them where no pair was scored by two members. -/
theorem matchScores_complete (toValue : MatchScoreItem P → V) (hcodec : codec.Sound)
    (reals : Reals P)
    {order : ℕ → List (MatchScoreItem P) → List (MatchScoreItem P)}
    (horder : ∀ request rows, Ordered MatchScoreItem.pair rows (order request rows))
    (limits : ℕ → Option String) (fixed : Query) (lake : Lake (List (MatchScoreItem P)))
    (hlatest : lake.latest 0 = .ok snapshot) (hrows : lake.rows snapshot = .ok rows)
    (hsep : ∀ row ∈ rows, pairSep ∉ row.recAKey.toList) :
    ∃ pages : List (List (MatchScoreItem P)),
      Walk (fun request cursor => matchScoresList codec reals toValue order lake request
        (ask limits fixed request cursor)) 0 none (pages.map fun items => items.map toValue) ∧
      pages.flatten.Subperm (rows.filter (inBand ((fixed "band_low").bind reals.parse)
        ((fixed "band_high").bind reals.parse))) ∧
      (pages.flatten.Pairwise fun first second => first.pair ≤ second.pair) ∧
      (∀ row ∈ rows.filter (inBand ((fixed "band_low").bind reals.parse)
        ((fixed "band_high").bind reals.parse)),
          ∃ shown ∈ pages.flatten, shown.pair = row.pair) ∧
      (((rows.filter (inBand ((fixed "band_low").bind reals.parse)
        ((fixed "band_high").bind reals.parse))).map MatchScoreItem.pair).Nodup →
          pages.flatten.Perm (rows.filter (inBand ((fixed "band_low").bind reals.parse)
            ((fixed "band_high").bind reals.parse)))) := by
  obtain ⟨scored, hscored⟩ : ∃ scored, scored = rows.filter
      (inBand ((fixed "band_low").bind reals.parse) ((fixed "band_high").bind reals.parse)) :=
    ⟨_, rfl⟩
  have hserves {request : ℕ} {cursor after : Option String} {pair : Option Pair}
      (hstart : pageOrErr codec (lake.latest request) cursor = .ok (snapshot, after))
      (hafter : after.map splitPair = pair) :
      Serves MatchScoreItem.pair scored toValue
        (fun pair => encodeCursor codec snapshot (pairText pair))
        (matchScoresList codec reals toValue order lake request
          (ask limits fixed request cursor)) pair := by
    obtain ⟨ordered, size, hsize, hordered, hanswer⟩ := serves_readMatchScores codec toValue rows
      snapshot ((fixed "band_low").bind reals.parse) ((fixed "band_high").bind reals.parse)
      (horder request) hafter (parseLimit (limits request))
    rw [← hscored] at hordered
    refine ⟨ordered, size, hsize, hordered, ?_⟩
    have hcursor : ask limits fixed request cursor "cursor" = cursor := rfl
    rw [matchScoresList, hcursor, hstart]
    change lakeRead (readMatchScores codec toValue (order request) (lake.rows snapshot) snapshot
      after _ _ _) = _
    rw [hrows]
    exact congrArg lakeRead hanswer
  have hnext (request : ℕ) (row : MatchScoreItem P) (hrow : row ∈ scored) :
      Serves MatchScoreItem.pair scored toValue
        (fun pair => encodeCursor codec snapshot (pairText pair))
        (matchScoresList codec reals toValue order lake request (ask limits fixed request
          (some (encodeCursor codec snapshot (pairText row.pair))))) (some row.pair) := by
    rw [hscored, List.mem_filter] at hrow
    apply hserves (pageOrErr_encodeCursor hcodec _ _ _)
    have hpair : pairSep ∉ (ofLex row.pair).1.toList := hsep row hrow.1
    rw [Option.map_some, splitPair_pairText hpair]
  have hfirst : Serves MatchScoreItem.pair scored toValue
      (fun pair => encodeCursor codec snapshot (pairText pair))
      (matchScoresList codec reals toValue order lake 0 (ask limits fixed 0 none)) none :=
    hserves (pageOrErr_none hlatest) rfl
  obtain ⟨pages, hwalk, hshows⟩ := exists_walk (fun request cursor => matchScoresList codec reals
    toValue order lake request (ask limits fixed request cursor)) hnext 0 none hfirst
  rw [← hscored]
  obtain ⟨hsubperm, hsorted, hkeys, hperm⟩ := hshows.all
  exact ⟨pages, hwalk, hsubperm, hsorted, hkeys, hperm⟩

end List

section Labeling

variable [LinearOrder P] [Sub P]

/-- The distance of a score from the threshold. -/
def distance (threshold : P) (row : MatchScoreItem P) : P :=
  if threshold ≤ row.matchProbability then row.matchProbability - threshold
  else threshold - row.matchProbability

/-- The scores of a band, nearest to the threshold first. -/
def nearest (threshold : P) (band : P × P) (rows : List (MatchScoreItem P)) :
    List (MatchScoreItem P) :=
  (rows.filter fun row => row.isActive && decide (band.1 ≤ row.matchProbability) &&
      decide (row.matchProbability ≤ band.2)).insertionSort
    fun first second => toLex (distance threshold first, first.pair) ≤
      toLex (distance threshold second, second.pair)

/-- The most rows that are fetched for labeling. -/
def maxFetched : ℕ := 800

/-- `uncertain_pairs`. -/
def uncertainPairs (threshold : P) (band : P × P) (labelled : Finset Pair) (limit : ℤ)
    (rows : List (MatchScoreItem P)) : List (MatchScoreItem P) :=
  let limit := clampLimit limit
  let wanted := limit + labelled.card
  let fetched := (nearest threshold band rows).take (max 1 (min wanted (maxLimit * 4))).toNat
  (fetched.filter fun row => row.pair ∉ labelled).take limit.toNat

/-- A session that labels every pair it is offered. -/
def labelSession (threshold : P) (band : P × P) (rows : List (MatchScoreItem P)) :
    Finset Pair → List ℤ → List (List (MatchScoreItem P))
  | _, [] => []
  | labelled, limit :: limits =>
      let offered := uncertainPairs threshold band labelled limit rows
      offered :: labelSession threshold band rows
        (labelled ∪ (offered.map MatchScoreItem.pair).toFinset) limits

omit [LinearOrder P] [Sub P] in
theorem length_le_filter_unlabelled (labelled : Finset Pair) {front : List (MatchScoreItem P)}
    (hunique : (front.map MatchScoreItem.pair).Nodup) :
    front.length ≤ (front.filter fun row => row.pair ∉ labelled).length + labelled.card := by
  have hsplit := List.length_eq_length_filter_add (l := front) fun row =>
    decide (row.pair ∉ labelled)
  have hlabelled : (front.filter fun row => !decide (row.pair ∉ labelled)).length ≤
      labelled.card := by
    rw [← List.length_map (f := MatchScoreItem.pair), ← List.toFinset_card_of_nodup
      (hunique.sublist (List.filter_sublist.map _))]
    apply Finset.card_le_card
    intro pair hpair
    rw [List.mem_toFinset, List.mem_map] at hpair
    obtain ⟨row, hrow, rfl⟩ := hpair
    simpa using (List.mem_filter.mp hrow).2
  omega

omit [LinearOrder P] [Sub P] in
/-- What is taken of the unlabelled rows of a long enough front is what is taken of them all. -/
theorem take_filter_take {scored : List (MatchScoreItem P)} {labelled : Finset Pair}
    {count wanted : ℕ}
    (hunique : (scored.map MatchScoreItem.pair).Nodup) (hwanted : count + labelled.card ≤ wanted) :
    ((scored.take wanted).filter fun row => row.pair ∉ labelled).take count =
      (scored.filter fun row => row.pair ∉ labelled).take count := by
  by_cases hshort : scored.length ≤ wanted
  · rw [List.take_of_length_le hshort]
  · have hfront := length_le_filter_unlabelled labelled
      (hunique.sublist ((List.take_sublist wanted scored).map _))
    rw [List.length_take, min_eq_left (by omega)] at hfront
    nth_rewrite 2 [← List.take_append_drop wanted scored]
    rw [List.filter_append, List.take_append_of_le_length (by omega)]

theorem uncertainPairs_eq {threshold : P} {band : P × P} {rows : List (MatchScoreItem P)}
    {labelled : Finset Pair} (hunique :
    ((nearest threshold band rows).map MatchScoreItem.pair).Nodup)
    (limit : ℤ) : uncertainPairs threshold band labelled limit rows =
      (((nearest threshold band rows).take maxFetched).filter fun row => row.pair ∉ labelled).take
        (clampLimit limit).toNat := by
  have hlimit := clampLimit_pos limit
  have hmax : (maxLimit * 4).toNat = maxFetched := rfl
  have hmaxInt : maxLimit * 4 = (maxFetched : ℤ) := rfl
  rw [uncertainPairs]
  by_cases hall : clampLimit limit + labelled.card ≤ maxLimit * 4
  · rw [min_eq_left hall, max_eq_right (by omega)]
    have hfront : (nearest threshold band rows).take (clampLimit limit + labelled.card).toNat =
        ((nearest threshold band rows).take maxFetched).take
          (clampLimit limit + labelled.card).toNat := by
      rw [List.take_take, min_eq_left (by omega)]
    rw [hfront]
    apply take_filter_take (hunique.sublist ((List.take_sublist _ _).map _))
    omega
  · have hpos : (1 : ℤ) ≤ maxLimit * 4 := by decide
    rw [min_eq_right (by omega), max_eq_right hpos, hmax]

omit [LinearOrder P] [Sub P] in
theorem filter_notMem_take {left : List (MatchScoreItem P)} (count : ℕ)
    (hdistinct : (left.map MatchScoreItem.pair).Nodup) :
    (left.filter fun row => row.pair ∉ (left.take count).map MatchScoreItem.pair) =
      left.drop count := by
  have hsplit := hdistinct
  rw [← List.take_append_drop count left, List.map_append, List.nodup_append] at hsplit
  have hfront : (left.take count).filter (fun row =>
      row.pair ∉ (left.take count).map MatchScoreItem.pair) = [] := by
    rw [List.filter_eq_nil_iff]
    intro row hrow
    have hmem := List.mem_map_of_mem (f := MatchScoreItem.pair) hrow
    simpa only [decide_not, Bool.not_eq_true', decide_eq_false_iff_not, not_not] using hmem
  have hback : (left.drop count).filter (fun row =>
      row.pair ∉ (left.take count).map MatchScoreItem.pair) = left.drop count := by
    rw [List.filter_eq_self]
    intro row hrow
    apply decide_eq_true
    intro hmem
    exact hsplit.2.2 _ hmem _ (List.mem_map_of_mem hrow) rfl
  have happend := List.filter_append
    (p := fun row => decide (row.pair ∉ (left.take count).map MatchScoreItem.pair))
    (left.take count) (left.drop count)
  rw [List.take_append_drop, hfront, hback, List.nil_append] at happend
  exact happend

/-- A labeling session ends. While the lake stays as it is, a session that labels what it is
offered goes through the unlabelled pairs nearest to the threshold in their order, each once, and
stops at the most rows that are fetched: no pair beyond the nearest 800 is ever offered. -/
theorem labelSession_flatten {threshold : P} {band : P × P} {rows : List (MatchScoreItem P)}
    (hunique : ((nearest threshold band rows).map MatchScoreItem.pair).Nodup)
    (labelled : Finset Pair) (limits : List ℤ) :
    (labelSession threshold band rows labelled limits).flatten =
      (((nearest threshold band rows).take maxFetched).filter fun row => row.pair ∉ labelled).take
        (limits.map fun limit => (clampLimit limit).toNat).sum := by
  induction limits generalizing labelled with
  | nil => simp [labelSession]
  | cons limit limits ih =>
      rw [labelSession, List.flatten_cons, ih, uncertainPairs_eq hunique, List.map_cons,
        List.sum_cons]
      obtain ⟨left, hleft⟩ : ∃ left, left = ((nearest threshold band rows).take maxFetched).filter
        fun row => row.pair ∉ labelled := ⟨_, rfl⟩
      have hdistinct : (left.map MatchScoreItem.pair).Nodup := by
        rw [hleft]
        exact hunique.sublist ((List.filter_sublist.trans (List.take_sublist _ _)).map _)
      have hnext : (((nearest threshold band rows).take maxFetched).filter fun row =>
          row.pair ∉ labelled ∪ ((left.take (clampLimit limit).toNat).map
            MatchScoreItem.pair).toFinset) = left.drop (clampLimit limit).toNat := by
        obtain ⟨offered, hoffered⟩ : ∃ offered, offered =
          (left.take (clampLimit limit).toNat).map MatchScoreItem.pair := ⟨_, rfl⟩
        have hrest := filter_notMem_take (clampLimit limit).toNat hdistinct
        rw [← hoffered] at hrest ⊢
        rw [← hrest, hleft, List.filter_filter]
        apply List.filter_congr
        intro row _
        rw [← Bool.decide_and, decide_eq_decide, Finset.mem_union, List.mem_toFinset, not_or,
          and_comm]
      rw [← hleft, hnext, List.take_add]

end Labeling

def sampleScore (recAKey recBKey modelVersion : String) (matchProbability : ℚ) :
    MatchScoreItem ℚ where
  recAKey := recAKey
  recBKey := recBKey
  matchProbability := matchProbability
  modelVersion := modelVersion
  evidence := "\x7b\x7d"
  isActive := true
  runId := "r1"
  scoredAt := 0

/-- Two pairs, one of which two members have scored. -/
def sampleScores : List (MatchScoreItem ℚ) :=
  [sampleScore "crm:1" "erp:2" "m1" (9 / 10), sampleScore "crm:1" "erp:2" "m2" (7 / 10),
    sampleScore "crm:3" "erp:4" "m1" (6 / 10)]

/-- An engine that sorts by pair. -/
def sortByPair (rows : List (MatchScoreItem ℚ)) : List (MatchScoreItem ℚ) :=
  rows.insertionSort fun first second => first.pair ≤ second.pair

theorem ordered_sortByPair (rows : List (MatchScoreItem ℚ)) :
    Ordered MatchScoreItem.pair rows (sortByPair rows) := by
  have : Std.Total fun first second : MatchScoreItem ℚ => first.pair ≤ second.pair :=
    ⟨fun first second => le_total first.pair second.pair⟩
  have : IsTrans (MatchScoreItem ℚ) fun first second => first.pair ≤ second.pair :=
    ⟨fun _ _ _ => le_trans⟩
  exact ⟨List.perm_insertionSort _ rows, List.pairwise_insertionSort _ rows⟩

def sampleReals : Reals ℚ where
  parse text := text.toInt?.map fun n => (n : ℚ)
  display value := toString value

theorem matchScores_complete_sampleScores : ∃ pages : List (List (MatchScoreItem ℚ)),
    Walk (fun request cursor => matchScoresList sampleCodec sampleReals id (fun _ => sortByPair)
      ⟨fun _ => .ok 7, fun _ => .ok sampleScores⟩ request
        (ask (fun _ => some "1") (fun _ => none) request cursor)) 0 none
          (pages.map fun items => items.map id) := by
  have hsep : ∀ row ∈ sampleScores, pairSep ∉ row.recAKey.toList := by decide
  obtain ⟨pages, hwalk, -⟩ := matchScores_complete id
    sampleCodec_sound sampleReals (fun _ => ordered_sortByPair) (fun _ => some "1")
      (fun _ => none) ⟨fun _ => .ok (7 : ℤ), fun _ => .ok sampleScores⟩ rfl rfl hsep
  exact ⟨pages, hwalk⟩

theorem labelSession_flatten_sampleScores :
    (labelSession (1 / 2 : ℚ) (0, 1) (sampleScores.drop 1) ∅ [1, 1, 1]).flatten =
      (((nearest (1 / 2 : ℚ) (0, 1) (sampleScores.drop 1)).take maxFetched).filter
        fun row => row.pair ∉ (∅ : Finset Pair)).take 3 :=
  labelSession_flatten (by decide +kernel) ∅ [1, 1, 1]

end EntityResolution.ReadApi
