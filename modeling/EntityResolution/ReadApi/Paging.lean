/-
# Lists by page

The lists of the read API are paged by the id of their rows. A request without a cursor reads the
lake as it is at that moment; the cursor of the answer names that snapshot and the last id, so the
requests that follow read the same snapshot, whatever is committed in between.

Nothing keeps two rows of one id out of a relation of the lake. A page may end between them, and the
second is then skipped; but no id is.
-/

import EntityResolution.Foundations.Base64
import EntityResolution.Foundations.Collections
import EntityResolution.Foundations.KeysetPaging
import EntityResolution.Foundations.Numerals
import EntityResolution.Golden.Survivorship

namespace EntityResolution.ReadApi

open EntityResolution.Collections EntityResolution.KeysetPaging EntityResolution.Numerals
open EntityResolution.Golden (trim)

variable {R V P : Type}

/-- `Cursor`. -/
structure Cursor where
  snapshot : ℤ
  key : String
  deriving DecidableEq

/-- The text of a cursor's document, written and read. What is read of a document are the integer at
`s` and the string at `k`. -/
structure Codec where
  toText : Cursor → String
  fromSlice : String → Option (Option ℤ × Option String)

/-- A document that is written is read back. -/
def Codec.Sound (codec : Codec) : Prop :=
  ∀ cursor, codec.fromSlice (codec.toText cursor) = some (some cursor.snapshot, some cursor.key)

variable (codec : Codec)

def encodeCursor (snapshot : ℤ) (key : String) : String :=
  Base64.encode (codec.toText ⟨snapshot, key⟩)

def decodeCursor (raw : String) : Option Cursor := do
  let bytes ← Base64.decode raw
  let doc ← codec.fromSlice bytes
  return ⟨← doc.1, ← doc.2⟩

variable {codec} in
theorem decodeCursor_encodeCursor (hcodec : codec.Sound) (snapshot : ℤ) (key : String) :
    decodeCursor codec (encodeCursor codec snapshot key) = some ⟨snapshot, key⟩ := by
  have hdoc := hcodec ⟨snapshot, key⟩
  simp [decodeCursor, encodeCursor, Base64.decode_encode, hdoc]

/-- The query parameters of a request. -/
abbrev Query := String → Option String

/-- The requests of a client that keeps its other parameters and takes each page at a limit of its
choice. -/
def ask (limits : ℕ → Option String) (fixed : Query) (request : ℕ)
    (cursor : Option String) : Query :=
  fun name => if name = "cursor" then cursor else if name = "limit" then limits request
    else fixed name

/-- A status and its text. -/
abbrev Refusal := ℕ × String

/-- What a request reads of the lake: the latest snapshot at the time of each request, and the
tables that a snapshot has. -/
structure Lake (T : Type) where
  latest : ℕ → Except String ℤ
  rows : ℤ → Except String T

def defaultLimit : ℤ := 50

def maxLimit : ℤ := 200

/-- `clamp(1, MAX_LIMIT)`. -/
def clampLimit (limit : ℤ) : ℤ := max 1 (min limit maxLimit)

def parseLimit (raw : Option String) : ℤ :=
  clampLimit ((raw.bind fun text => parseSigned 64 text.toList).getD defaultLimit)

inductive PageStartError
  | badCursor
  | lake (message : String)
  deriving DecidableEq

def pageStart (latest : Except String ℤ) : Option String → Except PageStartError (ℤ × Option String)
  | some raw =>
      match decodeCursor codec raw with
      | some cursor => .ok (cursor.snapshot, some cursor.key)
      | none => .error .badCursor
  | none => (latest.mapError .lake).map fun snapshot => (snapshot, none)

/-- The handlers' answer to a page that cannot be started. -/
def PageStartError.refusal : PageStartError → Refusal
  | .badCursor => (422, "invalid cursor")
  | .lake message => (503, "lake: " ++ message)

/-- `page_or_err`. -/
def pageOrErr (latest : Except String ℤ) (cursor : Option String) :
    Except Refusal (ℤ × Option String) :=
  (pageStart codec latest cursor).mapError PageStartError.refusal

/-- `SELECT … WHERE keep AND ($after IS NULL OR id > $after) ORDER BY id LIMIT $limit`. Rows of one
id come in the order that the engine has for this request. -/
def listPage (order : List (String × R) → List (String × R)) (keep : R → Bool)
    (after : Option String) (limit : ℕ) (rows : List (String × R)) : List (String × R) :=
  (order ((rows.filter fun row => keep row.2).filter fun row =>
    after.all fun k => k < row.1)).take limit

/-- `typed_page`, of rows that were fetched with one more than the limit. -/
def typedPage (toValue : R → V) (key : R → String) (rows : List R) (snapshot limit : ℤ) :
    List V × Option String :=
  let hasMore := decide (limit < rows.length)
  let kept := rows.take limit.toNat
  (kept.map toValue,
    if hasMore then kept.getLast?.map fun row => encodeCursor codec snapshot (key row) else none)

/-- `is_missing_table`. -/
def isMissingTable (err : String) : Bool :=
  decide ("does not exist".toList <:+: err.toList ∨ "Catalog Error".toList <:+: err.toList ∨
    "Table with name".toList <:+: err.toList)

/-- The readers of the lists: a page, or an empty one while the relation is not there. -/
def readPage (toValue : String × R → V) (order : List (String × R) → List (String × R))
    (keep : R → Bool) (rows : Except String (List (String × R))) (snapshot : ℤ)
    (after : Option String) (limit : ℤ) : Except String (List V × Option String) :=
  let limit := clampLimit limit
  match rows.map (listPage order keep after (limit + 1).toNat) with
  | .ok page => .ok (typedPage codec toValue Prod.fst page snapshot limit)
  | .error e => if isMissingTable e then .ok ([], none) else .error e

/-- The answer to a page that cannot be read. -/
def lakeRead {A : Type} (result : Except String A) : Except Refusal A :=
  result.mapError fun e => (503, "lake read: " ++ e)

/-- A row of the list of reviews, beside its id. -/
structure ReviewItem (P : Type) where
  subjectType : String
  recAKey : Option String
  recBKey : Option String
  entityId : Option String
  reason : String
  matchProbability : Option P
  waterfall : Option String
  status : String
  firstSeenRunId : String
  lastSeenRunId : String
  resolvedBy : Option String
  resolvedAt : Option ℤ

/-- `ReviewFilters`. -/
structure ReviewFilters (P : Type) where
  status : Option String
  reason : Option String
  minProbability : Option P
  maxProbability : Option P

section Reviews

variable [LE P] [DecidableLE P] [LT P] [DecidableLT P]

/-- The conditions of `review/read/page.sql`. -/
def ReviewFilters.keeps (filters : ReviewFilters P) (row : ReviewItem P) : Bool :=
  (filters.status.all fun status => row.status = status) &&
    (filters.reason.all fun reason => row.reason = reason) &&
      ((filters.minProbability.isNone && filters.maxProbability.isNone) ||
        row.matchProbability.any fun probability =>
          (filters.minProbability.all fun low => low ≤ probability) &&
            filters.maxProbability.all fun high => probability ≤ high)

/-- `read::reviews_list`. -/
def readReviews (toValue : String × ReviewItem P → V)
    (order : List (String × ReviewItem P) → List (String × ReviewItem P))
    (rows : Except String (List (String × ReviewItem P))) (snapshot : ℤ) (after : Option String)
    (filters : ReviewFilters P) (limit : ℤ) : Except String (List V × Option String) :=
  readPage codec toValue order filters.keeps rows snapshot after limit

/-- `unscored_open_reviews`. -/
def unscoredOpenReviews (rows : Except String (List (String × ReviewItem P))) :
    Except String ℕ :=
  match rows with
  | .ok rows => .ok (rows.countP fun row =>
      row.2.status = "open" && row.2.matchProbability.isNone)
  | .error e => if isMissingTable e then .ok 0 else .error e

/-- Reading and writing a probability. -/
structure Reals (P : Type) where
  parse : String → Option P
  display : P → String

/-- The answer of `reviews_list`. -/
structure ReviewsAnswer (V : Type) where
  items : List V
  snapshot : ℤ
  nextCursor : Option String
  unscoredHidden : ℕ

/-- The filters that a query asks for. -/
def reviewFilters (reals : Reals P) (params : Query) : ReviewFilters P :=
  let probability (key : String) := (params key).bind fun v => reals.parse (trim v)
  let text (key : String) := (params key).filter fun v => trim v ≠ ""
  { status := text "status"
    reason := text "reason"
    minProbability := probability "min_probability"
    maxProbability := probability "max_probability" }

/-- The bounds that are the wrong way round. -/
def ReviewFilters.inverted (filters : ReviewFilters P) : Option (P × P) :=
  match filters.minProbability, filters.maxProbability with
  | some lo, some hi => if hi < lo then some (lo, hi) else none
  | _, _ => none

/-- `reviews_list`. -/
def reviewsList (reals : Reals P) (toValue : String × ReviewItem P → V)
    (order : ℕ → List (String × ReviewItem P) → List (String × ReviewItem P))
    (lake : Lake (List (String × ReviewItem P))) (request : ℕ) (params : Query) :
    Except Refusal (ReviewsAnswer V) := do
  let (snapshot, after) ← pageOrErr codec (lake.latest request) (params "cursor")
  let limit := parseLimit (params "limit")
  let filters := reviewFilters reals params
  match filters.inverted with
  | some (lo, hi) =>
      .error (422, "min_probability " ++ reals.display lo ++ " is above max_probability " ++
        reals.display hi ++ "; the band is empty")
  | none => do
      let (items, nextCursor) ←
        lakeRead (readReviews codec toValue (order request) (lake.rows snapshot) snapshot after
          filters limit)
      let unscoredHidden :=
        if filters.minProbability.isSome || filters.maxProbability.isSome then
          (unscoredOpenReviews (lake.rows snapshot)).toOption.getD 0
        else 0
      return ⟨items, snapshot, nextCursor, unscoredHidden⟩

end Reviews

/-- A row of the list of assertions, beside its id. -/
structure AssertionItem where
  recAKey : String
  recBKey : String
  kind : String
  active : Bool
  createdBy : String
  createdAt : ℤ
  retractedBy : Option String
  retractedAt : Option ℤ
  note : Option String

/-- `read::assertions_list`. -/
def readAssertions (toValue : String × AssertionItem → V)
    (order : List (String × AssertionItem) → List (String × AssertionItem))
    (rows : Except String (List (String × AssertionItem))) (snapshot : ℤ)
    (includeRetracted : Bool) (after : Option String) (limit : ℤ) :
    Except String (List V × Option String) :=
  readPage codec toValue order (fun row => includeRetracted || row.active) rows snapshot after limit

def includeRetracted (params : Query) : Bool :=
  match params "include_retracted" with
  | some "true" | some "1" => true
  | _ => false

/-- `assertions_list`. -/
def assertionsList (toValue : String × AssertionItem → V)
    (order : ℕ → List (String × AssertionItem) → List (String × AssertionItem))
    (lake : Lake (List (String × AssertionItem))) (request : ℕ) (params : Query) :
    Except Refusal (List V × Option String) := do
  let (snapshot, after) ← pageOrErr codec (lake.latest request) (params "cursor")
  lakeRead (readAssertions codec toValue (order request) (lake.rows snapshot) snapshot
    (includeRetracted params) after (parseLimit (params "limit")))

/-! ### Imports -/

/-- A row of the list of imports, beside its id. -/
structure ImportItem where
  runId : String
  sourceSystem : String
  path : String
  newCount : ℤ
  changedCount : ℤ
  unchangedCount : ℤ
  tombstoneCount : ℤ
  resurrectedCount : ℤ
  fullRefreshKeys : Bool
  matchedCount : Option ℤ
  reviewCount : Option ℤ
  unmatchedCount : Option ℤ
  screenedAt : Option ℤ
  createdAt : ℤ

/-- An empty source is none. -/
def ofSource (source : Option String) (row : ImportItem) : Bool :=
  (source.filter (· ≠ "")).all fun name => row.sourceSystem = name

/-- `read::imports_list`. -/
def readImports (toValue : String × ImportItem → V)
    (order : List (String × ImportItem) → List (String × ImportItem))
    (rows : Except String (List (String × ImportItem))) (snapshot : ℤ)
    (source after : Option String) (limit : ℤ) : Except String (List V × Option String) :=
  readPage codec toValue order (ofSource source) rows snapshot after limit

/-- `imports_list`. -/
def importsList (toValue : String × ImportItem → V)
    (order : ℕ → List (String × ImportItem) → List (String × ImportItem))
    (lake : Lake (List (String × ImportItem))) (request : ℕ) (params : Query) :
    Except Refusal (List V × Option String) := do
  let (snapshot, after) ← pageOrErr codec (lake.latest request) (params "cursor")
  lakeRead (readImports codec toValue (order request) (lake.rows snapshot) snapshot
    (params "source") after (parseLimit (params "limit")))

/-- The rows of a relation that meet a condition. -/
def listing (keep : R → Bool) (rows : List (String × R)) : List (String × R) :=
  rows.filter fun row => keep row.2

theorem clampLimit_pos (limit : ℤ) : 0 < clampLimit limit :=
  lt_of_lt_of_le Int.one_pos (le_max_left _ _)

theorem typedPage_eq {toValue : R → V} {key : R → String} {rows : List R} {snapshot limit : ℤ}
    (hlimit : 0 < limit) : typedPage codec toValue key rows snapshot limit =
      ((page key limit.toNat rows).1.map toValue,
        (page key limit.toNat rows).2.map (encodeCursor codec snapshot)) := by
  have hmore : (limit < rows.length) ↔ (limit.toNat < rows.length) := by omega
  simp only [typedPage, page, decide_eq_true_eq, hmore]
  split_ifs
  · rw [Option.map_map]
    rfl
  · rfl

variable {codec}

/-- A reader serves the rows that meet its condition. -/
theorem serves_readPage (codec : Codec) (toValue : String × R → V)
    {order : List (String × R) → List (String × R)}
    (horder : ∀ rows, Ordered Prod.fst rows (order rows))
    (keep : R → Bool) (rows : List (String × R)) (snapshot : ℤ)
    (after : Option String) (limit : ℤ) :
    Serves Prod.fst (listing keep rows) toValue (encodeCursor codec snapshot)
      (readPage codec toValue order keep (.ok rows) snapshot after limit) after := by
  have hlimit := clampLimit_pos limit
  refine ⟨order (rowsAfter Prod.fst after (listing keep rows)), (clampLimit limit).toNat, by omega,
    horder _, ?_⟩
  have hfetched : listPage order keep after (clampLimit limit + 1).toNat rows =
      (order (rowsAfter Prod.fst after (listing keep rows))).take
        ((clampLimit limit).toNat + 1) := by
    rw [show (clampLimit limit + 1).toNat = (clampLimit limit).toNat + 1 by omega]
    rfl
  rw [← hfetched, ← typedPage_eq codec hlimit]
  rfl

/-- The pages of a reader, as its handler answers them. -/
theorem serves_handler {toValue : String × R → V} {order : List (String × R) → List (String × R)}
    (horder : ∀ rows, Ordered Prod.fst rows (order rows)) {keep : R → Bool}
    {rows : Except String (List (String × R))} {table : List (String × R)} {snapshot : ℤ}
    {after : Option String} (hrows : rows = .ok table) (limit : ℤ) :
    Serves Prod.fst (listing keep table) toValue (encodeCursor codec snapshot)
      (lakeRead (readPage codec toValue order keep rows snapshot after limit)) after := by
  obtain ⟨ordered, size, hsize, hordered, hanswer⟩ :=
    serves_readPage codec toValue horder keep table snapshot after limit
  refine ⟨ordered, size, hsize, hordered, ?_⟩
  rw [hrows, hanswer]
  rfl

/-- Where a request starts: at the snapshot and the key of its cursor. -/
theorem pageOrErr_encodeCursor (hcodec : codec.Sound) (latest : Except String ℤ) (snapshot : ℤ)
    (key : String) : pageOrErr codec latest (some (encodeCursor codec snapshot key)) =
      .ok (snapshot, some key) := by
  rw [pageOrErr, pageStart, decodeCursor_encodeCursor hcodec]
  rfl

theorem pageOrErr_none {latest : Except String ℤ} {snapshot : ℤ} (hlatest : latest = .ok snapshot) :
    pageOrErr codec latest none = .ok (snapshot, none) := by
  rw [hlatest]
  rfl

/-- A client that follows the cursors of a handler gets the listing of the snapshot where it
started, when each request that starts there is answered with the page after its key. -/
theorem follow_listing (hcodec : codec.Sound) {latest : ℕ → Except String ℤ} {snapshot : ℤ}
    (hlatest : latest 0 = .ok snapshot) {keep : R → Bool} {toValue : String × R → V}
    {table : List (String × R)}
    {fetch : ℕ → Option String → Except Refusal (List V × Option String)}
    (hserves : ∀ request cursor after,
      pageOrErr codec (latest request) cursor = .ok (snapshot, after) →
        Serves Prod.fst (listing keep table) toValue (encodeCursor codec snapshot)
          (fetch request cursor) after) :
    ∃ pages : List (List (String × R)),
      Walk fetch 0 none (pages.map fun items => items.map toValue) ∧
        ShowsAll Prod.fst (listing keep table) pages.flatten := by
  have hfirst := hserves 0 none none (pageOrErr_none hlatest)
  have hnext (request : ℕ) (row : String × R) (_ : row ∈ listing keep table) :=
    hserves request _ _ (pageOrErr_encodeCursor hcodec (latest request) snapshot row.1)
  obtain ⟨pages, hwalk, hshows⟩ := exists_walk fetch hnext 0 none hfirst
  exact ⟨pages, hwalk, hshows.all⟩

section Lists

variable [LE P] [DecidableLE P] [LT P] [DecidableLT P]

/-- The items and the cursor of an answer. -/
def ReviewsAnswer.page (answer : ReviewsAnswer V) : List V × Option String :=
  (answer.items, answer.nextCursor)

/-- Lists by page skip no id. A client that follows the cursors of the reviews, the assertions or
the imports gets to the end, at whatever limits it asks. It gets a row of every id among those of
the first snapshot that meet its filters, none twice, in the order of the ids, and every row where
no two have one id. -/
theorem lists_complete (hcodec : codec.Sound) (limits : ℕ → Option String) (fixed : Query)
    (snapshot : ℤ) :
    (∀ (reals : Reals P) (toValue : String × ReviewItem P → V)
      (order : ℕ → List (String × ReviewItem P) → List (String × ReviewItem P))
      (lake : Lake (List (String × ReviewItem P))) (rows : List (String × ReviewItem P)),
        (∀ request rows, Ordered Prod.fst rows (order request rows)) →
          lake.latest 0 = .ok snapshot → lake.rows snapshot = .ok rows →
            (reviewFilters reals fixed).inverted = none →
              ∃ pages : List (List (String × ReviewItem P)),
                Walk (fun request cursor => (reviewsList codec reals toValue order lake request
                  (ask limits fixed request cursor)).map ReviewsAnswer.page) 0 none
                    (pages.map fun items => items.map toValue) ∧
                  ShowsAll Prod.fst (listing (reviewFilters reals fixed).keeps rows)
                    pages.flatten) ∧
      (∀ (toValue : String × AssertionItem → V)
        (order : ℕ → List (String × AssertionItem) → List (String × AssertionItem))
        (lake : Lake (List (String × AssertionItem))) (rows : List (String × AssertionItem)),
          (∀ request rows, Ordered Prod.fst rows (order request rows)) →
            lake.latest 0 = .ok snapshot → lake.rows snapshot = .ok rows →
              ∃ pages : List (List (String × AssertionItem)),
                Walk (fun request cursor => assertionsList codec toValue order lake request
                  (ask limits fixed request cursor)) 0 none
                    (pages.map fun items => items.map toValue) ∧
                  ShowsAll Prod.fst (listing (fun row => includeRetracted fixed || row.active) rows)
                    pages.flatten) ∧
      ∀ (toValue : String × ImportItem → V)
        (order : ℕ → List (String × ImportItem) → List (String × ImportItem))
        (lake : Lake (List (String × ImportItem))) (rows : List (String × ImportItem)),
          (∀ request rows, Ordered Prod.fst rows (order request rows)) →
            lake.latest 0 = .ok snapshot → lake.rows snapshot = .ok rows →
              ∃ pages : List (List (String × ImportItem)),
                Walk (fun request cursor => importsList codec toValue order lake request
                  (ask limits fixed request cursor)) 0 none
                    (pages.map fun items => items.map toValue) ∧
                  ShowsAll Prod.fst (listing (ofSource (fixed "source")) rows) pages.flatten := by
  refine ⟨?_, ?_, ?_⟩
  · intro reals toValue order lake rows horder hlatest hrows hinverted
    apply follow_listing hcodec hlatest
    intro request cursor after hstart
    have hanswer :
        (reviewsList codec reals toValue order lake request (ask limits fixed request cursor)).map
            ReviewsAnswer.page =
          lakeRead (readReviews codec toValue (order request) (lake.rows snapshot) snapshot after
            (reviewFilters reals fixed) (parseLimit (limits request))) := by
      have hcursor : ask limits fixed request cursor "cursor" = cursor := rfl
      have hfilters : reviewFilters reals (ask limits fixed request cursor) =
          reviewFilters reals fixed := rfl
      have hlimit : ask limits fixed request cursor "limit" = limits request := rfl
      rw [reviewsList, hcursor, hstart, hfilters, hlimit]
      simp only [hinverted, bind, Except.bind]
      cases lakeRead (readReviews codec toValue (order request) (lake.rows snapshot) snapshot after
        (reviewFilters reals fixed) (parseLimit (limits request))) <;> rfl
    rw [hanswer]
    exact serves_handler (horder request) hrows _
  · intro toValue order lake rows horder hlatest hrows
    apply follow_listing hcodec hlatest
    intro request cursor after hstart
    have hanswer : assertionsList codec toValue order lake request
          (ask limits fixed request cursor) =
        lakeRead (readAssertions codec toValue (order request) (lake.rows snapshot) snapshot
            (includeRetracted fixed) after (parseLimit (limits request))) := by
      have hcursor : ask limits fixed request cursor "cursor" = cursor := rfl
      rw [assertionsList, hcursor, hstart]
      rfl
    rw [hanswer]
    exact serves_handler (horder request) hrows _
  · intro toValue order lake rows horder hlatest hrows
    apply follow_listing hcodec hlatest
    intro request cursor after hstart
    have hanswer : importsList codec toValue order lake request
          (ask limits fixed request cursor) =
        lakeRead (readImports codec toValue (order request) (lake.rows snapshot) snapshot
            (fixed "source") after (parseLimit (limits request))) := by
      have hcursor : ask limits fixed request cursor "cursor" = cursor := rfl
      rw [importsList, hcursor, hstart]
      rfl
    rw [hanswer]
    exact serves_handler (horder request) hrows _

end Lists

/-- The document of a cursor whose key needs no escapes, `k` first. It is taken apart at the last
colon, since no number has one. -/
def sampleCodec : Codec where
  toText cursor := String.ofList ((['\x7b', '\"', 'k', '\"', ':', '\"'] ++ cursor.key.toList ++
    ['\"', ',', '\"', 's', '\"']) ++ ':' :: cursor.snapshot.repr.toList ++ ['\x7d'])
  fromSlice text :=
    let back := text.toList.dropLast.reverse
    let number := (back.takeWhile (· ≠ ':')).reverse
    let front := (back.dropWhile (· ≠ ':')).tail.reverse
    some ((String.ofList number).toInt?, some (String.ofList ((front.drop 6).rdrop 5)))

theorem notMem_repr (n : ℤ) : ∀ c ∈ n.repr.toList, c ≠ ':' := by
  have hnat (n : ℕ) : ∀ c ∈ n.repr.toList, c ≠ ':' := by
    intro c hc hcolon
    rw [Nat.repr, String.toList_ofList] at hc
    have hdigit := Nat.isDigit_of_mem_toDigits (by decide) (by decide) hc
    rw [hcolon] at hdigit
    cases hdigit
  cases n with
  | ofNat n => exact hnat n
  | negSucc n =>
      intro c hc
      change c ∈ ("-" ++ (n + 1).repr).toList at hc
      rw [String.toList_append, List.mem_append] at hc
      cases hc with
      | inl hsign =>
          rintro rfl
          simp at hsign
      | inr hdigits => exact hnat _ c hdigits

/-- A text is taken apart at its last colon. -/
theorem reverse_split (front : List Char) {number : List Char} (hnumber : ∀ c ∈ number, c ≠ ':') :
    (front ++ ':' :: number).reverse.takeWhile (· ≠ ':') = number.reverse ∧
      (front ++ ':' :: number).reverse.dropWhile (· ≠ ':') = ':' :: front.reverse := by
  have hback : (front ++ ':' :: number).reverse = number.reverse ++ ':' :: front.reverse := by simp
  have hdigits : ∀ c ∈ number.reverse, decide (c ≠ ':') = true :=
    fun c hc => decide_eq_true (hnumber c (List.mem_reverse.mp hc))
  rw [hback, List.takeWhile_append_of_pos hdigits, List.dropWhile_append_of_pos hdigits]
  simp

theorem sampleCodec_sound : sampleCodec.Sound := by
  intro cursor
  obtain ⟨htake, hdrop⟩ := reverse_split
    (['\x7b', '\"', 'k', '\"', ':', '\"'] ++ cursor.key.toList ++ ['\"', ',', '\"', 's', '\"'])
    (notMem_repr cursor.snapshot)
  have hkey : (((['\x7b', '\"', 'k', '\"', ':', '\"'] ++ cursor.key.toList ++
      ['\"', ',', '\"', 's', '\"']).drop 6).rdrop 5) = cursor.key.toList := by
    change (cursor.key.toList ++ ['\"', ',', '\"', 's', '\"']).rdrop 5 = _
    simp [List.rdrop]
  simp only [sampleCodec, String.toList_ofList, List.dropLast_concat, htake, hdrop, List.tail_cons,
    List.reverse_reverse, hkey, String.ofList_toList, Int.toInt?_repr]

def sampleAssertion : AssertionItem where
  recAKey := "crm:1"
  recBKey := "crm:2"
  kind := "never"
  active := true
  createdBy := "steward"
  createdAt := 0
  retractedBy := none
  retractedAt := none
  note := none

/-- Three assertions, two of them of one id, and a commit between any two requests. -/
def sampleLake : Lake (List (String × AssertionItem)) where
  latest request := .ok (7 + request)
  rows _ := .ok [("a1", sampleAssertion), ("a2", sampleAssertion),
    ("a1", { sampleAssertion with createdBy := "reviewer" })]

/-- An engine that sorts by id. -/
def sortById (rows : List (String × R)) : List (String × R) :=
  rows.insertionSort fun first second => first.1 ≤ second.1

theorem ordered_sortById (rows : List (String × R)) : Ordered Prod.fst rows (sortById rows) := by
  have : Std.Total fun first second : String × R => first.1 ≤ second.1 :=
    ⟨fun first second => le_total first.1 second.1⟩
  have : IsTrans (String × R) fun first second => first.1 ≤ second.1 := ⟨fun _ _ _ => le_trans⟩
  exact ⟨List.perm_insertionSort _ rows, List.pairwise_insertionSort _ rows⟩

theorem lists_complete_sampleLake : ∃ pages : List (List (String × AssertionItem)),
    Walk (fun request cursor => assertionsList sampleCodec id (fun _ => sortById) sampleLake request
      (ask (fun _ => some "1") (fun _ => none) request cursor)) 0 none
        (pages.map fun items => items.map id) ∧
      ∃ other ∈ pages.flatten, other.1 = "a1" := by
  obtain ⟨pages, hwalk, hall⟩ := (lists_complete (P := ℚ) sampleCodec_sound (fun _ => some "1")
    (fun _ => none) 7).2.1 id (fun _ => sortById) sampleLake _ (fun _ => ordered_sortById) rfl rfl
  exact ⟨pages, hwalk, hall.keys ("a1", sampleAssertion)
    (List.mem_filter.mpr ⟨List.mem_cons_self, rfl⟩)⟩

end EntityResolution.ReadApi
