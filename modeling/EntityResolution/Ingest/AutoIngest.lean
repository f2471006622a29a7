/-
# What the poller picks

A tenant drops files under a prefix of a bucket, and a poll of one source takes the newest of them
that is a delivery. The choice is by the time of the last change and then by key, so it depends
neither on the order of the listing nor on how it is split into pages; a listing that is not
complete is refused.
-/

import Mathlib

namespace EntityResolution.Ingest

/-- `Drop`. -/
structure Drop where
  key : String
  source : String
  size : ℤ
  deriving DecidableEq

/-- `Skipped`. -/
inductive Skipped
  | notAFile (key : String)
  | wrongExtension (key : String)
  | empty (key : String)
  | tooLarge (key : String) (size : ℤ)
  | noSource (key : String)
  deriving DecidableEq

/-- `MAX_OBJECT_BYTES`. -/
def maxObjectBytes : ℤ := 256 * 1024 * 1024

/-- `key.strip_prefix(prefix).unwrap_or(key).trim_start_matches('/')`. -/
def belowPrefix (key root : List Char) : List Char :=
  ((key.dropPrefix? root).getD key).dropWhile (· = '/')

/-- `classify`. The first segment is the source and the last one after it the file. -/
def classify (key : String) (size : ℤ) (root : String) : Except Skipped Drop :=
  if ['/'] <:+ key.toList then .error (.notAFile key)
  else
    let segments := (belowPrefix key.toList root.toList).splitOn '/'
    let source := String.ofList (segments.head?.getD [])
    let file := String.ofList (segments.tail.getLast?.getD [])
    if source = "" ∨ file = "" ∨ source = file then .error (.noSource key)
    else if ¬ ".csv".toList <:+ (file.toList.map Char.toLower) then .error (.wrongExtension key)
    else if size ≤ 0 then .error (.empty key)
    else if maxObjectBytes < size then .error (.tooLarge key size)
    else .ok ⟨key, source, size⟩

/-- What is accepted has the key and the size of the object, and a size within the bounds. -/
theorem classify_eq_ok {key root : String} {size : ℤ} {drop : Drop}
    (hok : classify key size root = .ok drop) :
    drop.key = key ∧ drop.size = size ∧ 0 < size ∧ size ≤ maxObjectBytes := by
  unfold classify at hok
  by_cases hmarker : ['/'] <:+ key.toList
  · rw [if_pos hmarker] at hok
    cases hok
  rw [if_neg hmarker] at hok
  extract_lets segments source file at hok
  by_cases hsource : source = "" ∨ file = "" ∨ source = file
  · rw [if_pos hsource] at hok
    cases hok
  rw [if_neg hsource] at hok
  by_cases hcsv : ¬ ".csv".toList <:+ (file.toList.map Char.toLower)
  · rw [if_pos hcsv] at hok
    cases hok
  rw [if_neg hcsv] at hok
  by_cases hempty : size ≤ 0
  · rw [if_pos hempty] at hok
    cases hok
  rw [if_neg hempty] at hok
  by_cases hlarge : maxObjectBytes < size
  · rw [if_pos hlarge] at hok
    cases hok
  rw [if_neg hlarge] at hok
  cases hok
  exact ⟨rfl, rfl, not_le.mp hempty, not_lt.mp hlarge⟩

/-- `Listed`. -/
structure Listed where
  drop : Drop
  modified : ℤ
  etag : Option String
  deriving DecidableEq

/-- The order by which an object is chosen. -/
def Listed.rank (listed : Listed) : Lex (ℤ × String) := toLex (listed.modified, listed.drop.key)

/-- `max_by`, which keeps the last of the greatest. -/
def keepNewest (best : Option Listed) (listed : Listed) : Option Listed :=
  match best with
  | none => some listed
  | some kept => if kept.rank ≤ listed.rank then some listed else best

/-- `newest`. -/
def newest (listed : List Listed) : Option (Drop × Option String) :=
  (listed.foldl keepNewest none).map fun listed => (listed.drop, listed.etag)

theorem foldl_keepNewest (listed : List Listed) (best : Option Listed) :
    ∀ kept, listed.foldl keepNewest best = some kept →
      (kept ∈ listed ∨ best = some kept) ∧ (∀ other ∈ listed, other.rank ≤ kept.rank) ∧
        ∀ first, best = some first → first.rank ≤ kept.rank := by
  induction listed generalizing best with
  | nil =>
      intro kept hkept
      refine ⟨.inr hkept, by simp, ?_⟩
      intro first hfirst
      rw [List.foldl_nil, hfirst, Option.some_inj] at hkept
      rw [hkept]
  | cons head listed ih =>
      intro kept hkept
      obtain ⟨hmem, hrest, hbest⟩ := ih _ kept hkept
      cases best with
      | none =>
          have hhead := hbest head rfl
          refine ⟨.inl ?_, ?_, fun first hfirst => by cases hfirst⟩
          · cases hmem with
            | inl hin => exact List.mem_cons_of_mem _ hin
            | inr hsame =>
                cases hsame
                exact List.mem_cons_self
          · intro other hother
            cases List.mem_cons.mp hother with
            | inl hsame => rw [hsame]; exact hhead
            | inr hin => exact hrest other hin
      | some first =>
          rw [keepNewest] at hmem hbest
          by_cases hnewer : first.rank ≤ head.rank
          · rw [if_pos hnewer] at hmem hbest
            have hhead := hbest head rfl
            refine ⟨.inl ?_, ?_, ?_⟩
            · cases hmem with
              | inl hin => exact List.mem_cons_of_mem _ hin
              | inr hsame =>
                  cases hsame
                  exact List.mem_cons_self
            · intro other hother
              cases List.mem_cons.mp hother with
              | inl hsame => rw [hsame]; exact hhead
              | inr hin => exact hrest other hin
            · rintro other ⟨⟩
              exact hnewer.trans hhead
          · rw [if_neg hnewer] at hmem hbest
            have hfirst := hbest first rfl
            refine ⟨?_, ?_, ?_⟩
            · cases hmem with
              | inl hin => exact .inl (List.mem_cons_of_mem _ hin)
              | inr hsame => exact .inr hsame
            · intro other hother
              cases List.mem_cons.mp hother with
              | inl hsame =>
                  rw [hsame]
                  exact (not_le.mp hnewer).le.trans hfirst
              | inr hin => exact hrest other hin
            · rintro other ⟨⟩
              exact hfirst

theorem isSome_foldl_keepNewest (listed : List Listed) (best : Option Listed)
    (hsome : best.isSome = true ∨ listed ≠ []) :
    (listed.foldl keepNewest best).isSome = true := by
  induction listed generalizing best with
  | nil =>
      cases hsome with
      | inl hbest => exact hbest
      | inr hne => exact absurd rfl hne
  | cons head listed ih =>
      apply ih
      left
      cases best with
      | none => rfl
      | some kept =>
          rw [keepNewest]
          split <;> rfl

theorem newest_eq_some_iff {listed : List Listed}
    (hkeys : (listed.map fun entry => entry.drop.key).Nodup) {drop : Drop} {etag : Option String} :
    newest listed = some (drop, etag) ↔ ∃ kept ∈ listed, kept.drop = drop ∧ kept.etag = etag ∧
      ∀ other ∈ listed, other.rank ≤ kept.rank := by
  rw [newest, Option.map_eq_some_iff]
  constructor
  · rintro ⟨kept, hkept, hpair⟩
    obtain ⟨hmem, hrest, -⟩ := foldl_keepNewest listed none kept hkept
    cases hpair
    cases hmem with
    | inl hin => exact ⟨kept, hin, rfl, rfl, hrest⟩
    | inr hnone => cases hnone
  · rintro ⟨kept, hin, rfl, rfl, hrest⟩
    have hsome := isSome_foldl_keepNewest listed none (.inr (List.ne_nil_of_mem hin))
    obtain ⟨found, hfound⟩ := Option.isSome_iff_exists.mp hsome
    obtain ⟨hmem, hgreatest, -⟩ := foldl_keepNewest listed none found hfound
    have hfoundIn : found ∈ listed := by
      cases hmem with
      | inl hin => exact hin
      | inr hnone => cases hnone
    have hrank : found.rank = kept.rank := le_antisymm (hrest found hfoundIn) (hgreatest kept hin)
    have hkey : found.drop.key = kept.drop.key := congrArg (fun rank => (ofLex rank).2) hrank
    have hsame := List.inj_on_of_nodup_map hkeys hfoundIn hin hkey
    rw [hsame] at hfound
    exact ⟨kept, hfound, rfl⟩

theorem newest_perm {listed others : List Listed}
    (hkeys : (listed.map fun entry => entry.drop.key).Nodup) (hperm : others.Perm listed) :
    newest others = newest listed := by
  have hothers : (others.map fun entry => entry.drop.key).Nodup :=
    (hperm.map _).nodup_iff.mpr hkeys
  ext ⟨drop, etag⟩
  rw [newest_eq_some_iff hothers, newest_eq_some_iff hkeys]
  simp only [hperm.mem_iff]

/-- An object as the listing has it. -/
structure S3Object where
  key : Option String
  size : Option ℤ
  lastModified : Option ℤ
  eTag : Option String
  deriving DecidableEq

/-- The error of the watcher when a listing goes on and on. -/
inductive WatchError
  | prefixTooLarge (bucket root : String) (examined : ℕ)
  deriving DecidableEq

/-- `MAX_LIST_PAGES`. -/
def maxListPages : ℕ := 10

/-- The prefix that is listed for a source. -/
def sourcePrefix (root source : String) : String :=
  String.ofList (root.toList.rdropWhile (· = '/')) ++ "/" ++ source ++ "/"

/-- An object of a page, if it has a key: classified, or passed over. -/
def listedOf (root : String) (object : S3Object) : Option (Except Skipped Listed) :=
  object.key.map fun key =>
    (classify key (object.size.getD 0) root).map fun drop =>
      ⟨drop, object.lastModified.getD 0, object.eTag⟩

/-- The objects of some pages that are deliveries. -/
def accepted (root : String) (objects : List S3Object) : List Listed :=
  objects.filterMap fun object => (listedOf root object).bind Except.toOption

/-- The objects that are passed over, and why. -/
def passedOver (root : String) (objects : List S3Object) : List Skipped :=
  objects.filterMap fun object =>
    match listedOf root object with
    | some (.error why) => some why
    | _ => none

/-- The loop over the pages of a listing, of which each but the last says that it is truncated. -/
def readPages (bucket root source : String) : ℕ → List (List S3Object) → List Listed →
    List Skipped →
    ℕ → Except WatchError (Option (Drop × Option String)) × List Skipped
  | 0, _, _, skipped, examined =>
      (.error (.prefixTooLarge bucket (sourcePrefix root source) examined), skipped)
  | _ + 1, [], listed, skipped, _ => (.ok (newest listed), skipped)
  | budget + 1, page :: pages, listed, skipped, examined =>
      let listed := listed ++ accepted root page
      let skipped := skipped ++ passedOver root page
      if pages = [] then (.ok (newest listed), skipped)
      else readPages bucket root source budget pages listed skipped
        (examined + (page.filter fun object => object.key.isSome).length)

/-- `Watcher::newest`. -/
def watcherNewest (bucket root source : String) (pages : List (List S3Object)) :
    Except WatchError (Option (Drop × Option String)) × List Skipped :=
  readPages bucket root source maxListPages pages [] [] 0

/-- The keys of the deliveries are among those of the objects, in their order. -/
theorem keys_accepted_sublist (root : String) (objects : List S3Object) :
    ((accepted root objects).map fun entry => entry.drop.key).Sublist
      (objects.filterMap S3Object.key) := by
  induction objects with
  | nil => exact List.Sublist.slnil
  | cons object objects ih =>
      cases hkey : object.key with
      | none =>
          rw [accepted, List.filterMap_cons_none (by rw [listedOf, hkey]; rfl),
            List.filterMap_cons_none hkey]
          exact ih
      | some key =>
          rw [List.filterMap_cons_some hkey]
          cases hclass : classify key (object.size.getD 0) root with
          | error why =>
              rw [accepted, List.filterMap_cons_none
                (by rw [listedOf, hkey, Option.map_some, hclass]; rfl)]
              exact ih.cons _
          | ok drop =>
              rw [accepted, List.filterMap_cons_some
                (by rw [listedOf, hkey, Option.map_some, hclass]; rfl),
                List.map_cons, (classify_eq_ok hclass).1]
              exact ih.cons_cons _

theorem nodup_accepted {root : String} {objects : List S3Object}
    (hkeys : (objects.filterMap S3Object.key).Nodup) :
    ((accepted root objects).map fun entry => entry.drop.key).Nodup :=
  hkeys.sublist (keys_accepted_sublist root objects)

theorem accepted_perm (root : String) {objects others : List S3Object}
    (hperm : objects.Perm others) : (accepted root objects).Perm (accepted root others) :=
  hperm.filterMap _

theorem accepted_append (root : String) (first second : List S3Object) :
    accepted root (first ++ second) = accepted root first ++ accepted root second :=
  List.filterMap_append

/-- A listing is read as a whole, or refused. -/
theorem readPages_fst (bucket root source : String) (budget : ℕ) (pages : List (List S3Object))
    (listed : List Listed) (skipped : List Skipped) (examined : ℕ) (hbudget : 0 < budget) :
    (readPages bucket root source budget pages listed skipped examined).1 =
      if pages.length ≤ budget then .ok (newest (listed ++ accepted root pages.flatten))
      else .error (.prefixTooLarge bucket (sourcePrefix root source) (examined +
        ((pages.take budget).flatten.filter fun object => object.key.isSome).length)) := by
  induction pages generalizing budget listed skipped examined with
  | nil =>
      obtain ⟨budget, rfl⟩ := Nat.exists_eq_succ_of_ne_zero hbudget.ne'
      simp [readPages, accepted]
  | cons page pages ih =>
      obtain ⟨budget, rfl⟩ := Nat.exists_eq_succ_of_ne_zero hbudget.ne'
      rw [readPages]
      by_cases hlast : pages = []
      · subst hlast
        simp
      · rw [if_neg hlast]
        have hpages : 0 < pages.length := List.length_pos_iff.mpr hlast
        cases budget with
        | zero =>
            rw [readPages, if_neg (by rw [List.length_cons]; omega)]
            simp
        | succ budget =>
            rw [ih _ _ _ _ (Nat.succ_pos _), List.length_cons, List.flatten_cons, accepted_append,
              List.append_assoc, List.take_succ_cons, List.flatten_cons, List.filter_append,
              List.length_append, Nat.add_assoc]
            simp only [Nat.succ_eq_add_one, Nat.add_le_add_iff_right]

/-- The choice of the poller. A listing of at most ten pages, in whatever order and however it is
split, yields the delivery that was changed last, the greatest key among those changed at one time;
a longer one is refused, and nothing is taken from the part that was seen. -/
theorem watcherNewest_chooses (bucket root source : String) {pages : List (List S3Object)}
    (hkeys : (pages.flatten.filterMap S3Object.key).Nodup) :
    (pages.length ≤ maxListPages → ∃ found, (watcherNewest bucket root source pages).1 = .ok found ∧
      (∀ drop etag, found = some (drop, etag) ↔ ∃ kept ∈ accepted root pages.flatten,
        kept.drop = drop ∧ kept.etag = etag ∧
          ∀ other ∈ accepted root pages.flatten, other.rank ≤ kept.rank) ∧
      ∀ other : List (List S3Object), other.flatten.Perm pages.flatten →
        other.length ≤ maxListPages → (watcherNewest bucket root source other).1 = .ok found) ∧
    (maxListPages < pages.length → ∃ examined, (watcherNewest bucket root source pages).1 =
      .error (.prefixTooLarge bucket (sourcePrefix root source) examined)) := by
  constructor
  · intro hpages
    refine ⟨newest (accepted root pages.flatten), ?_, ?_, ?_⟩
    · rw [watcherNewest, readPages_fst _ _ _ _ _ _ _ _ (by decide), if_pos hpages, List.nil_append]
    · intro drop etag
      exact newest_eq_some_iff (nodup_accepted hkeys)
    · intro other hperm hother
      rw [watcherNewest, readPages_fst _ _ _ _ _ _ _ _ (by decide), if_pos hother, List.nil_append,
        newest_perm (nodup_accepted hkeys) (accepted_perm root hperm)]
  · intro hpages
    have hread := readPages_fst bucket root source maxListPages pages [] [] 0 (by decide)
    rw [if_neg (not_le.mpr hpages)] at hread
    exact ⟨_, hread⟩

def sampleObject (key : String) (modified : ℤ) : S3Object :=
  ⟨some key, some 10, some modified, some ("tag of " ++ key)⟩

/-- Two files of one second, on two pages, and one that is no delivery. -/
def sampleListingPages : List (List S3Object) :=
  [[sampleObject "acme/crm/a.csv" 7, sampleObject "acme/crm/b.csv" 7],
    [sampleObject "acme/crm/notes.json" 9]]

theorem watcherNewest_chooses_sampleListingPages :
    (watcherNewest "bucket" "acme" "crm" sampleListingPages).1 =
        .ok (some (⟨"acme/crm/b.csv", "crm", 10⟩, some "tag of acme/crm/b.csv")) ∧
      (watcherNewest "bucket" "acme" "crm" sampleListingPages.reverse).1 =
        .ok (some (⟨"acme/crm/b.csv", "crm", 10⟩, some "tag of acme/crm/b.csv")) := by
  have hkeys : (sampleListingPages.flatten.filterMap S3Object.key).Nodup := by decide +kernel
  obtain ⟨found, hfound, hchosen, hperm⟩ :=
    (watcherNewest_chooses "bucket" "acme" "crm" hkeys).1 (by decide)
  have hlast : ∃ kept ∈ accepted "acme" sampleListingPages.flatten,
      kept.drop = ⟨"acme/crm/b.csv", "crm", 10⟩ ∧ kept.etag = some "tag of acme/crm/b.csv" ∧
        ∀ other ∈ accepted "acme" sampleListingPages.flatten, other.rank ≤ kept.rank := by
    decide +kernel
  rw [(hchosen _ _).mpr hlast] at hfound hperm
  exact ⟨hfound, hperm _ (by decide +kernel) (by decide)⟩

end EntityResolution.Ingest
