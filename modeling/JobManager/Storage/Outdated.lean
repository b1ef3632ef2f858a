import JobManager.Storage.Listing

/-!
# The cleanup listing is exact

The cleanup asks for the iterations of a job at or below a boundary.  Iterations are
inverted in their keys, so these are the keys from some key on; a provider that includes
the key it starts at is given the boundary's own key, one that excludes it the key before.
Objects of another codec lie among them and are skipped.

Main results:

- Theorem {lit}`listJobOutdatedIterations_exact`: whatever is stored and however it is paged,
  the listing ends and names the stored iterations at or below the boundary, each once.
- Theorem {lit}`pagedProvider_listsKeys`: a provider that pages through its sorted keys is one
  the listing is exact over.
-/

namespace JobManager

/-! ## What is stored and how it is listed -/

/-- Every object stored under the prefix of state objects was written as an iteration of one
of the jobs, by either codec. -/
def WrittenByCodecs (paths : JobPaths) (codes : List String) (contents : Contents) : Prop :=
  ∀ key, (contents key).isSome → paths.pathPrefix.toList ++ ['/'] <+: key.toList →
    ∃ code ∈ codes, ∃ codec : JobStateCodecKind, ∃ n ≤ u64Max,
      key = JobPaths.buildJobIterationPath { paths with codec := codec } code n

/-- The key is not before the boundary a listing starts at, byte by byte. -/
def ListingStartBound.Admits (key : String) : ListingStartBound → Option String → Prop
  | _, none => True
  | .inclusive, some startKey => ¬Utf8.bytes key < Utf8.bytes startKey
  | .exclusive, some startKey => Utf8.bytes startKey < Utf8.bytes key

/-- The provider lists the stored keys under a directory in ascending byte order, from the
boundary it was given or from earlier, in pages that end anywhere. -/
def Backend.ListsKeys (store : Backend) (contents : Contents) : Prop :=
  ∀ request, request.cursor = none → 0 < request.pageSize →
    ∃ listed, store.Pages request listed ∧
      ((listed.map ListedObject.key).Pairwise fun a b => Utf8.bytes a < Utf8.bytes b) ∧
      (∀ object ∈ listed, (contents object.key).isSome ∧
        request.directory.toList <+: object.key.toList) ∧
      ∀ key, (contents key).isSome → request.directory.toList <+: key.toList →
        store.listingStartBound.Admits key request.startKey →
        key ∈ listed.map ListedObject.key

theorem ListingStartBound.admits_iff {key : String} {bound : ListingStartBound}
    {startKey : Option String} : bound.Admits key startKey ↔ bound.Reaches key startKey := by
  cases startKey with
  | none => exact Iff.rfl
  | some startKey =>
      cases bound with
      | inclusive => exact (not_congr Utf8.bytes_lt_iff).trans not_lt
      | exclusive => exact Utf8.bytes_lt_iff

/-! ## Keys of the job -/

section OneJob

variable {paths : JobPaths} {codes : List String} {contents : Contents} {code : String}
  {store : Backend} {boundary : Nat}

/-- Where no stored code extends that of the job, a stored key of its directory that is read
as an iteration is the key of that iteration of the job. -/
theorem WrittenByCodecs.own (hwritten : WrittenByCodecs paths codes contents)
    (hseparated : ∀ code' ∈ codes, ¬JobPaths.Extends code code') {key : String} {i : Nat}
    (hkey : (contents key).isSome) (hunder : (paths.buildJobPrefix code).toList <+: key.toList)
    (hparse : paths.parseIterNum key = .ok i) :
    i ≤ u64Max ∧ key = paths.buildJobIterationPath code i := by
  have hstates : paths.pathPrefix.toList ++ ['/'] <+: (paths.buildJobPrefix code).toList := by
    simp [JobPaths.buildJobPrefix]
  obtain ⟨code', hcode', codec, n, hn, rfl⟩ := hwritten key hkey (hstates.trans hunder)
  by_cases hcodec : codec = paths.codec
  · subst hcodec
    rw [paths.parseIterNum_buildJobIterationPath code' hn] at hparse
    rw [← Except.ok.inj hparse]
    rcases (paths.under_buildJobPrefix code n).mp hunder with rfl | hextends
    · exact ⟨hn, rfl⟩
    · exact absurd hextends (hseparated code' hcode')
  · -- an object of the other codec is read as no iteration
    obtain ⟨message, hforeign⟩ := paths.parseIterNum_foreign code' n hcodec
    rw [hforeign] at hparse
    cases hparse

/-- The start key stands before every key at or below the boundary, as the provider's bound
understands it. -/
theorem buildListingStartKey_admits (paths : JobPaths) (store : Backend) (code : String)
    (hboundary : boundary < u64Max) :
    ∃ startKey, buildListingStartKey paths store code boundary = .ok startKey ∧
      ∀ i ≤ boundary,
        store.listingStartBound.Admits (paths.buildJobIterationPath code i) (some startKey) := by
  rw [buildListingStartKey]
  cases store.listingStartBound with
  | inclusive =>
      refine ⟨_, rfl, fun i hi => ?_⟩
      rw [ListingStartBound.Admits, Utf8.bytes_lt_iff,
        paths.buildJobIterationPath_lt_iff code (Nat.le_of_lt hboundary) (by omega)]
      omega
  | exclusive =>
      refine ⟨_, if_pos hboundary, fun i hi => ?_⟩
      rw [ListingStartBound.Admits, Utf8.bytes_lt_iff,
        paths.buildJobIterationPath_lt_iff code (by omega) hboundary]
      omega

theorem outdated_eq_some {read : Except StorageError Nat} {i : Nat} :
    (match read with
      | .ok iterNum => if iterNum ≤ boundary then some iterNum else none
      | .error _ => none) = some i ↔ read = .ok i ∧ i ≤ boundary := by
  cases read with
  | error e => simp
  | ok n =>
      by_cases hn : n ≤ boundary
      · simp only [if_pos hn, Option.some.injEq, Except.ok.injEq]
        constructor
        · rintro rfl
          exact ⟨rfl, hn⟩
        · exact And.left
      · simp only [if_neg hn, Except.ok.injEq]
        constructor
        · rintro ⟨⟩
        · rintro ⟨rfl, hle⟩
          exact absurd hle hn

/-- What is outdated of a page is what it lists behind the boundary. -/
theorem mem_outdatedIterNums {listed : List ListedObject} {i : Nat} :
    i ∈ outdatedIterNums paths boundary listed ↔
      ∃ object ∈ listed, paths.parseIterNum object.key = .ok i ∧ i ≤ boundary := by
  rw [outdatedIterNums, List.mem_filterMap]
  exact exists_congr fun object => and_congr_right fun _ => outdated_eq_some

/-- Ascending keys of the job give its iterations newest first. -/
theorem outdatedIterNums_descending {listed : List ListedObject}
    (hsorted : (listed.map ListedObject.key).Pairwise fun a b => Utf8.bytes a < Utf8.bytes b)
    (hown : ∀ object ∈ listed, ∀ i, paths.parseIterNum object.key = .ok i →
      i ≤ u64Max ∧ object.key = paths.buildJobIterationPath code i) :
    (outdatedIterNums paths boundary listed).Pairwise (· > ·) := by
  rw [outdatedIterNums, List.pairwise_filterMap]
  refine (List.pairwise_map.mp hsorted).imp_of_mem ?_
  intro first second hfirst hsecond hlt i hi j hj
  obtain ⟨hiMax, hiKey⟩ := hown first hfirst i (outdated_eq_some.mp hi).1
  obtain ⟨hjMax, hjKey⟩ := hown second hsecond j (outdated_eq_some.mp hj).1
  rw [hiKey, hjKey, Utf8.bytes_lt_iff, paths.buildJobIterationPath_lt_iff code hjMax hiMax] at hlt
  exact hlt

/-- The cleanup listing is exact: whatever iterations of whatever codec are stored, as long as
no stored code extends that of the job, and however the provider pages them, it ends and names
the stored iterations of this codec at or below the boundary, each once. -/
theorem listJobOutdatedIterations_exact (hwritten : WrittenByCodecs paths codes contents)
    (hseparated : ∀ code' ∈ codes, ¬JobPaths.Extends code code')
    (hlists : store.ListsKeys contents) (hsize : 0 < store.listPageSize)
    (hboundary : boundary < u64Max) :
    ∃ iterNums,
      (∃ pages, ∀ fuel ≥ pages,
        listJobOutdatedIterations paths store code boundary fuel = some (.ok iterNums)) ∧
      iterNums.Nodup ∧
      ∀ i, i ∈ iterNums ↔ SavedFor paths contents code i ∧ i ≤ boundary := by
  obtain ⟨startKey, hstart, hadmits⟩ := buildListingStartKey_admits paths store code hboundary
  obtain ⟨listed, hpages, hsorted, hsound, hcomplete⟩ := hlists
    { directory := paths.buildJobPrefix code, startKey := some startKey
      pageSize := store.listPageSize, cursor := none } rfl hsize
  have hown : ∀ object ∈ listed, ∀ i, paths.parseIterNum object.key = .ok i →
      i ≤ u64Max ∧ object.key = paths.buildJobIterationPath code i := by
    intro object hobject i hparse
    obtain ⟨hstored, hunder⟩ := hsound object hobject
    exact hwritten.own hseparated hstored hunder hparse
  refine ⟨outdatedIterNums paths boundary listed, ?_, ?_, ?_⟩
  · obtain ⟨pages, hread⟩ := hpages.listPages paths boundary []
    refine ⟨pages, fun fuel hfuel => ?_⟩
    rw [listJobOutdatedIterations, hstart]
    simp only [hread, if_pos hfuel, List.nil_append]
  · exact (outdatedIterNums_descending hsorted hown).imp fun hgt => Nat.ne_of_gt hgt
  · intro i
    rw [mem_outdatedIterNums]
    constructor
    · rintro ⟨object, hobject, hparse, hle⟩
      obtain ⟨hmax, hkey⟩ := hown object hobject i hparse
      exact ⟨⟨hmax, hkey ▸ (hsound object hobject).1⟩, hle⟩
    · rintro ⟨⟨hmax, hstored⟩, hle⟩
      -- its key is stored under the directory and not before the start key
      have hunder := (paths.under_buildJobPrefix code i).mpr (Or.inl rfl)
      have hlisted := hcomplete _ hstored hunder (hadmits i hle)
      obtain ⟨object, hobject, hkey⟩ := List.mem_map.mp hlisted
      refine ⟨object, hobject, ?_, hle⟩
      rw [hkey]
      exact paths.parseIterNum_buildJobIterationPath code hmax

end OneJob

/-! ## A provider that pages through its keys -/

instance (key : String) (bound : ListingStartBound) (startKey : Option String) :
    Decidable (bound.Admits key startKey) :=
  match bound, startKey with
  | _, none => isTrue trivial
  | .inclusive, some _ => inferInstanceAs (Decidable (¬_ < _))
  | .exclusive, some _ => inferInstanceAs (Decidable (_ < _))

/-- The keys a request asks for, of all its pages. -/
def keysAsked (bound : ListingStartBound) (keys : List String) (request : ListingRequest) :
    List String :=
  keys.filter fun key =>
    request.directory.toList <+: key.toList ∧ bound.Admits key request.startKey

/-- A provider over some keys, whose cursor counts the objects it has delivered. -/
def pagedProvider (bound : ListingStartBound) (pageSize : Nat) (keys : List String) : Backend where
  listingStartBound := bound
  listPageSize := pageSize
  listObjects := fun request =>
    let delivered := (request.cursor.map String.length).getD 0
    let remaining := (keysAsked bound keys request).drop delivered
    .ok
      { objects := (remaining.take request.pageSize).map (⟨·, none⟩)
        nextCursor :=
          if remaining.length ≤ request.pageSize then none
          else some (String.ofList (List.replicate (delivered + request.pageSize) '*')) }

theorem pagedProvider_pages (bound : ListingStartBound) (pageSize : Nat) (keys : List String)
    {request : ListingRequest} (hsize : 0 < request.pageSize) :
    (pagedProvider bound pageSize keys).Pages request
      (((keysAsked bound keys request).drop ((request.cursor.map String.length).getD 0)).map
        (⟨·, none⟩)) := by
  generalize hremaining : (keysAsked bound keys request).drop
    ((request.cursor.map String.length).getD 0) = remaining
  induction hlen : remaining.length using Nat.strong_induction_on
    generalizing request remaining with
  | _ length ih =>
      by_cases hlast : remaining.length ≤ request.pageSize
      · apply Backend.Pages.last
        simp only [pagedProvider, hremaining, if_pos hlast, List.take_of_length_le hlast]
      · -- the next page begins where this one ends
        rw [← List.take_append_drop request.pageSize remaining, List.map_append]
        refine Backend.Pages.next (by simp only [pagedProvider, hremaining, if_neg hlast]; rfl) ?_
        apply ih (remaining.drop request.pageSize).length
        · rw [List.length_drop]
          omega
        · exact hsize
        · rw [← hremaining, List.drop_drop]
          simp [keysAsked]
        · rfl

/-- Paging through sorted keys is a listing of them. -/
theorem pagedProvider_listsKeys {bound : ListingStartBound} {pageSize : Nat} {keys : List String}
    {contents : Contents}
    (hsorted : keys.Pairwise fun a b => Utf8.bytes a < Utf8.bytes b)
    (hstored : ∀ key, (contents key).isSome ↔ key ∈ keys) :
    (pagedProvider bound pageSize keys).ListsKeys contents := by
  intro request hcursor hsize
  have hmem : ∀ key, key ∈ keysAsked bound keys request ↔ key ∈ keys ∧
      request.directory.toList <+: key.toList ∧ bound.Admits key request.startKey := by
    intro key
    simp [keysAsked]
  have hkeys : ((keysAsked bound keys request).map fun key => (⟨key, none⟩ : ListedObject)).map
      ListedObject.key = keysAsked bound keys request := by
    rw [List.map_map]
    exact List.map_id _
  have hpages := pagedProvider_pages bound pageSize keys hsize
  rw [hcursor, Option.map_none, Option.getD_none, List.drop_zero] at hpages
  refine ⟨_, hpages, ?_, ?_, ?_⟩
  · rw [hkeys]
    exact hsorted.sublist List.filter_sublist
  · intro object hobject
    obtain ⟨key, hkey, rfl⟩ := List.mem_map.mp hobject
    exact ⟨(hstored key).mpr ((hmem key).mp hkey).1, ((hmem key).mp hkey).2.1⟩
  · intro key hkey hunder hadmits
    rw [hkeys, hmem]
    exact ⟨(hstored key).mp hkey, hunder, hadmits⟩

/-- Three iterations of a job, one of them under both codecs, and one of another job whose code
begins with the same letter. -/
def mixedKeys : List String :=
  ["jobs/a/state-18446744073709551612.json", "jobs/a/state-18446744073709551613.cbor",
    "jobs/a/state-18446744073709551613.json", "jobs/a/state-18446744073709551614.json",
    "jobs/ab/state-18446744073709551614.json"]

/-- A store that holds these keys. -/
def keysContents (keys : List String) : Contents :=
  fun key => if key ∈ keys then some "v1" else none

/-- Pages of one object each from a provider that excludes the start key: the two iterations at
or below the boundary are named. -/
theorem listJobOutdatedIterations_exact_mixed :
    ∃ iterNums,
      (∃ pages, ∀ fuel ≥ pages, listJobOutdatedIterations ⟨"jobs", .json⟩
        (pagedProvider .exclusive 1 mixedKeys) "a" 2 fuel = some (.ok iterNums)) ∧
      iterNums.Nodup ∧
      ∀ i, i ∈ iterNums ↔ SavedFor ⟨"jobs", .json⟩ (keysContents mixedKeys) "a" i ∧ i ≤ 2 := by
  have hwritten : WrittenByCodecs ⟨"jobs", .json⟩ ["a", "ab"] (keysContents mixedKeys) := by
    intro key hkey _
    have hmem : key ∈ mixedKeys := by
      by_contra hnot
      simp [keysContents, hnot] at hkey
    simp only [mixedKeys, List.mem_cons, List.not_mem_nil, or_false] at hmem
    rcases hmem with rfl | rfl | rfl | rfl | rfl
    · exact ⟨"a", by decide, .json, 3, by decide, by decide +kernel⟩
    · exact ⟨"a", by decide, .cbor, 2, by decide, by decide +kernel⟩
    · exact ⟨"a", by decide, .json, 2, by decide, by decide +kernel⟩
    · exact ⟨"a", by decide, .json, 1, by decide, by decide +kernel⟩
    · exact ⟨"ab", by decide, .json, 1, by decide, by decide +kernel⟩
  have hlists : (pagedProvider .exclusive 1 mixedKeys).ListsKeys (keysContents mixedKeys) := by
    apply pagedProvider_listsKeys
    · decide +kernel
    · intro key
      by_cases hmem : key ∈ mixedKeys
      · simp [keysContents, hmem]
      · simp [keysContents, hmem]
  exact listJobOutdatedIterations_exact hwritten (by decide) hlists (by decide) (by decide)

example : listJobOutdatedIterations ⟨"jobs", .json⟩ (pagedProvider .exclusive 1 mixedKeys) "a" 2 4 =
    some (.ok [2, 1]) := by
  decide +kernel

end JobManager
