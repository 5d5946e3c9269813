import Rango.Core.Find
import Rango.Query.OrderTheorems
import Rango.Storage.Fallible

/-!
# What a query returns

A `find` selects the live documents that match, puts them in order if a sort is asked for, slices
and projects them, on either of its two paths (`RangoEngine.find_computes`). An error of the filter
reaches the cursor of a `find` without a sort only (`RangoEngine.find_error_iff`).
-/

namespace Rango

open StableSort Query

section
variable [BsonTraits]

/-- The documents that a query is about: those that live and match. -/
def selects (filter doc : Document) : Bool :=
  !isDeleted doc && (matchesFilter doc filter).toOption.getD false

/-! ## The filtered documents -/

lemma filteredIter_ok_cons (filter doc : Document) (rest : List (Except RangoError Document))
    {b : Bool} (h : isDeleted doc = false → matchesFilter doc filter = .ok b) :
    filteredIter filter false (.ok doc :: rest) =
      if selects filter doc then .ok doc :: filteredIter filter false rest
      else filteredIter filter false rest := by
  rw [filteredIter, selects]
  by_cases hdel : isDeleted doc = true
  · simp [hdel]
  · have hdel : isDeleted doc = false := by simpa using hdel
    rw [h hdel, hdel]
    cases b with
    | false => rfl
    | true => rfl

/-- A filter without errors passes the documents it selects. -/
lemma filteredIter_of_ok {filter : Document} {docs : List Document}
    (h : ∀ doc ∈ docs, isDeleted doc = false → ∃ b, matchesFilter doc filter = .ok b) :
    filteredIter filter false (docs.map .ok) = (docs.filter (selects filter)).map .ok := by
  induction docs with
  | nil => rfl
  | cons doc docs ih =>
    have hrest := ih fun d hd => h d (List.mem_cons_of_mem doc hd)
    have hdoc : ∃ b, isDeleted doc = false → matchesFilter doc filter = .ok b := by
      by_cases hdel : isDeleted doc = false
      · obtain ⟨b, hb⟩ := h doc List.mem_cons_self hdel
        exact ⟨b, fun _ => hb⟩
      · exact ⟨true, fun hlive => absurd hlive hdel⟩
    obtain ⟨b, hb⟩ := hdoc
    rw [List.map_cons, filteredIter_ok_cons filter doc _ hb, hrest]
    by_cases hsel : selects filter doc = true
    · rw [if_pos hsel, List.filter_cons_of_pos hsel, List.map_cons]
    · rw [if_neg hsel, List.filter_cons_of_neg hsel]

/-- Without its errors, a filter passes the documents it selects. -/
lemma filterMap_filteredIter (filter : Document) (docs : List Document) :
    (filteredIter filter false (docs.map .ok)).filterMap Except.toOption =
      docs.filter (selects filter) := by
  induction docs with
  | nil => rfl
  | cons doc docs ih =>
    cases hmatch : matchesFilter doc filter with
    | ok b =>
      rw [List.map_cons, filteredIter_ok_cons filter doc _ fun _ => hmatch]
      by_cases hsel : selects filter doc = true
      · rw [if_pos hsel, List.filter_cons_of_pos hsel, List.filterMap_cons, ih]
        rfl
      · rw [if_neg hsel, List.filter_cons_of_neg hsel, ih]
    | error err =>
      have hsel : ¬selects filter doc = true := by simp [selects, hmatch, Except.toOption]
      rw [List.filter_cons_of_neg hsel, List.map_cons, filteredIter, hmatch]
      by_cases hdel : isDeleted doc = true
      · rw [if_pos (by simp [hdel]), ih]
      · rw [if_neg (by simp [hdel]), List.filterMap_cons, ih]
        rfl

/-! ## The stream -/

/-- Where the closure stands, the documents it has yet to skip and to emit. -/
lemma streamed_of_selects {filter : Document} (projection : Option Document) (skip : ℕ)
    (limit : Option ℕ) {docs : List Document} (h : ∀ doc ∈ docs, selects filter doc = true)
    (skipped emitted : ℕ) :
    streamed filter projection skip limit skipped emitted (docs.map .ok) =
      (sliced (skip - skipped) (limit.map (· - emitted)) docs).map
        fun doc => .ok (projected projection doc) := by
  induction docs generalizing skipped emitted with
  | nil => cases limit <;> simp [streamed, sliced]
  | cons doc docs ih =>
    have hrest := ih fun d hd => h d (List.mem_cons_of_mem doc hd)
    have hmatch : (matchesFilter doc filter).toOption.getD false ≠ false := by
      have hsel := h doc List.mem_cons_self
      rw [selects, Bool.and_eq_true] at hsel
      rw [hsel.2]
      decide
    rw [List.map_cons, streamed]
    by_cases hfull : limit.any (· ≤ emitted) = true
    · -- the limit is reached
      rw [if_pos hfull]
      obtain ⟨n, rfl, hn⟩ : ∃ n, limit = some n ∧ n ≤ emitted := by
        cases limit with
        | none => cases hfull
        | some n => exact ⟨n, rfl, by simpa using hfull⟩
      simp [sliced, Nat.sub_eq_zero_of_le hn]
    · rw [if_neg hfull, if_neg hmatch]
      by_cases hskip : skipped < skip
      · obtain ⟨k, hk⟩ : ∃ k, skip - skipped = k + 1 := ⟨skip - skipped - 1, by omega⟩
        have hk' : skip - (skipped + 1) = k := by omega
        rw [if_pos hskip, hrest, hk, hk']
        cases limit <;> simp [sliced]
      · have hzero : skip - skipped = 0 := by omega
        rw [if_neg hskip, hrest, hzero]
        cases limit with
        | none => simp [sliced]
        | some n =>
          have hn : emitted < n := by simpa using hfull
          obtain ⟨m, hm⟩ : ∃ m, n - emitted = m + 1 := ⟨n - emitted - 1, by omega⟩
          have hm' : n - (emitted + 1) = m := by omega
          simp [sliced, hm, hm']

/-! ## Errors -/

lemma error_mem_filteredIter {filter doc : Document} {err : RangoError}
    {results : List (Except RangoError Document)} (hdoc : .ok doc ∈ results)
    (hlive : isDeleted doc = false) (herr : matchesFilter doc filter = .error err) :
    .error err ∈ filteredIter filter false results := by
  induction results with
  | nil => cases hdoc
  | cons item rest ih =>
    rcases List.mem_cons.mp hdoc with rfl | hrest
    · rw [filteredIter, hlive, herr]
      exact List.mem_cons_self
    · have hmem := ih hrest
      cases item with
      | error err' => exact List.mem_cons_of_mem _ hmem
      | ok doc' =>
        rw [filteredIter]
        split_ifs
        · exact hmem
        · split
          · exact List.mem_cons_of_mem _ hmem
          · exact hmem
          · exact List.mem_cons_of_mem _ hmem

/-- Without a limit, the stream goes on to every error. -/
lemma error_mem_streamed {filter : Document} (projection : Option Document) (skip : ℕ)
    {err : RangoError} {items : List (Except RangoError Document)} (herr : .error err ∈ items)
    (skipped emitted : ℕ) :
    .error err ∈ streamed filter projection skip none skipped emitted items := by
  induction items generalizing skipped emitted with
  | nil => cases herr
  | cons item rest ih =>
    cases item with
    | error err' =>
      rw [streamed, if_neg (by simp)]
      rcases List.mem_cons.mp herr with hhead | hrest
      · rw [hhead]
        exact List.mem_cons_self
      · exact List.mem_cons_of_mem _ (ih hrest _ _)
    | ok doc =>
      have hrest : .error err ∈ rest := by simpa using herr
      rw [streamed, if_neg (by simp)]
      split_ifs
      · exact ih hrest _ _
      · exact ih hrest _ _
      · exact List.mem_cons_of_mem _ (ih hrest _ _)

/-! ## The sort -/

lemma sortKeyOrNull_eq (field : String) (doc : Document) :
    sortKeyOrNull field doc = keyOf (doc.get field) := by
  unfold sortKeyOrNull sortKey keyOf
  split <;> simp_all [Except.toOption]

/-- A sort can order documents whose keys are steady. -/
lemma sortOrder_consistent_iff (field : String) (docs : List Document) :
    Consistent (sortOrder field false) docs ↔ SortKey.Steady (docs.map (sortKeyOrNull field)) := by
  rw [← SortKey.consistent_iff, ← Consistent.key_iff]
  exact Iff.rfl

lemma sortOrder_consistent {field : String} {docs : List Document} (desc : Bool)
    (h : SortKey.Steady (docs.map (sortKeyOrNull field))) :
    Consistent (sortOrder field desc) docs := by
  have hasc := (sortOrder_consistent_iff field docs).mpr h
  cases desc with
  | false => exact hasc
  | true => exact hasc.reverse

lemma steady_of_no_nan {field : String} {docs : List Document}
    (h : ∀ doc ∈ docs, ∀ x, doc.get field = some (.double x) → x.isNaN = false) :
    SortKey.Steady (docs.map (sortKeyOrNull field)) := by
  refine .inl fun x hx => ?_
  obtain ⟨doc, hdoc, hkey⟩ := List.mem_map.mp hx
  rw [sortKeyOrNull_eq, keyOf_eq_double] at hkey
  exact h doc hdoc x hkey

/-- The documents of a query in order: as scanned, or stably sorted. -/
def Ordered (sort : Option (String × Bool)) (docs ordered : List Document) : Prop :=
  match sort with
  | none => ordered = docs
  | some (field, desc) => StableSorted (sortOrder field desc) docs ordered

/-! ## Queries -/

namespace RangoEngine

variable {σ ω : Type} {e : RangoEngine σ ω} {c : CollectionName} {filter : Document}
  {projection : Option Document} {skip limit : Option ℕ}

section
variable [StorageEngine σ] [SliceSort] {results : List (Except RangoError Document)}

lemma find_streamed (hscan : (e.storageScan c).1 = .ok results) :
    (e.find c filter projection none skip limit).1 =
      .ok (streamed filter projection (skip.getD 0) limit 0 0
        (filteredIter filter false results)) := by
  unfold find
  rcases hres : e.storageScan c with ⟨r, e₁⟩
  rw [hres] at hscan
  cases hscan
  rfl

lemma find_sorted {field : String} {desc : Bool} (hscan : (e.storageScan c).1 = .ok results) :
    (e.find c filter projection (some (field, desc)) skip limit).1 =
      (SliceSort.sortBy (sortOrder field desc)
        ((filteredIter filter false results).filterMap Except.toOption)).map fun docs =>
          (sliced (skip.getD 0) limit docs).map fun doc => .ok (projected projection doc) := by
  unfold find
  rcases hres : e.storageScan c with ⟨r, e₁⟩
  rw [hres] at hscan
  cases hscan
  cases hsort : SliceSort.sortBy (sortOrder field desc)
    ((filteredIter filter false results).filterMap Except.toOption) with
  | error fault => simp [hsort, Except.map]
  | ok docs => simp [hsort, Except.map]

/-- A cursor is only returned for a collection that was scanned. -/
lemma storageScan_of_find {sort : Option (String × Bool)}
    {cursor : List (Except RangoError Document)}
    (h : (e.find c filter projection sort skip limit).1 = .ok cursor) :
    ∃ results, (e.storageScan c).1 = .ok results := by
  unfold find at h
  rcases hres : e.storageScan c with ⟨r, e₁⟩
  cases r with
  | error err => simp [hres] at h
  | ok results => exact ⟨results, rfl⟩

end

section
variable [Formatting] [FallibleStorage σ] [SliceSort]

/-- The documents of a collection by printed id, in the order of a scan that does not fail. -/
structure Listing (e : RangoEngine σ ω) (c : CollectionName)
    (entries : List (String × Document)) : Prop where
  scan : (e.storageScan c).1 = .ok ((entries.map Prod.snd).map .ok)
  keys : (entries.map Prod.fst).Nodup
  mem_iff : ∀ k d, (k, d) ∈ entries ↔ stored e.storage c k = some d

variable {sort : Option (String × Bool)} {entries : List (String × Document)}

omit [BsonTraits] [SliceSort] in
lemma listing_of_scan {results : List (Except RangoError Document)}
    (h : (e.storageScan c).1 = .ok results) :
    ∃ entries, e.Listing c entries ∧ results = (entries.map Prod.snd).map .ok := by
  obtain ⟨entries, hresults, hkeys, hmem⟩ := (FallibleStorage.scan_spec c e.storage).2 results h
  have hmap : results = (entries.map Prod.snd).map .ok := by
    rw [hresults, List.map_map]
    rfl
  exact ⟨entries, ⟨h.trans (congrArg Except.ok hmap), hkeys, hmem⟩, hmap⟩

/-- A query without a sort, for a filter without errors on the live documents. -/
lemma find_unsorted (hlist : e.Listing c entries)
    (hfilter : ∀ doc ∈ entries.map Prod.snd, isDeleted doc = false →
      ∃ b, matchesFilter doc filter = .ok b) :
    (e.find c filter projection none skip limit).1 =
      .ok ((sliced (skip.getD 0) limit ((entries.map Prod.snd).filter (selects filter))).map
        fun doc => .ok (projected projection doc)) := by
  have hselects : ∀ doc ∈ (entries.map Prod.snd).filter (selects filter),
      selects filter doc = true := fun doc hdoc => (List.mem_filter.mp hdoc).2
  rw [find_streamed hlist.scan, filteredIter_of_ok hfilter,
    streamed_of_selects projection (skip.getD 0) limit hselects 0 0]
  -- nothing is skipped or emitted yet
  cases limit <;> rfl

/-- **The documents of a collection.** All that live, in the order of a scan. -/
theorem findMany_eq (hlist : e.Listing c entries) :
    (e.findMany c).1 = .ok (((entries.map Prod.snd).filter fun doc => !isDeleted doc).map .ok) := by
  have hall : selects Document.empty = fun doc => !isDeleted doc := by
    funext doc
    exact Bool.and_true _
  rw [findMany, find_unsorted hlist fun _ _ _ => ⟨true, rfl⟩, hall]
  rfl

/-- **The first match.** -/
theorem findOneByFilter_eq (hlist : e.Listing c entries)
    (hfilter : ∀ doc ∈ entries.map Prod.snd, isDeleted doc = false →
      ∃ b, matchesFilter doc filter = .ok b) :
    (e.findOneByFilter c filter).1 =
      .ok ((entries.map Prod.snd).filter (selects filter)).head? := by
  have hfind : (e.find c filter none none none none).1 = _ := find_unsorted hlist hfilter
  unfold findOneByFilter
  rcases hres : e.find c filter none none none none with ⟨r, e₁⟩
  rw [hres] at hfind
  cases hfind
  cases (entries.map Prod.snd).filter (selects filter) with
  | nil => rfl
  | cons doc docs => rfl

/-- **What a query returns.** For a filter without errors on the live documents, and no NaN among
the values it sorts by. -/
theorem find_computes (hlist : e.Listing c entries)
    (hfilter : ∀ doc ∈ entries.map Prod.snd, isDeleted doc = false →
      ∃ b, matchesFilter doc filter = .ok b)
    (hnan : ∀ field desc, sort = some (field, desc) →
      ∀ doc ∈ (entries.map Prod.snd).filter (selects filter), ∀ x,
        doc.get field = some (.double x) → x.isNaN = false) :
    ∃ ordered, Ordered sort ((entries.map Prod.snd).filter (selects filter)) ordered ∧
      (∀ other, Ordered sort ((entries.map Prod.snd).filter (selects filter)) other →
        other = ordered) ∧
      (e.find c filter projection sort skip limit).1 =
        .ok ((sliced (skip.getD 0) limit ordered).map
          fun doc => .ok (projected projection doc)) := by
  cases sort with
  | none =>
    exact ⟨_, rfl, fun other hother => hother, find_unsorted hlist hfilter⟩
  | some fieldDesc =>
    obtain ⟨field, desc⟩ := fieldDesc
    have hsteady := steady_of_no_nan (hnan field desc rfl)
    have hcmp := sortOrder_consistent desc hsteady
    obtain ⟨ordered, hsort, hstable⟩ := SliceSort.sorts hcmp
    refine ⟨ordered, hstable, fun other hother => hstable.unique hcmp hother, ?_⟩
    rw [find_sorted hlist.scan, filterMap_filteredIter, hsort]
    rfl

/-- **When a query reports an error of its filter.** -/
theorem find_error_iff {k : String} {doc : Document} {err : RangoError}
    {cursor : List (Except RangoError Document)} (hdoc : stored e.storage c k = some doc)
    (hlive : isDeleted doc = false) (herr : matchesFilter doc filter = .error err)
    (hfind : (e.find c filter projection sort skip none).1 = .ok cursor) :
    (∃ err, .error err ∈ cursor) ↔ sort = none := by
  obtain ⟨results, hscan⟩ := storageScan_of_find hfind
  obtain ⟨entries, hlist, rfl⟩ := listing_of_scan hscan
  have hmem : .ok doc ∈ (entries.map Prod.snd).map (Except.ok : Document → Except RangoError _) :=
    List.mem_map_of_mem (List.mem_map_of_mem ((hlist.mem_iff k doc).mpr hdoc))
  constructor
  · intro ⟨err', herr'⟩
    cases sort with
    | none => rfl
    | some fieldDesc =>
      -- a sorted cursor is made of documents
      obtain ⟨field, desc⟩ := fieldDesc
      rw [find_sorted hscan] at hfind
      cases hsort : SliceSort.sortBy (sortOrder field desc)
        ((filteredIter filter false ((entries.map Prod.snd).map .ok)).filterMap
          Except.toOption) with
      | error fault =>
        rw [hsort] at hfind
        cases hfind
      | ok docs =>
        rw [hsort] at hfind
        cases hfind
        simp at herr'
  · intro hnone
    subst hnone
    rw [find_streamed hscan] at hfind
    cases hfind
    exact ⟨err, error_mem_streamed projection _ (error_mem_filteredIter hmem hlive herr) 0 0⟩

end
end RangoEngine

end

/-! ## A collection of two documents -/

section
attribute [local instance] Formatting.sample BsonTraits.sample SliceSort.sample

/-- A document with an integer. -/
def sampleWhole : Document := ⟨[("_id", .string "a"), ("n", .int32 2)]⟩

/-- A document with a fraction: one and a half. -/
def sampleFraction : Document := ⟨[("_id", .string "b"), ("n", .double ⟨0x3FF8000000000000⟩)]⟩

/-- An engine that stores the two. -/
def samplePair : RangoEngine MemoryStorage NullOplog :=
  .openEngine
    (StorageEngine.put ⟨"c"⟩ ⟨.string "a"⟩ sampleWhole
      (StorageEngine.put ⟨"c"⟩ ⟨.string "b"⟩ sampleFraction MemoryStorage.new).2).2 ⟨0⟩ "a"

lemma samplePair_scan :
    (samplePair.storageScan ⟨"c"⟩).1 = .ok ([sampleWhole, sampleFraction].map .ok) := by
  decide

lemma samplePair_listing :
    ∃ entries, samplePair.Listing ⟨"c"⟩ entries ∧
      entries.map Prod.snd = [sampleWhole, sampleFraction] := by
  obtain ⟨entries, hlist, hdocs⟩ := RangoEngine.listing_of_scan samplePair_scan
  have hinj : Function.Injective (Except.ok : Document → Except RangoError Document) :=
    fun _ _ => Except.ok.inj
  exact ⟨entries, hlist, (hinj.list_map hdocs).symm⟩

lemma samplePair_numbers {desc : Bool} {field : String}
    (hsort : some ("n", true) = some (field, desc)) :
    ∀ doc ∈ [sampleWhole, sampleFraction], ∀ x,
      doc.get field = some (.double x) → x.isNaN = false := by
  intro doc hdoc x hx
  cases hsort
  rcases List.mem_cons.mp hdoc with rfl | hdoc
  · cases hx
  · rw [List.mem_singleton] at hdoc
    subst hdoc
    cases hx
    rfl

/-- The second of the two documents in descending order. -/
theorem find_computes_pair :
    ∃ ordered, Ordered (some ("n", true)) [sampleWhole, sampleFraction] ordered ∧
      (samplePair.find ⟨"c"⟩ Document.empty none (some ("n", true)) (some 1) (some 1)).1 =
        .ok ((sliced 1 (some 1) ordered).map .ok) := by
  obtain ⟨entries, hlist, hdocs⟩ := samplePair_listing
  have hall : (entries.map Prod.snd).filter (selects Document.empty) =
      [sampleWhole, sampleFraction] := by
    rw [hdocs]
    rfl
  have hfind : ∃ ordered, Ordered (some ("n", true)) _ ordered ∧ _ ∧
      (samplePair.find ⟨"c"⟩ Document.empty none (some ("n", true)) (some 1) (some 1)).1 = _ :=
    RangoEngine.find_computes hlist (fun _ _ _ => ⟨true, rfl⟩) fun field desc hsort => by
      rw [hall]
      exact samplePair_numbers hsort
  obtain ⟨ordered, hordered, -, hcursor⟩ := hfind
  rw [hall] at hordered
  exact ⟨ordered, hordered, hcursor⟩

/-- A filter that compares numbers with a text. -/
def sampleMismatch : Document := ⟨[("n", .document [("$gt", .string "x")])]⟩

/-- The error that it is on both documents. -/
def sampleMismatchError : RangoError :=
  .invalidQueryOperator "Cannot compare value with value"

/-- The query without a sort reports the error. -/
theorem find_error_iff_pair :
    (∃ err, .error err ∈ ([.error sampleMismatchError, .error sampleMismatchError] :
      List (Except RangoError Document))) ↔ (none : Option (String × Bool)) = none := by
  have hfind : (samplePair.find ⟨"c"⟩ sampleMismatch none none none none).1 =
      .ok [.error sampleMismatchError, .error sampleMismatchError] := by decide
  have hdoc : stored samplePair.storage ⟨"c"⟩ "\"a\"" = some sampleWhole := rfl
  exact RangoEngine.find_error_iff hdoc rfl rfl hfind

/-- With a sort, the filter that is an error on each of the two documents finds none. -/
theorem sort_hides_error :
    stored samplePair.storage ⟨"c"⟩ "\"a\"" = some sampleWhole ∧ isDeleted sampleWhole = false ∧
      matchesFilter sampleWhole sampleMismatch = .error sampleMismatchError ∧
      (samplePair.find ⟨"c"⟩ sampleMismatch none (some ("n", false)) none none).1 = .ok [] :=
  ⟨rfl, rfl, rfl, rfl⟩

end
end Rango
