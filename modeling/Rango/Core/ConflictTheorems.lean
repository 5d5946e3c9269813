import Rango.Lib.Contest
import Rango.Lib.Window
import Rango.Core.Conflicts
import Rango.Core.ReplayTheorems

/-!
# Versions of one document

Nodes send versions of a document, and `apply_remote_mutation` lets them meet at the place of
that document. For the stored document itself that is a contest: the greatest revision stands
(`last_writer_wins`). Its `_conflicts` array is another matter. A winner that arrives takes the
old one in as it is stored, with the conflicts of that one inside, and starts an array of its
own: `conflicts_kept_iff` says when the array lists the versions that lost, and
`redelivery_harmless_iff` when a version that comes twice leaves no second trace.
-/

namespace Rango

/-! ## The record of conflicts -/

/-- The array that `add_conflict` appends to, unless the field holds something else. -/
def conflictRecord (w : Document) : Option (List Bson) :=
  match (w.get "_conflicts").getD (.array []) with
  | .array arr => some arr
  | _ => none

lemma addConflict_of_some {w : Document} {arr : List Bson} (h : conflictRecord w = some arr)
    (l : Document) : addConflict l w =
      w.insert "_conflicts" (.array (Window.push 10 arr (.document l.entries))) := by
  unfold conflictRecord at h
  unfold addConflict
  cases hget : (w.get "_conflicts").getD (.array []) with
  | array xs =>
    rw [hget] at h
    rw [← Option.some.inj h]
    -- the ten that are kept are the last ones
    rfl
  | _ => rw [hget] at h; cases h

lemma addConflict_of_none {w : Document} (h : conflictRecord w = none) (l : Document) :
    addConflict l w = w := by
  unfold conflictRecord at h
  unfold addConflict
  cases hget : (w.get "_conflicts").getD (.array []) with
  | array xs => rw [hget] at h; cases h
  | _ => rfl

lemma conflictRecord_insert (w : Document) (arr : List Bson) :
    conflictRecord (w.insert "_conflicts" (.array arr)) = some arr := by
  rw [conflictRecord, Document.get_insert_self]
  rfl

/-- A document without the field has an empty record. -/
lemma conflictRecord_of_flat {w : Document} (h : w.get "_conflicts" = none) :
    conflictRecord w = some [] := by
  rw [conflictRecord, h]
  rfl

/-- What `list_conflicts` and `resolve_conflict` read is the record. -/
lemma getArray_of_conflictRecord {w : Document} {arr : List Bson}
    (h : conflictRecord w = some arr) : (w.getArray "_conflicts").getD [] = arr := by
  unfold conflictRecord at h
  unfold Document.getArray
  cases hget : w.get "_conflicts" with
  | none =>
    rw [hget] at h
    exact Option.some.inj h
  | some v =>
    rw [hget] at h
    cases v with
    | array xs => exact Option.some.inj h
    | _ => cases h

lemma conflictRecord_addConflict (l w : Document) : conflictRecord (addConflict l w) =
    (conflictRecord w).map fun arr => Window.push 10 arr (.document l.entries) := by
  cases h : conflictRecord w with
  | none => rw [addConflict_of_none h, h]; rfl
  | some arr => rw [addConflict_of_some h, conflictRecord_insert]; rfl

/-- After losers came one by one, the record ends with them. -/
lemma conflictRecord_foldl (ls : List Document) (w : Document) :
    conflictRecord (ls.foldl (fun w l => addConflict l w) w) =
      (conflictRecord w).map fun arr =>
        (ls.map fun l => Bson.document l.entries).foldl (Window.push 10) arr := by
  induction ls generalizing w with
  | nil =>
    rw [List.foldl_nil, List.map_nil]
    cases conflictRecord w <;> rfl
  | cons l rest ih =>
    rw [List.foldl_cons, ih, conflictRecord_addConflict, Option.map_map]
    rfl

/-- A winner has the field from then on. -/
lemma get_addConflict_ne_none (l w : Document) : (addConflict l w).get "_conflicts" ≠ none := by
  cases h : conflictRecord w with
  | some arr =>
    rw [addConflict_of_some h, Document.get_insert_self]
    exact Option.some_ne_none _
  | none =>
    rw [addConflict_of_none h]
    intro hget
    rw [conflictRecord_of_flat hget] at h
    cases h

/-- The document once these are added to its conflicts, of which the last ten are kept. -/
def recordAll (w : Document) (ls : List Bson) : Document :=
  match conflictRecord w, ls with
  | some arr, _ :: _ => w.insert "_conflicts" (.array ((arr ++ ls).rtake 10))
  | _, _ => w

@[simp] lemma recordAll_nil (w : Document) : recordAll w [] = w := by
  unfold recordAll
  cases conflictRecord w <;> rfl

lemma recordAll_of_none {w : Document} (h : conflictRecord w = none) (ls : List Bson) :
    recordAll w ls = w := by
  unfold recordAll
  rw [h]

lemma recordAll_of_some {w : Document} {arr : List Bson} (h : conflictRecord w = some arr)
    {ls : List Bson} (hls : ls ≠ []) :
    recordAll w ls = w.insert "_conflicts" (.array ((arr ++ ls).rtake 10)) := by
  obtain ⟨b, rest, rfl⟩ := List.exists_cons_of_ne_nil hls
  unfold recordAll
  rw [h]

lemma isDeleted_recordAll (w : Document) (ls : List Bson) :
    isDeleted (recordAll w ls) = isDeleted w := by
  cases h : conflictRecord w with
  | none => rw [recordAll_of_none h]
  | some arr =>
    by_cases hls : ls = []
    · rw [hls, recordAll_nil]
    · unfold isDeleted Document.getBool
      rw [recordAll_of_some h hls, Document.get_insert_of_ne _ _ (by decide)]

/-- Losers that come one by one are recorded together. -/
lemma foldl_addConflict (ls : List Document) (w : Document) :
    ls.foldl (fun w l => addConflict l w) w =
      recordAll w (ls.map fun l => .document l.entries) := by
  induction ls using List.reverseRecOn with
  | nil => rw [List.foldl_nil, List.map_nil, recordAll_nil]
  | append_singleton ls l ih =>
    rw [List.foldl_append, List.foldl_cons, List.foldl_nil, ih]
    have hmap : (ls ++ [l]).map (fun l => Bson.document l.entries) =
        (ls.map fun l => Bson.document l.entries) ++ [.document l.entries] := by
      rw [List.map_append, List.map_singleton]
    cases h : conflictRecord w with
    | none => rw [recordAll_of_none h, recordAll_of_none h, addConflict_of_none h]
    | some arr =>
      by_cases hls : ls = []
      · rw [hls, List.map_nil, recordAll_nil, addConflict_of_some h,
          recordAll_of_some h (by simp)]
        rfl
      · have hmap_ne : ls.map (fun l => Bson.document l.entries) ≠ [] := by simpa using hls
        have hall_ne : ls.map (fun l => Bson.document l.entries) ++ [.document l.entries] ≠ [] :=
          List.append_ne_nil_of_left_ne_nil hmap_ne _
        rw [hmap, recordAll_of_some h hmap_ne, recordAll_of_some h hall_ne,
          addConflict_of_some (conflictRecord_insert _ _), Document.insert_insert_self,
          Window.push, Window.rtake_rtake_append, List.append_assoc]

/-- They leave no trace when there are none, or when the record is no array, or when it is what is
kept of itself with them appended. -/
lemma recordAll_eq_self_iff (w : Document) (ls : List Bson) : recordAll w ls = w ↔
    ls = [] ∨ ∀ arr ∈ conflictRecord w, (arr ++ ls).rtake 10 = arr := by
  by_cases hls : ls = []
  · rw [hls, recordAll_nil]
    simp
  rw [or_iff_right hls]
  cases h : conflictRecord w with
  | none => exact iff_of_true (recordAll_of_none h ls) (by simp)
  | some arr =>
    rw [recordAll_of_some h hls]
    simp only [Option.mem_def, Option.some.injEq, forall_eq']
    constructor
    · intro heq
      have hrecord := conflictRecord_insert w ((arr ++ ls).rtake 10)
      rw [heq, h] at hrecord
      exact (Option.some.inj hrecord).symm
    · intro heq
      rw [heq]
      -- the record is not empty, so it is what the field holds
      have hget : w.get "_conflicts" = some (.array arr) := by
        have hne : arr ≠ [] := by
          intro hnil
          have hlength := congrArg List.length heq
          have hpos := List.length_pos_iff.mpr hls
          rw [Window.length_rtake, List.length_append, hnil, List.length_nil] at hlength
          omega
        unfold conflictRecord at h
        cases hg : w.get "_conflicts" with
        | none =>
          rw [hg] at h
          exact absurd (Option.some.inj h).symm hne
        | some v =>
          rw [hg] at h
          cases v with
          | array xs => rw [← Option.some.inj h]
          | _ => cases h
      exact Document.insert_of_get hget

/-- Adding a loser changes nothing exactly when the record is ten copies of it already. -/
lemma addConflict_eq_self_iff (l w : Document) : addConflict l w = w ↔
    ∀ arr ∈ conflictRecord w, arr = List.replicate 10 (.document l.entries) := by
  have hone : addConflict l w = recordAll w [.document l.entries] := foldl_addConflict [l] w
  rw [hone, recordAll_eq_self_iff, or_iff_right (by simp)]
  refine forall_congr' fun arr => forall_congr' fun _ => ?_
  exact Window.push_eq_self_iff

/-- Adding it a second time changes nothing exactly when the record ended in nine copies before
the first. -/
lemma addConflict_twice_iff (l w : Document) :
    addConflict l (addConflict l w) = addConflict l w ↔
      ∀ arr ∈ conflictRecord w, arr.rtake 9 = List.replicate 9 (.document l.entries) := by
  rw [addConflict_eq_self_iff, conflictRecord_addConflict]
  cases conflictRecord w with
  | none => simp
  | some arr =>
    simp only [Option.map_some, Option.mem_def, Option.some.injEq, forall_eq']
    rw [← Window.push_eq_self_iff]
    exact Window.push_push_eq_iff

section
variable [Formatting]

/-! ## Versions at one place -/

/-- What a place holds after documents arrived there in turn. -/
def resolveAll (found : Option Document) (docs : List Document) : Option Document :=
  docs.foldl (fun found d => some (resolve found d)) found

lemma resolveAll_append (found : Option Document) (docs docs' : List Document) :
    resolveAll found (docs ++ docs') = resolveAll (resolveAll found docs) docs' :=
  List.foldl_append

/-- A place where something arrived is not empty. -/
lemma exists_resolveAll {docs : List Document} (h : docs ≠ []) (found : Option Document) :
    ∃ p, resolveAll found docs = some p := by
  obtain ⟨pre, d, rfl⟩ := (List.eq_nil_or_concat' docs).resolve_left h
  rw [resolveAll_append]
  exact ⟨_, rfl⟩

/-- What versions are compared by. -/
abbrev docStamp (d : Document) : ℕ ×ₗ ℕ ×ₗ String := (docRevision d).key

/-- The versions that meet at a place. -/
abbrev contenders (found : Option Document) (docs : List Document) : List Document :=
  found.toList ++ docs

/-- The first of them is stored without a contest. -/
lemma resolveAll_of_contenders {found : Option Document} {docs : List Document} {w : Document}
    {rest : List Document} (h : contenders found docs = w :: rest) :
    resolveAll found docs = resolveAll (some w) rest := by
  cases found with
  | none =>
    rw [show docs = w :: rest from h]
    rfl
  | some l =>
    obtain ⟨rfl, rfl⟩ := List.cons.inj h
    rfl

/-- What is stored is a version of who stands. -/
lemma version_resolveAll {w p : Document} {docs : List Document}
    (hlive : ∀ d ∈ w :: docs, isDeleted d = false) (hp : version p = version w) :
    ∃ p', resolveAll (some p) docs = some p' ∧
      version p' = version (Contest.standing docStamp w docs) := by
  induction docs generalizing w p with
  | nil => exact ⟨p, rfl, hp⟩
  | cons d rest ih =>
    have hw : isDeleted w = false := hlive w List.mem_cons_self
    have hd : isDeleted d = false := hlive d (by simp)
    have hmeet : version (resolve (some p) d) = version (Contest.meet docStamp w d) := by
      have hmerge := version_resolve (some p) d
      have hbody : (version w).body.isNone = false := by rw [isNone_body_version, hw]
      rw [Option.map_some, hp, Register.merge, hbody] at hmerge
      simp only [Bool.false_eq_true, if_false] at hmerge
      unfold Contest.meet
      -- both merges ask whether the newcomer is the later one
      split_ifs at hmerge ⊢ with hlt hstamp hstamp
      · exact Option.some.inj hmerge
      · exact absurd hlt hstamp
      · exact absurd hstamp hlt
      · exact Option.some.inj hmerge
    refine ih (fun x hx => ?_) hmeet
    -- who stands now is one of the two, and both are live
    rcases List.mem_cons.mp hx with rfl | hx
    · unfold Contest.meet
      split_ifs
      · exact hd
      · exact hw
    · exact hlive x (by simp [hx])

/-- Versions of the same live document are the same but for their conflicts. -/
lemma live_of_version_eq {p w : Document} (hw : isDeleted w = false)
    (h : version p = version w) :
    isDeleted p = false ∧ (docRevision p).key = (docRevision w).key ∧
      p.remove "_conflicts" = w.remove "_conflicts" := by
  have hp : isDeleted p = false := by rw [← isNone_body_version, h, isNone_body_version, hw]
  refine ⟨hp, congrArg Register.Version.stamp h, ?_⟩
  have hbody := congrArg Register.Version.body h
  simpa [version, hp, hw] using hbody

/-- Of versions with different revisions, all but the greatest are less. -/
lemma lt_of_le_of_distinct {docs : List Document} {top d : Document}
    (hrevs : docs.Pairwise fun a b => (docRevision a).cmp (docRevision b) ≠ .eq)
    (htop : top ∈ docs) (hd : d ∈ docs) (hne : d ≠ top) (hle : docStamp d ≤ docStamp top) :
    docStamp d < docStamp top := by
  have : Std.Symm fun a b : Document => (docRevision a).cmp (docRevision b) ≠ .eq :=
    ⟨fun a b hab heq => hab (Revision.cmp_eq_eq.mpr (Revision.cmp_eq_eq.mp heq).symm)⟩
  refine lt_of_le_of_ne hle fun heq => ?_
  exact hrevs.forall hd htop hne (Revision.cmp_eq_eq.mpr heq)

/-! ## What a winner keeps of the losers -/

/-- The `_conflicts` of a document list the last ten of the versions that lost, or all of them,
each as it was sent, without conflicts of its own. -/
structure ListsLosers (w : Document) (lost : List Document) : Prop where
  kept : ((w.getArray "_conflicts").getD []).Perm
    ((lost.rtake 10).map fun d => .document d.entries)
  flat : ∀ d ∈ RangoEngine.documentsOf ((w.getArray "_conflicts").getD []),
    d.get "_conflicts" = none

omit [Formatting] in
/-- The array of a winner that took in `ls` in turn. -/
lemma getArray_foldl_addConflict {w : Document} (hflat : w.get "_conflicts" = none)
    (ls : List Document) :
    ((ls.foldl (fun w l => addConflict l w) w).getArray "_conflicts").getD [] =
      (ls.rtake 10).map fun l => .document l.entries := by
  have hrecord := conflictRecord_foldl ls w
  rw [conflictRecord_of_flat hflat, Option.map_some, Window.foldl_push (by simp)] at hrecord
  rw [getArray_of_conflictRecord hrecord, List.nil_append, List.rtake, List.length_map, List.rtake,
    List.map_drop]

omit [Formatting] in
lemma mem_documentsOf_map {ls : List Document} {d : Document} :
    d ∈ RangoEngine.documentsOf (ls.map fun l => .document l.entries) ↔ d ∈ ls := by
  rw [RangoEngine.documentsOf, List.filterMap_map]
  simp [Bson.asDocument]

omit [Formatting] in
/-- It lists the losers when these are the last ten it took in, as they were sent. -/
lemma listsLosers_foldl {w : Document} (hflat : w.get "_conflicts" = none)
    {ls lost : List Document} (hsame : ls.rtake 10 = lost.rtake 10)
    (hlost : ∀ d ∈ lost.rtake 10, d.get "_conflicts" = none) :
    ListsLosers (ls.foldl (fun w l => addConflict l w) w) lost where
  kept := by rw [getArray_foldl_addConflict hflat, hsame]
  flat d hd := by
    rw [getArray_foldl_addConflict hflat, hsame, mem_documentsOf_map] at hd
    exact hlost d hd

/-- A version with the greatest revision takes in all that come after it. -/
lemma resolveAll_of_greatest {w : Document} {docs : List Document} (hw : isDeleted w = false)
    (h : ∀ d ∈ docs, docStamp d < docStamp w) :
    resolveAll (some w) docs = some (docs.foldl (fun w l => addConflict l w) w) := by
  induction docs generalizing w with
  | nil => rfl
  | cons d rest ih =>
    have hlt : (docRevision d).cmp (docRevision w) = .lt :=
      Revision.cmp_eq_lt.mpr (h d List.mem_cons_self)
    have hone : resolve (some w) d = addConflict d w := by
      simp only [resolve, hw, Bool.false_eq_true, if_false, hlt]
    have hrest := ih (w := addConflict d w) (by rw [isDeleted_addConflict, hw]) fun x hx => by
      rw [docStamp, docStamp, docRevision_addConflict]
      exact h x (List.mem_cons_of_mem _ hx)
    rw [resolveAll, List.foldl_cons, hone, List.foldl_cons]
    exact hrest

/-- Live versions of a document that meet at an empty place, each as it was sent. -/
structure Versions (docs : List Document) : Prop where
  live : ∀ d ∈ docs, isDeleted d = false
  flat : ∀ d ∈ docs, d.get "_conflicts" = none
  revs : docs.Pairwise fun a b => (docRevision a).cmp (docRevision b) ≠ .eq

lemma Versions.prefix {pre post : List Document} (h : Versions (pre ++ post)) : Versions pre where
  live d hd := h.live d (List.mem_append_left _ hd)
  flat d hd := h.flat d (List.mem_append_left _ hd)
  revs := (List.pairwise_append.mp h.revs).1

/-- What is stored is a version of the winner. -/
lemma Versions.stored_winner {docs : List Document} (h : Versions docs) {p : Document}
    (hp : resolveAll none docs = some p) : isDeleted p = false ∧
      ∃ w ∈ docs, (docRevision p).key = (docRevision w).key := by
  cases docs with
  | nil => cases hp
  | cons w rest =>
    have hstands : Contest.standing docStamp w rest ∈ w :: rest :=
      (Contest.standing_cons_defeated_perm w rest).subset List.mem_cons_self
    obtain ⟨q, hq, hversion⟩ := version_resolveAll h.live (rfl : version w = version w)
    obtain rfl : q = p := Option.some.inj (hq.symm.trans hp)
    obtain ⟨hlive, hkey, -⟩ := live_of_version_eq (h.live _ hstands) hversion
    exact ⟨hlive, _, hstands, hkey⟩

/-- Once two versions have met, the stored one has conflicts. -/
lemma Versions.get_conflicts {docs : List Document} (h : Versions docs) {p : Document}
    (hp : resolveAll none docs = some p) (hlong : 2 ≤ docs.length) :
    p.get "_conflicts" ≠ none := by
  induction docs using List.reverseRecOn with
  | nil => simp at hlong
  | append_singleton docs d _ =>
    have hne : docs ≠ [] := by
      rintro rfl
      simp at hlong
    obtain ⟨q, hq⟩ := exists_resolveAll hne none
    obtain ⟨hqlive, w, hw, hkey⟩ := h.prefix.stored_winner hq
    -- the last one meets a version with another revision
    have hrev : (docRevision d).cmp (docRevision q) ≠ .eq := by
      rw [ne_eq, Revision.cmp_eq_eq, hkey, ← Revision.cmp_eq_eq]
      intro heq
      refine (List.pairwise_append.mp h.revs).2.2 w hw d (by simp) ?_
      exact Revision.cmp_eq_eq.mpr (Revision.cmp_eq_eq.mp heq).symm
    have hlast : resolve (some q) d = p := by
      rw [resolveAll_append, hq] at hp
      exact Option.some.inj hp
    rw [← hlast]
    simp only [resolve, hqlive, Bool.false_eq_true, if_false]
    cases hcmp : (docRevision d).cmp (docRevision q) with
    | lt => exact get_addConflict_ne_none d q
    | gt => exact get_addConflict_ne_none q d
    | eq => exact absurd hcmp hrev

section
variable {pre post : List Document} {top : Document}

/-- All others are less than the greatest. -/
lemma Versions.lt_greatest (h : Versions (pre ++ top :: post))
    (htop : ∀ d ∈ pre ++ top :: post, docStamp d ≤ docStamp top) :
    (∀ d ∈ pre, docStamp d < docStamp top) ∧ ∀ d ∈ post, docStamp d < docStamp top := by
  obtain ⟨-, hafter, hbefore⟩ := List.pairwise_append.mp h.revs
  constructor
  · intro d hd
    refine lt_of_le_of_ne (htop d (by simp [hd])) fun heq => ?_
    exact hbefore d hd top List.mem_cons_self (Revision.cmp_eq_eq.mpr heq)
  · intro d hd
    refine lt_of_le_of_ne (htop d (by simp [hd])) fun heq => ?_
    exact (List.pairwise_cons.mp hafter).1 d hd (Revision.cmp_eq_eq.mpr heq.symm)

/-- The greatest takes in what is stored when it arrives, as it is stored, and then all that come
after it. -/
lemma Versions.stored_greatest (h : Versions (pre ++ top :: post))
    (htop : ∀ d ∈ pre ++ top :: post, docStamp d ≤ docStamp top) :
    resolveAll none (pre ++ top :: post) =
      some (((resolveAll none pre).toList ++ post).foldl (fun w l => addConflict l w) top) := by
  obtain ⟨hpre, hpost⟩ := h.lt_greatest htop
  have hlive : isDeleted top = false := h.live top (by simp)
  rw [List.append_cons, resolveAll_append, resolveAll_append]
  cases hp : resolveAll none pre with
  | none => exact resolveAll_of_greatest hlive hpost
  | some p =>
    obtain ⟨hplive, w, hw, hkey⟩ := h.prefix.stored_winner hp
    -- what is stored has the revision of one that came before
    have hlt : docStamp p < docStamp top := by
      rw [docStamp, hkey]
      exact hpre w hw
    have hmeet : resolve (some p) top = addConflict p top := by
      simp only [resolve, hplive, Bool.false_eq_true, if_false, Revision.cmp_eq_gt.mpr hlt]
    have hafter : ∀ d ∈ post, docStamp d < docStamp (addConflict p top) := by
      intro d hd
      rw [docStamp, docStamp, docRevision_addConflict]
      exact hpost d hd
    rw [show resolveAll (some p) [top] = some (addConflict p top) from congrArg some hmeet]
    exact resolveAll_of_greatest (by rw [isDeleted_addConflict, hlive]) hafter

/-- **Where the greatest arrives** decides whether the losers are listed. -/
theorem Versions.listsLosers_iff (h : Versions (pre ++ top :: post))
    (htop : ∀ d ∈ pre ++ top :: post, docStamp d ≤ docStamp top) {w : Document}
    (hw : resolveAll none (pre ++ top :: post) = some w) :
    ListsLosers w (Contest.losers docStamp (pre ++ top :: post)) ↔
      pre.length ≤ 1 ∨ 10 ≤ post.length := by
  obtain ⟨hpre, hpost⟩ := h.lt_greatest htop
  have hflat : top.get "_conflicts" = none := h.flat top (by simp)
  have hlost := Contest.losers_of_greatest hpre fun d hd => (hpost d hd).le
  have hlosers : ∀ d ∈ Contest.losers docStamp (pre ++ top :: post), d ∈ pre ++ top :: post := by
    intro d hd
    cases hdocs : pre ++ top :: post with
    | nil => simp at hdocs
    | cons v rest =>
      rw [hdocs] at hd
      exact (Contest.standing_cons_defeated_perm v rest).subset (List.mem_cons_of_mem _ hd)
  have hsent : ∀ d ∈ (Contest.losers docStamp (pre ++ top :: post)).rtake 10,
      d.get "_conflicts" = none := fun d hd => h.flat d (hlosers d (List.drop_subset _ _ hd))
  rw [h.stored_greatest htop] at hw
  obtain rfl := Option.some.inj hw
  by_cases hshort : pre.length ≤ 1
  · -- nothing was stored before it, or one version as it was sent
    refine iff_of_true (listsLosers_foldl hflat ?_ hsent) (Or.inl hshort)
    rw [hlost]
    cases pre with
    | nil => rfl
    | cons p rest =>
      obtain rfl : rest = [] := by simpa using hshort
      rfl
  by_cases hmany : 10 ≤ post.length
  · -- ten came after it, and the array has no room for others
    refine iff_of_true (listsLosers_foldl hflat ?_ hsent) (Or.inr hmany)
    rw [hlost, Window.rtake_append_of_le _ hmany, Window.rtake_append_of_le _ hmany]
  · -- the version before it stays in the array, and that one has conflicts
    refine iff_of_false (fun hlists => ?_) (by simp [hshort, hmany])
    have hne : pre ≠ [] := by
      rintro rfl
      simp at hshort
    obtain ⟨p, hp⟩ := exists_resolveAll hne none
    rw [hp] at hlists
    refine h.prefix.get_conflicts hp (by omega) (hlists.flat p ?_)
    rw [getArray_foldl_addConflict hflat, mem_documentsOf_map,
      Window.rtake_of_length_le (by simp; omega)]
    simp

end

namespace RangoEngine

/-- `apply_remote_mutation` for one document after another, until a call fails. -/
def applyAll {σ ω : Type} [StorageEngine σ] (e : RangoEngine σ ω) (c : CollectionName) :
    List Document → Except RangoError Unit × RangoEngine σ ω
  | [] => (.ok (), e)
  | d :: rest =>
    match e.applyRemoteMutation c d with
    | (.error err, e) => (.error err, e)
    | (.ok (), e) => e.applyAll c rest

variable {σ ω : Type} [FallibleStorage σ] {e e' : RangoEngine σ ω} {c : CollectionName}
  {id : DocumentId} {docs : List Document}

/-- A version that is applied is resolved against what the place holds. -/
lemma applyRemoteMutation_set {d : Document} (hid : d.get "_id" = some id.bson)
    (h : e.applyRemoteMutation c d = (.ok (), e')) :
    stored e'.storage = (stored e.storage).set c id.toString
      (some (resolve (stored e.storage c id.toString) d)) := by
  have hstored := (applyRemoteMutation_stored e c hid).2
  rw [h] at hstored
  exact hstored

/-- Versions of a document only meet at its place. -/
lemma applyAll_stored (hid : ∀ d ∈ docs, d.get "_id" = some id.bson)
    (h : e.applyAll c docs = (.ok (), e')) :
    stored e'.storage = (stored e.storage).set c id.toString
      (resolveAll (stored e.storage c id.toString) docs) := by
  induction docs generalizing e with
  | nil =>
    obtain rfl : e = e' := congrArg Prod.snd h
    exact (DocMap.set_get _ _ _).symm
  | cons d rest ih =>
    -- the rest finds the first document's result at the place, and writes over it
    rw [applyAll] at h
    rcases hone : e.applyRemoteMutation c d with ⟨r, e₁⟩
    rw [hone] at h
    cases r with
    | error err => cases h
    | ok _ =>
      rw [ih (fun x hx => hid x (List.mem_cons_of_mem _ hx)) h,
        applyRemoteMutation_set (hid d List.mem_cons_self) hone, DocMap.set_self, DocMap.set_set]
      rfl

/-! ## The greatest revision -/

/-- **Last writer wins.** For every stored live document, or none, and every sequence of live
remote versions of it, in any order and with pairwise unequal revisions: once they are applied,
the stored document is the one with the greatest revision among the stored and the applied ones,
`_conflicts` apart. A `_rev` that is not well formed counts as the initial revision. -/
theorem last_writer_wins (hid : ∀ d ∈ docs, d.get "_id" = some id.bson)
    (h : e.applyAll c docs = (.ok (), e'))
    (hne : contenders (stored e.storage c id.toString) docs ≠ [])
    (hlive : ∀ d ∈ contenders (stored e.storage c id.toString) docs, isDeleted d = false)
    (hrevs : (contenders (stored e.storage c id.toString) docs).Pairwise fun a b =>
      (docRevision a).cmp (docRevision b) ≠ .eq) :
    ∃ top ∈ contenders (stored e.storage c id.toString) docs,
      (∀ d ∈ contenders (stored e.storage c id.toString) docs,
        d = top ∨ (docRevision d).cmp (docRevision top) = .lt) ∧
      (stored e'.storage c id.toString).map (·.remove "_conflicts") =
        some (top.remove "_conflicts") := by
  obtain ⟨w, rest, hw⟩ := List.exists_cons_of_ne_nil hne
  rw [hw] at hlive hrevs ⊢
  have hstands : Contest.standing docStamp w rest ∈ w :: rest :=
    (Contest.standing_cons_defeated_perm w rest).subset List.mem_cons_self
  refine ⟨Contest.standing docStamp w rest, hstands, fun d hd => ?_, ?_⟩
  · by_cases htop : d = Contest.standing docStamp w rest
    · exact Or.inl htop
    · have hle : docStamp d ≤ docStamp (Contest.standing docStamp w rest) :=
        Contest.le_standing w rest d hd
      exact Or.inr (Revision.cmp_eq_lt.mpr (lt_of_le_of_distinct hrevs hstands hd htop hle))
  · obtain ⟨p, hp, hversion⟩ := version_resolveAll hlive rfl
    rw [applyAll_stored hid h, DocMap.set_self, resolveAll_of_contenders hw, hp, Option.map_some,
      (live_of_version_eq (hlive _ hstands) hversion).2.2]

/-! ## The losers -/

/-- **Losers stay listed.** For every sequence of live versions of a document, none with
conflicts of its own and all with unequal revisions, applied in any order to an empty place: the
`_conflicts` array of the stored winner lists the last ten of the versions that lost, or all of
them, and none of them with conflicts inside, exactly when the greatest version arrives first or
second, or at least ten arrive after it. -/
theorem conflicts_kept_iff (hid : ∀ d ∈ docs, d.get "_id" = some id.bson)
    (h : e.applyAll c docs = (.ok (), e')) (hempty : stored e.storage c id.toString = none)
    (hdocs : Versions docs) :
    (∀ w, stored e'.storage c id.toString = some w →
      ListsLosers w (Contest.losers docStamp docs)) ↔
    ∀ pre top post, docs = pre ++ top :: post →
      (∀ d ∈ docs, (docRevision d).cmp (docRevision top) ≠ .gt) →
        pre.length ≤ 1 ∨ 10 ≤ post.length := by
  have hstored : stored e'.storage c id.toString = resolveAll none docs := by
    rw [applyAll_stored hid h, DocMap.set_self, hempty]
  have hgreatest : ∀ {top : Document},
      (∀ d ∈ docs, (docRevision d).cmp (docRevision top) ≠ .gt) →
        ∀ d ∈ docs, docStamp d ≤ docStamp top := by
    intro top htop d hd
    exact not_lt.mp fun hlt => htop d hd (Revision.cmp_eq_gt.mpr hlt)
  rw [hstored]
  constructor
  · intro hlists pre top post hsplit htop
    have hle := hgreatest htop
    subst hsplit
    obtain ⟨w, hw⟩ := exists_resolveAll (List.append_ne_nil_of_right_ne_nil pre
      (List.cons_ne_nil top post)) none
    exact (hdocs.listsLosers_iff hle hw).mp (hlists w hw)
  · intro hplace w hw
    cases hd : docs with
    | nil =>
      rw [hd] at hw
      cases hw
    | cons v rest =>
      -- the greatest of them is somewhere
      have hin : Contest.standing docStamp v rest ∈ docs := by
        rw [hd]
        exact (Contest.standing_cons_defeated_perm v rest).subset List.mem_cons_self
      have hle : ∀ d ∈ docs, docStamp d ≤ docStamp (Contest.standing docStamp v rest) := by
        rw [hd]
        exact Contest.le_standing v rest
      obtain ⟨pre, post, hsplit⟩ := List.append_of_mem hin
      have hwhere := hplace pre _ post hsplit fun d hmem hgt =>
        (hle d hmem).not_gt (Revision.cmp_eq_gt.mp hgt)
      rw [← hd, hsplit]
      rw [hsplit] at hdocs hle hw
      exact (hdocs.listsLosers_iff hle hw).mpr hwhere

/-! ## Versions that come twice -/

/-- A version leaves what a place holds as it is, when it comes a second time. -/
def Absorbs (found : Option Document) (d : Document) : Prop :=
  match found with
  | none => True
  | some l =>
    isDeleted l = true ∨
      match (docRevision d).cmp (docRevision l) with
      | .eq => True
      -- it took in the stored one, and is alive or is full of it
      | .gt => isDeleted d = false ∨
          ∀ arr ∈ conflictRecord d, arr = List.replicate 10 (.document l.entries)
      -- the stored one took it in, and is full of it
      | .lt => ∀ arr ∈ conflictRecord l, arr.rtake 9 = List.replicate 9 (.document d.entries)

omit [FallibleStorage σ] in
/-- A version meets itself. -/
lemma resolve_self (d : Document) : resolve (some d) d = d := by
  have hcmp : (docRevision d).cmp (docRevision d) = .eq := Revision.cmp_eq_eq.mpr rfl
  simp only [resolve, hcmp, ite_self]

omit [FallibleStorage σ] in
lemma resolve_twice_iff (found : Option Document) (d : Document) :
    resolve (some (resolve found d)) d = resolve found d ↔ Absorbs found d := by
  cases found with
  | none => exact iff_of_true (resolve_self d) trivial
  | some l =>
    by_cases hdel : isDeleted l = true
    · have hfirst : resolve (some l) d = d := by simp only [resolve, hdel, if_true]
      rw [hfirst]
      exact iff_of_true (resolve_self d) (Or.inl hdel)
    · have hlive : isDeleted l = false := by simpa using hdel
      rw [Absorbs, or_iff_right hdel]
      cases hcmp : (docRevision d).cmp (docRevision l) with
      | eq =>
        have hfirst : resolve (some l) d = l := by
          simp only [resolve, hlive, hcmp, Bool.false_eq_true, if_false]
        rw [hfirst]
        exact iff_of_true hfirst trivial
      | lt =>
        have hsecond : ∀ w, isDeleted w = false → docRevision w = docRevision l →
            resolve (some w) d = addConflict d w := by
          intro w hw hrev
          simp only [resolve, hw, hrev, hcmp, Bool.false_eq_true, if_false]
        rw [hsecond l hlive rfl, hsecond (addConflict d l) (by rw [isDeleted_addConflict, hlive])
          (docRevision_addConflict d l)]
        exact addConflict_twice_iff d l
      | gt =>
        have hfirst : resolve (some l) d = addConflict l d := by
          simp only [resolve, hlive, hcmp, Bool.false_eq_true, if_false]
        have hsame : (docRevision d).cmp (docRevision (addConflict l d)) = .eq := by
          rw [docRevision_addConflict, Revision.cmp_eq_eq]
        rw [hfirst]
        cases hd : isDeleted d with
        | false =>
          refine iff_of_true ?_ (Or.inl rfl)
          simp only [resolve, isDeleted_addConflict, hd, hsame, Bool.false_eq_true, if_false]
        | true =>
          -- the stored tombstone gives way to the one that comes, without its conflicts
          have hsecond : resolve (some (addConflict l d)) d = d := by
            simp only [resolve, isDeleted_addConflict, hd, if_true]
          rw [hsecond, eq_comm, addConflict_eq_self_iff]
          simp

/-- **Redelivery.** For every storage and every remote document with an `_id`: applying it twice
in a row leaves the storage that applying it once leaves, exactly when its place is empty or holds
a tombstone or a version with the same revision, or an older version and the document is no
tombstone, or else what is kept of the loser is nothing but copies of it already. -/
theorem redelivery_harmless_iff {e'' : RangoEngine σ ω} {d : Document}
    (hid : d.get "_id" = some id.bson) (h : e.applyRemoteMutation c d = (.ok (), e'))
    (h' : e'.applyRemoteMutation c d = (.ok (), e'')) :
    stored e''.storage = stored e'.storage ↔ Absorbs (stored e.storage c id.toString) d := by
  have hplace : stored e'.storage c id.toString =
      some (resolve (stored e.storage c id.toString) d) := by
    rw [applyRemoteMutation_set hid h, DocMap.set_self]
  rw [← resolve_twice_iff, applyRemoteMutation_set hid h', hplace]
  constructor
  · intro hsame
    have hget := congrFun (congrFun hsame c) id.toString
    rw [DocMap.set_self, hplace] at hget
    exact Option.some.inj hget
  · intro hsame
    rw [hsame, ← hplace, DocMap.set_get]

end RangoEngine
end

/-! ## Worked examples -/

section
attribute [local instance] Formatting.sample

/-- A version of document `"d"`. -/
def sampleVersion (rev name : String) : Document :=
  ⟨[("_id", .string "d"), ("_rev", .string rev), ("name", .string name)]⟩

/-- A new node after versions arrived there. -/
def sampleMeeting (docs : List Document) :
    Except RangoError Unit × RangoEngine MemoryStorage NullOplog :=
  (sampleNode "a").applyAll ⟨"c"⟩ docs

/-- A greater version, and then a lesser one. -/
def sampleVersions : List Document := [sampleVersion "2-0-a" "B", sampleVersion "1-0-a" "A"]

lemma sampleMeeting_ok :
    sampleMeeting sampleVersions = (.ok (), (sampleMeeting sampleVersions).2) :=
  Prod.ext (by decide +kernel) rfl

/-- On a new node the greater one stays. -/
theorem RangoEngine.last_writer_wins_two :
    ∃ top ∈ sampleVersions,
      (∀ d ∈ sampleVersions, d = top ∨ (docRevision d).cmp (docRevision top) = .lt) ∧
      (stored (sampleMeeting sampleVersions).2.storage ⟨"c"⟩
        (DocumentId.toString ⟨.string "d"⟩)).map (·.remove "_conflicts") =
          some (top.remove "_conflicts") :=
  last_writer_wins (by decide) sampleMeeting_ok (by decide) (by decide) (by decide)

/-- For the same two versions: the lesser is listed. -/
theorem RangoEngine.conflicts_kept_iff_two :
    (∀ w, stored (sampleMeeting sampleVersions).2.storage ⟨"c"⟩
        (DocumentId.toString ⟨.string "d"⟩) = some w →
      ListsLosers w (Contest.losers docStamp sampleVersions)) ↔
    ∀ pre top post, sampleVersions = pre ++ top :: post →
      (∀ d ∈ sampleVersions, (docRevision d).cmp (docRevision top) ≠ .gt) →
        pre.length ≤ 1 ∨ 10 ≤ post.length :=
  conflicts_kept_iff (by decide) sampleMeeting_ok rfl ⟨by decide, by decide, by decide⟩

/-- Three versions, each greater than those before it. -/
def sampleAscending : List Document :=
  [sampleVersion "1-0-a" "A", sampleVersion "2-0-a" "B", sampleVersion "3-0-a" "C"]

/-- The second of them as it is stored. -/
def sampleNested : Document :=
  addConflict (sampleVersion "1-0-a" "A") (sampleVersion "2-0-a" "B")

/-- The last one lists the second, which has the first inside it, and nothing else. Two versions
lost, and the first of them can no longer be chosen. -/
theorem earlier_loser_is_buried :
    Contest.losers docStamp sampleAscending =
        [sampleVersion "1-0-a" "A", sampleVersion "2-0-a" "B"] ∧
      stored (sampleMeeting sampleAscending).2.storage ⟨"c"⟩ "\"d\"" =
        some (addConflict sampleNested (sampleVersion "3-0-a" "C")) ∧
      ¬ ListsLosers (addConflict sampleNested (sampleVersion "3-0-a" "C"))
        (Contest.losers docStamp sampleAscending) ∧
      ((sampleMeeting sampleAscending).2.listConflicts ⟨"c"⟩ fun _ => []).1 =
        .ok [(⟨.string "d"⟩, [sampleNested])] ∧
      ((sampleMeeting sampleAscending).2.resolveConflict ⟨"c"⟩ ⟨.string "d"⟩ ⟨"1-0-a"⟩).1 =
        .error (.conflict "Chosen revision not found in conflicts") := by
  have hAB : docStamp (sampleVersion "1-0-a" "A") < docStamp (sampleVersion "2-0-a" "B") :=
    Revision.cmp_eq_lt.mp (by decide)
  have hBC : docStamp (sampleVersion "2-0-a" "B") < docStamp (sampleVersion "3-0-a" "C") :=
    Revision.cmp_eq_lt.mp (by decide)
  refine ⟨?_, by decide +kernel, fun hlists => ?_, by decide +kernel, by decide +kernel⟩
  · rw [sampleAscending, Contest.losers, Contest.defeated, if_pos hAB, Contest.defeated,
      if_pos hBC, Contest.defeated]
  · exact absurd (hlists.flat sampleNested (by decide)) (by decide)

/-- For the lesser of the two versions, when it comes twice behind the greater. -/
theorem RangoEngine.redelivery_harmless_iff_lesser :
    stored ((sampleMeeting sampleVersions).2.applyRemoteMutation ⟨"c"⟩
        (sampleVersion "1-0-a" "A")).2.storage =
      stored (sampleMeeting sampleVersions).2.storage ↔
    Absorbs (stored (sampleMeeting [sampleVersion "2-0-a" "B"]).2.storage ⟨"c"⟩
      (DocumentId.toString ⟨.string "d"⟩)) (sampleVersion "1-0-a" "A") :=
  redelivery_harmless_iff rfl (Prod.ext (by decide +kernel) rfl)
    (Prod.ext (by decide +kernel) rfl)

/-- A tombstone with the greatest revision. -/
def sampleTombstone : Document :=
  ⟨[("_id", .string "d"), ("_rev", .string "3-0-a"), ("_deleted", .boolean true)]⟩

/-- The lesser version is listed once when it comes once, and twice when it comes twice. A
tombstone lists what it deletes, and no longer does when it comes a second time. -/
theorem redelivery_leaves_trace :
    stored (sampleMeeting sampleVersions).2.storage ⟨"c"⟩ "\"d\"" =
        some ((sampleVersion "2-0-a" "B").insert "_conflicts"
          (.array [.document (sampleVersion "1-0-a" "A").entries])) ∧
      stored (sampleMeeting (sampleVersions ++ [sampleVersion "1-0-a" "A"])).2.storage ⟨"c"⟩
          "\"d\"" =
        some ((sampleVersion "2-0-a" "B").insert "_conflicts"
          (.array [.document (sampleVersion "1-0-a" "A").entries,
            .document (sampleVersion "1-0-a" "A").entries])) ∧
      stored (sampleMeeting [sampleVersion "1-0-a" "A", sampleTombstone]).2.storage ⟨"c"⟩
          "\"d\"" =
        some (addConflict (sampleVersion "1-0-a" "A") sampleTombstone) ∧
      stored (sampleMeeting [sampleVersion "1-0-a" "A", sampleTombstone,
          sampleTombstone]).2.storage ⟨"c"⟩ "\"d\"" =
        some sampleTombstone := by
  refine ⟨?_, ?_, ?_, ?_⟩
  · decide +kernel
  · decide +kernel
  · decide +kernel
  · decide +kernel

end
end Rango
