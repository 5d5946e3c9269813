import Mathlib.Data.List.Perm.Basic
import Mathlib.Data.List.Pairwise
import Mathlib.Data.List.MinMax
import Mathlib.Logic.Function.Basic

/-!
# Last-writer-wins registers with tombstones

A register holds at most one *version*: a stamp from a linear order, and either a value or
a tombstone. A version that arrives at a live register is compared by stamp and the later
one stays. A version that arrives at an empty or deleted register is stored without a
comparison. A *replica* is a family of registers, one for each key.

`converges_iff` says exactly which sets of versions every delivery order brings to the same
visible values: those in which a live version that some key receives is never outranked by
a tombstone of that key. `replay_eq_written_iff` compares a replica that replays a log with
the writer of that log, which overwrites.
-/

namespace Register

/-- A write: its stamp, and the value written or `none` for a tombstone. -/
structure Version (R V : Type) where
  stamp : R
  body : Option V

section Merge
variable {R V : Type} [LinearOrder R]

/-- What a register holds after one more version arrives. -/
def merge (s : Option (Version R V)) (w : Version R V) : Option (Version R V) :=
  match s with
  | none => some w
  | some l =>
    if l.body.isNone then some w
    else if l.stamp < w.stamp then some w
    else some l

/-- The value a reader sees: none for an empty register and for a tombstone. -/
def visible (s : Option (Version R V)) : Option V := s.bind Version.body

omit [LinearOrder R] in
@[simp] theorem visible_none : visible (none : Option (Version R V)) = none := rfl
omit [LinearOrder R] in
@[simp] theorem visible_some (w : Version R V) : visible (some w) = w.body := rfl

/-- A register never holds a version that did not arrive. -/
theorem foldl_merge_mem {ws : List (Version R V)} {s : Option (Version R V)} {l : Version R V}
    (h : ws.foldl merge s = some l) : s = some l ∨ l ∈ ws := by
  induction ws generalizing s with
  | nil => exact Or.inl h
  | cons w ws ih =>
    rcases ih h with hs | hmem
    · unfold merge at hs
      split at hs
      · exact Or.inr (by simp [Option.some.inj hs])
      · split_ifs at hs
        · exact Or.inr (by simp [Option.some.inj hs])
        · exact Or.inr (by simp [Option.some.inj hs])
        · exact Or.inl hs
    · exact Or.inr (List.mem_cons_of_mem _ hmem)

/-- A live version stays when nothing that arrives has a later stamp. -/
theorem foldl_merge_stays {top : Version R V} (hlive : top.body.isSome)
    {ws : List (Version R V)} (hle : ∀ w ∈ ws, w.stamp ≤ top.stamp) :
    ws.foldl merge (some top) = some top := by
  induction ws with
  | nil => rfl
  | cons w ws ih =>
    have hw : ¬ top.stamp < w.stamp := not_lt.mpr (hle w List.mem_cons_self)
    have hstep : merge (some top) w = some top := by
      simp [merge, Option.isSome_iff_ne_none.mp hlive, hw]
    rw [List.foldl_cons, hstep]
    exact ih fun x hx => hle x (List.mem_cons_of_mem _ hx)

/-- Versions with later and later stamps replace one another. -/
theorem foldl_merge_of_increasing {ws : List (Version R V)} {s : Option (Version R V)}
    (hinc : ws.Pairwise fun a b => a.stamp < b.stamp)
    (hs : ∀ l ∈ s, ∀ w ∈ ws, l.stamp < w.stamp) : ws.foldl merge s = ws.getLast?.or s := by
  induction ws generalizing s with
  | nil => rfl
  | cons w ws ih =>
    rw [List.pairwise_cons] at hinc
    have hstep : merge s w = some w := by
      cases s with
      | none => rfl
      | some l =>
        have hlt : l.stamp < w.stamp := hs l rfl w List.mem_cons_self
        rw [merge, if_pos hlt, ite_self]
    have hnext : ∀ l ∈ some w, ∀ x ∈ ws, l.stamp < x.stamp := by
      intro l hl x hx
      rw [← Option.some.inj hl]
      exact hinc.1 x hx
    rw [List.foldl_cons, hstep, ih hinc.2 hnext, List.getLast?_cons]
    cases ws.getLast? with
    | none => rfl
    | some x => rfl

/-- A live version with the latest stamp is what every order of arrival ends with. -/
theorem foldl_merge_eq_top {ws : List (Version R V)} {top : Version R V} (hmem : top ∈ ws)
    (hlive : top.body.isSome) (hle : ∀ w ∈ ws, w.stamp ≤ top.stamp)
    (hd : ws.Pairwise fun a b => a.stamp ≠ b.stamp) :
    ws.foldl merge none = some top := by
  obtain ⟨pre, post, rfl⟩ := List.append_of_mem hmem
  -- whatever the register holds before `top` arrives is empty, deleted or strictly older
  have harrive : merge (pre.foldl merge none) top = some top := by
    cases hpre : pre.foldl merge none with
    | none => rfl
    | some l =>
      have hl : l ∈ pre := (foldl_merge_mem hpre).resolve_left (by simp)
      have hne : l.stamp ≠ top.stamp :=
        (List.pairwise_append.mp hd).2.2 l hl top List.mem_cons_self
      have hlt : l.stamp < top.stamp :=
        lt_of_le_of_ne (hle l (List.mem_append_left _ hl)) hne
      simp [merge, hlt]
  rw [List.foldl_append, List.foldl_cons, harrive]
  exact foldl_merge_stays hlive fun w hw =>
    hle w (List.mem_append_right _ (List.mem_cons_of_mem _ hw))

/-- Tombstones alone leave nothing to see. -/
theorem visible_foldl_of_dead {ws : List (Version R V)} (h : ∀ w ∈ ws, w.body = none) :
    visible (ws.foldl merge none) = none := by
  cases hf : ws.foldl merge none with
  | none => rfl
  | some l => exact h l ((foldl_merge_mem hf).resolve_left (by simp))

/-- A tombstone that arrives last with the latest stamp hides everything before it. -/
theorem visible_snoc_tombstone {ws : List (Version R V)} {t : Version R V}
    (ht : t.body = none) (hlt : ∀ w ∈ ws, w.stamp < t.stamp) :
    visible ((ws ++ [t]).foldl merge none) = none := by
  rw [List.foldl_append, List.foldl_cons, List.foldl_nil]
  cases hf : ws.foldl merge none with
  | none => simpa [merge] using ht
  | some l =>
    have hl := hlt l ((foldl_merge_mem hf).resolve_left (by simp))
    simpa [merge, hl] using ht

/-- A live version that arrives last is visible, or something live already was. -/
theorem visible_snoc_live {ws : List (Version R V)} {u : Version R V} (hu : u.body.isSome) :
    (visible ((ws ++ [u]).foldl merge none)).isSome := by
  rw [List.foldl_append, List.foldl_cons, List.foldl_nil]
  cases ws.foldl merge none with
  | none => simpa [merge] using hu
  | some l =>
    simp only [merge]
    split_ifs with hnone hlt
    · simpa using hu
    · simpa using hu
    · simpa [Option.isSome_iff_ne_none] using hnone

/-- A live version that the register ends with was not followed by a later one. -/
theorem exists_split_of_foldl {ws : List (Version R V)} {l : Version R V}
    (h : ws.foldl merge none = some l) (hlive : l.body.isSome) :
    ∃ pre post, ws = pre ++ l :: post ∧ ∀ x ∈ post, ¬ l.stamp < x.stamp := by
  induction ws using List.reverseRecOn with
  | nil => cases h
  | append_singleton ws w ih =>
    rw [List.foldl_append, List.foldl_cons, List.foldl_nil] at h
    have hlast : some w = some l → ∃ pre post, ws ++ [w] = pre ++ l :: post ∧
        ∀ x ∈ post, ¬ l.stamp < x.stamp := by
      intro hw
      obtain rfl := Option.some.inj hw
      exact ⟨ws, [], rfl, by simp⟩
    cases hold : ws.foldl merge none with
    | none => exact hlast (by rw [hold] at h; exact h)
    | some old =>
      rw [hold] at h
      simp only [merge] at h
      split_ifs at h with hdead hlater
      · exact hlast h
      · exact hlast h
      · -- the old version stayed
        obtain rfl := Option.some.inj h
        obtain ⟨pre, post, rfl, hpost⟩ := ih hold
        refine ⟨pre, post ++ [w], by simp, fun x hx => ?_⟩
        rcases List.mem_append.mp hx with hx | hx
        · exact hpost x hx
        · rw [List.mem_singleton.mp hx]
          exact hlater

/-- A live version that no later one follows leaves something to see. -/
theorem visible_foldl_of_live {pre post : List (Version R V)} {w : Version R V}
    (hlive : w.body.isSome) (hpost : ∀ x ∈ post, ¬ w.stamp < x.stamp) :
    (visible ((pre ++ w :: post).foldl merge none)).isSome := by
  obtain ⟨l, hl, hbody, hle⟩ : ∃ l, merge (pre.foldl merge none) w = some l ∧
      l.body.isSome ∧ w.stamp ≤ l.stamp := by
    cases hpre : pre.foldl merge none with
    | none => exact ⟨w, rfl, hlive, le_rfl⟩
    | some old =>
      simp only [merge]
      split_ifs with hdead hlater
      · exact ⟨w, rfl, hlive, le_rfl⟩
      · exact ⟨w, rfl, hlive, le_rfl⟩
      · refine ⟨old, rfl, ?_, not_lt.mp hlater⟩
        simpa [Option.isSome_iff_ne_none] using hdead
  rw [List.foldl_append, List.foldl_cons, hl]
  rw [foldl_merge_stays hbody fun x hx => (not_lt.mp (hpost x hx)).trans hle]
  exact hbody

end Merge

section Replica
variable {K M R V : Type} [DecidableEq K] [LinearOrder R]
variable (key : M → K) (ver : M → Version R V)

/-- One message delivered to a replica: only the register it names can change. -/
def deliver (st : K → Option (Version R V)) (m : M) : K → Option (Version R V) :=
  Function.update st (key m) (merge (st (key m)) (ver m))

/-- The replica after the messages of `ms` arrived in that order. -/
def replay (ms : List M) : K → Option (Version R V) :=
  ms.foldl (deliver key ver) fun _ => none

/-- The versions among `ms` that one key receives, in order of arrival. -/
def received (ms : List M) (k : K) : List (Version R V) :=
  (ms.filter fun m => key m = k).map ver

theorem foldl_deliver_apply (ms : List M) (st : K → Option (Version R V)) (k : K) :
    ms.foldl (deliver key ver) st k = (received key ver ms k).foldl merge (st k) := by
  induction ms generalizing st with
  | nil => rfl
  | cons m ms ih =>
    rw [List.foldl_cons, ih]
    by_cases h : key m = k
    · subst h; simp [received, deliver]
    · have hk : k ≠ key m := fun h' => h h'.symm
      simp [received, deliver, h, hk]

/-- Registers do not influence each other: a key sees the fold of what it received. -/
theorem replay_apply (ms : List M) (k : K) :
    replay key ver ms k = (received key ver ms k).foldl merge none :=
  foldl_deliver_apply key ver ms _ k

variable {key ver}

/-- A key that receives nothing stays empty. -/
lemma replay_of_forall_ne {ms : List M} {k : K} (h : ∀ m ∈ ms, key m ≠ k) :
    replay key ver ms k = none := by
  have hnone : received key ver ms k = [] := by
    rw [received, List.filter_eq_nil_iff.mpr (by simpa using h), List.map_nil]
  rw [replay_apply, hnone, List.foldl_nil]

omit [LinearOrder R] in
theorem mem_received {ms : List M} {k : K} {w : Version R V} :
    w ∈ received key ver ms k ↔ ∃ m ∈ ms, key m = k ∧ ver m = w := by
  simp [received, and_assoc]

/-- **What is left to see.** When the messages arrive in a strict order, nothing is left to see
of a key exactly when every live version of it is followed by a later one. -/
theorem visible_replay_eq_none_iff (key : M → K) (ver : M → Version R V) {xs : List M}
    {before : M → M → Prop}
    (hsorted : xs.Pairwise before) (hasymm : ∀ a b, before a b → ¬ before b a) (k : K) :
    visible (replay key ver xs k) = none ↔
      ∀ m ∈ xs, key m = k → (ver m).body.isSome →
        ∃ m' ∈ xs, key m' = k ∧ (ver m).stamp < (ver m').stamp ∧ before m m' := by
  rw [replay_apply]
  constructor
  · intro hnone m hm hkey hlive
    by_contra hno
    obtain ⟨pre, post, rfl⟩ := List.append_of_mem hm
    have hafter := (List.pairwise_cons.mp (List.pairwise_append.mp hsorted).2.1).1
    have hsplit : received key ver (pre ++ m :: post) k =
        received key ver pre k ++ ver m :: received key ver post k := by
      simp [received, hkey]
    have hlast : ∀ x ∈ received key ver post k, ¬ (ver m).stamp < x.stamp := by
      intro x hx hlt
      obtain ⟨m', hm', hkey', rfl⟩ := mem_received.mp hx
      exact hno ⟨m', List.mem_append_right _ (List.mem_cons_of_mem _ hm'), hkey', hlt,
        hafter m' hm'⟩
    have hseen : (visible ((received key ver (pre ++ m :: post) k).foldl merge none)).isSome := by
      rw [hsplit]
      exact visible_foldl_of_live hlive hlast
    rw [hnone] at hseen
    cases hseen
  · intro hall
    by_contra hne
    cases hfold : (received key ver xs k).foldl merge none with
    | none => exact hne (by rw [hfold]; rfl)
    | some l =>
      rw [hfold] at hne
      have hlive : l.body.isSome := Option.isSome_iff_ne_none.mpr hne
      obtain ⟨pre, post, hsplit, hpost⟩ := exists_split_of_foldl hfold hlive
      -- the messages behind `pre`, `l` and `post`
      obtain ⟨pre', rest', hfilter, rfl, hrest⟩ := List.map_eq_append_iff.mp hsplit
      obtain ⟨m, post', rfl, rfl, rfl⟩ := List.map_eq_cons_iff.mp hrest
      have hm : m ∈ xs.filter fun m => key m = k := by
        rw [hfilter]
        exact List.mem_append_right _ List.mem_cons_self
      rw [List.mem_filter, decide_eq_true_eq] at hm
      obtain ⟨m', hm', hkey', hlt, hbefore⟩ := hall m hm.1 hm.2 hlive
      have hmem : m' ∈ pre' ++ m :: post' := by
        rw [← hfilter]
        exact List.mem_filter.mpr ⟨hm', decide_eq_true hkey'⟩
      have hordered : (pre' ++ m :: post').Pairwise before := by
        rw [← hfilter]
        exact hsorted.sublist List.filter_sublist
      rcases List.mem_append.mp hmem with hmem | hmem
      · exact hasymm m m' hbefore
          ((List.pairwise_append.mp hordered).2.2 m' hmem m List.mem_cons_self)
      · rcases List.mem_cons.mp hmem with rfl | hmem
        · exact lt_irrefl _ hlt
        · exact hpost (ver m') (List.mem_map_of_mem hmem) hlt

/-- The live version of `m`'s key that outranks all others of that key, if there is one. -/
def HasLiveTop (key : M → K) (ver : M → Version R V) (ms : List M) (m : M) : Prop :=
  ∃ top ∈ ms, key top = key m ∧ (ver top).body.isSome ∧
    ∀ m' ∈ ms, key m' = key m → (ver m').stamp ≤ (ver top).stamp

omit [LinearOrder R] in
theorem received_stamps_ne {ms : List M}
    (hd : ms.Pairwise fun a b => (ver a).stamp ≠ (ver b).stamp) (k : K) :
    (received key ver ms k).Pairwise fun a b => a.stamp ≠ b.stamp :=
  List.pairwise_map.mpr (hd.sublist List.filter_sublist)

/-- A nonempty list has an element no other one outranks. -/
theorem exists_latest (l : List M) (f : M → R) (h : l ≠ []) : ∃ t ∈ l, ∀ x ∈ l, f x ≤ f t := by
  cases hmax : l.argmax f with
  | none => exact absurd (List.argmax_eq_none.mp hmax) h
  | some t => exact ⟨t, List.argmax_mem hmax, fun x hx => List.le_of_mem_argmax hx hmax⟩

/-- With a live top for a key, its register ends with that top in every order. -/
theorem replay_eq_top {ms xs : List M} {m top : M}
    (hd : ms.Pairwise fun a b => (ver a).stamp ≠ (ver b).stamp) (hx : xs.Perm ms)
    (htop : top ∈ ms) (hkey : key top = key m) (hlive : (ver top).body.isSome)
    (hle : ∀ m' ∈ ms, key m' = key m → (ver m').stamp ≤ (ver top).stamp) :
    replay key ver xs (key m) = some (ver top) := by
  rw [replay_apply]
  have hxd := (hx.pairwise_iff fun h => Ne.symm h).mpr hd
  refine foldl_merge_eq_top (mem_received.mpr ⟨top, hx.mem_iff.mpr htop, hkey, rfl⟩) hlive ?_
    (received_stamps_ne hxd _)
  intro w hw
  obtain ⟨m', hm', hk, rfl⟩ := mem_received.mp hw
  exact hle m' (hx.mem_iff.mp hm') hk

/-- **Convergence.** All delivery orders of `ms` show the same values exactly when every key
that receives a live version has a live version as its latest. -/
theorem converges_iff (key : M → K) (ver : M → Version R V) {ms : List M}
    (hd : ms.Pairwise fun a b => (ver a).stamp ≠ (ver b).stamp) :
    (∀ xs ys, xs.Perm ms → ys.Perm ms → ∀ k,
      visible (replay key ver xs k) = visible (replay key ver ys k)) ↔
    ∀ m ∈ ms, (ver m).body.isSome → HasLiveTop key ver ms m := by
  constructor
  · intro hconv u hu hlive
    by_contra hno
    -- the latest version of `u`'s key is then a tombstone `t`
    obtain ⟨t, ht, hmax⟩ := exists_latest (ms.filter fun m => key m = key u)
      (fun m => (ver m).stamp) (List.ne_nil_of_mem (by simp [hu] : u ∈ _))
    simp only [List.mem_filter, decide_eq_true_eq] at ht hmax
    have hdead : (ver t).body = none := by
      by_contra hsome
      exact hno ⟨t, ht.1, ht.2, Option.isSome_iff_ne_none.mpr hsome,
        fun m' hm' hk => hmax m' ⟨hm', hk⟩⟩
    -- deliver `t` last, and deliver `u` last
    obtain ⟨pre, post, hms⟩ := List.append_of_mem ht.1
    obtain ⟨pre', post', hms'⟩ := List.append_of_mem hu
    have hlast : (pre ++ post ++ [t]).Perm ms := by
      rw [hms, List.append_assoc]
      exact List.Perm.append_left pre List.perm_append_comm
    have hlast' : (pre' ++ post' ++ [u]).Perm ms := by
      rw [hms', List.append_assoc]
      exact List.Perm.append_left pre' List.perm_append_comm
    have hsame := hconv _ _ hlast hlast' (key u)
    rw [replay_apply, replay_apply] at hsame
    have hsplit : received key ver (pre ++ post ++ [t]) (key u)
        = received key ver (pre ++ post) (key u) ++ [ver t] := by
      simp [received, ht.2]
    have hsplit' : received key ver (pre' ++ post' ++ [u]) (key u)
        = received key ver (pre' ++ post') (key u) ++ [ver u] := by
      simp [received]
    have hgone : visible ((received key ver (pre ++ post ++ [t]) (key u)).foldl merge none)
        = none := by
      rw [hsplit]
      refine visible_snoc_tombstone hdead ?_
      intro w hw
      obtain ⟨m', hm', hk, rfl⟩ := mem_received.mp hw
      have hin : m' ∈ ms := hlast.mem_iff.mp (List.mem_append_left _ hm')
      have hne : (ver m').stamp ≠ (ver t).stamp := by
        have hxd := (hlast.pairwise_iff fun h => Ne.symm h).mpr hd
        exact (List.pairwise_append.mp hxd).2.2 m' hm' t (by simp)
      exact lt_of_le_of_ne (hmax m' ⟨hin, hk⟩) hne
    have hseen : (visible ((received key ver (pre' ++ post') (key u) ++ [ver u]).foldl merge
        none)).isSome := visible_snoc_live hlive
    rw [← hsplit', ← hsame, hgone] at hseen
    simp at hseen
  · intro htop xs ys hx hy k
    by_cases hlive : ∃ m ∈ ms, key m = k ∧ (ver m).body.isSome
    · obtain ⟨m, hm, rfl, hl⟩ := hlive
      obtain ⟨top, hmem, hkey, hbody, hle⟩ := htop m hm hl
      rw [replay_eq_top hd hx hmem hkey hbody hle, replay_eq_top hd hy hmem hkey hbody hle]
    · -- the key receives tombstones only
      have hdead : ∀ zs : List M, zs.Perm ms → visible (replay key ver zs k) = none := by
        intro zs hz
        rw [replay_apply]
        refine visible_foldl_of_dead fun w hw => ?_
        obtain ⟨m, hm, hk, rfl⟩ := mem_received.mp hw
        by_contra hne
        exact hlive ⟨m, hz.mem_iff.mp hm, hk, Option.isSome_iff_ne_none.mpr hne⟩
      rw [hdead xs hx, hdead ys hy]

/-! ## Replaying the log of a writer -/

/-- One message written without a comparison. -/
def overwrite (key : M → K) (ver : M → Version R V) (st : K → Option (Version R V)) (m : M) :
    K → Option (Version R V) :=
  Function.update st (key m) (some (ver m))

/-- What a writer holds after the writes of its log. -/
def written (key : M → K) (ver : M → Version R V) (log : List M) : K → Option (Version R V) :=
  log.foldl (overwrite key ver) fun _ => none

omit [LinearOrder R] in
lemma written_append_singleton (log : List M) (m : M) :
    written key ver (log ++ [m]) = overwrite key ver (written key ver log) m := by
  rw [written, List.foldl_append]
  rfl

omit [LinearOrder R] in
/-- A key holds what was written to it last. -/
lemma foldl_overwrite_apply (ms : List M) (st : K → Option (Version R V)) (k : K) :
    ms.foldl (overwrite key ver) st k =
      ((ms.filter fun m => key m = k).getLast?.map ver).or (st k) := by
  induction ms using List.reverseRecOn with
  | nil => rfl
  | append_singleton ms m ih =>
    rw [List.foldl_append, List.filter_append, List.getLast?_append]
    show overwrite key ver (ms.foldl (overwrite key ver) st) m k = _
    rw [overwrite]
    by_cases hk : key m = k
    · rw [hk, Function.update_self]
      simp [hk]
    · rw [Function.update_of_ne fun h => hk h.symm, ih]
      simp [hk]

omit [LinearOrder R] in
lemma written_of_forall_ne {log : List M} {k : K} (h : ∀ m ∈ log, key m ≠ k) :
    written key ver log k = none := by
  induction log using List.reverseRecOn with
  | nil => rfl
  | append_singleton log m ih =>
    have hm : key m ≠ k := h m (by simp)
    rw [written_append_singleton, overwrite, Function.update_of_ne hm.symm]
    exact ih fun x hx => h x (List.mem_append_left _ hx)

/-- A writer with increasing stamps holds the latest version of each key. -/
lemma written_eq_top {log : List M}
    (hinc : log.Pairwise fun a b => (ver a).stamp < (ver b).stamp) {top : M} (htop : top ∈ log)
    (hle : ∀ m ∈ log, key m = key top → (ver m).stamp ≤ (ver top).stamp) :
    written key ver log (key top) = some (ver top) := by
  induction log using List.reverseRecOn with
  | nil => cases htop
  | append_singleton log m ih =>
    rw [written_append_singleton, overwrite]
    by_cases hlast : top ∈ log
    · have hlt : (ver top).stamp < (ver m).stamp :=
        (List.pairwise_append.mp hinc).2.2 top hlast m (by simp)
      have hne : key m ≠ key top := fun hk => (hle m (by simp) hk).not_gt hlt
      rw [Function.update_of_ne hne.symm]
      exact ih (List.pairwise_append.mp hinc).1 hlast fun x hx =>
        hle x (List.mem_append_left _ hx)
    · have heq : top = m := by simpa [hlast] using htop
      rw [heq, Function.update_self]

/-- Without a live version as the latest of a key there is nothing to see. -/
lemma visible_written_eq_none {log : List M}
    (hinc : log.Pairwise fun a b => (ver a).stamp < (ver b).stamp) {k : K}
    (hno : ∀ m ∈ log, key m = k → ¬ HasLiveTop key ver log m) :
    visible (written key ver log k) = none := by
  by_cases hex : ∃ m ∈ log, key m = k
  · obtain ⟨m, hm, hk⟩ := hex
    obtain ⟨t, ht, hmax⟩ := exists_latest (log.filter fun m => key m = k)
      (fun m => (ver m).stamp) (List.ne_nil_of_mem (by simp [hm, hk] : m ∈ _))
    simp only [List.mem_filter, decide_eq_true_eq] at ht hmax
    have hle : ∀ x ∈ log, key x = key t → (ver x).stamp ≤ (ver t).stamp := fun x hx hkey =>
      hmax x ⟨hx, hkey.trans ht.2⟩
    have htop := written_eq_top hinc ht.1 hle
    rw [ht.2] at htop
    rw [htop, visible_some]
    by_contra hlive
    exact hno t ht.1 ht.2 ⟨t, ht.1, rfl, Option.isSome_iff_ne_none.mpr hlive, hle⟩
  · have hne : ∀ m ∈ log, key m ≠ k := fun m hm hk => hex ⟨m, hm, hk⟩
    rw [written_of_forall_ne hne, visible_none]

/-- **Replaying a log.** A writer overwrites, with stamps that increase; a replica merges the
messages of its log, arranged in a strict order. The two show the same of every key exactly
when each live message either has a live one as the latest of its key, or is followed in that
order by a later message of its key. -/
theorem replay_eq_written_iff (key : M → K) (ver : M → Version R V) {log xs : List M}
    {before : M → M → Prop}
    (hinc : log.Pairwise fun a b => (ver a).stamp < (ver b).stamp) (hx : xs.Perm log)
    (hsorted : xs.Pairwise before) (hasymm : ∀ a b, before a b → ¬ before b a) :
    (∀ k, visible (replay key ver xs k) = visible (written key ver log k)) ↔
      ∀ m ∈ log, (ver m).body.isSome → HasLiveTop key ver log m ∨
        ∃ m' ∈ log, key m' = key m ∧ (ver m).stamp < (ver m').stamp ∧ before m m' := by
  have hdead := fun k => visible_replay_eq_none_iff key ver hsorted hasymm k
  constructor
  · intro hsame m hm hlive
    by_cases htop : HasLiveTop key ver log m
    · exact Or.inl htop
    · refine Or.inr ?_
      have hno : ∀ x ∈ log, key x = key m → ¬ HasLiveTop key ver log x := by
        intro x _ hk hx
        rw [HasLiveTop, hk] at hx
        exact htop hx
      have hnone : visible (replay key ver xs (key m)) = none := by
        rw [hsame, visible_written_eq_none hinc hno]
      obtain ⟨m', hm', hrest⟩ := (hdead (key m)).mp hnone m (hx.mem_iff.mpr hm) rfl hlive
      exact ⟨m', hx.mem_iff.mp hm', hrest⟩
  · intro hcond k
    by_cases hlive : ∃ m ∈ log, key m = k ∧ HasLiveTop key ver log m
    · -- both hold the live top
      obtain ⟨m, hm, rfl, top, hmem, hkey, hbody, hle⟩ := hlive
      have hw : written key ver log (key m) = some (ver top) := by
        rw [← hkey]
        exact written_eq_top hinc hmem fun x hx hk => hle x hx (hk.trans hkey)
      rw [hw, replay_eq_top (hinc.imp ne_of_lt) hx hmem hkey hbody hle]
    · have hno : ∀ m ∈ log, key m = k → ¬ HasLiveTop key ver log m := fun m hm hk htop =>
        hlive ⟨m, hm, hk, htop⟩
      rw [visible_written_eq_none hinc hno, hdead k]
      intro m hm hk hbody
      have hm' := hx.mem_iff.mp hm
      obtain ⟨m', hmem, hkey, hrest⟩ := (hcond m hm' hbody).resolve_left (hno m hm' hk)
      exact ⟨m', hx.mem_iff.mpr hmem, hkey.trans hk, hrest⟩

end Replica
end Register
