import Rango.Lib.IndexMap
import Mathlib.Data.List.Induction
import Mathlib.Data.List.Sort
import Mathlib.Order.Defs.LinearOrder

/-!
# Sorted maps as association lists

A map that lists its entries by ascending key: inserting keeps the order, and under a key that is
present it replaces the value. Such a list is determined by its entries, so building the map
forgets nothing but the order in which distinct keys were inserted.
-/

namespace SortedMap

variable {κ β γ : Type} [LinearOrder κ]

/-- Put `v` under `k`. -/
def insert (m : List (κ × β)) (k : κ) (v : β) : List (κ × β) :=
  match m with
  | [] => [(k, v)]
  | (k', v') :: rest =>
    if k < k' then (k, v) :: (k', v') :: rest
    else if k = k' then (k, v) :: rest
    else (k', v') :: insert rest k v

/-- The map with these entries, the later ones put over the earlier ones. -/
def ofEntries (es : List (κ × β)) : List (κ × β) := es.foldl (fun m e => insert m e.1 e.2) []

/-- Each key once, by ascending key. -/
def Ascending (m : List (κ × β)) : Prop := m.Pairwise fun a b => a.1 < b.1

instance : DecidablePred (Ascending : List (κ × β) → Prop) := fun m =>
  inferInstanceAs (Decidable (m.Pairwise fun a b => a.1 < b.1))

lemma Ascending.keys_nodup {m : List (κ × β)} (h : Ascending m) : (m.map Prod.fst).Nodup :=
  List.pairwise_map.mpr (h.imp fun hlt => hlt.ne)

/-! ## Inserting -/

lemma mem_insert {m : List (κ × β)} {k : κ} {v : β} {e : κ × β} (h : e ∈ insert m k v) :
    e = (k, v) ∨ e ∈ m := by
  induction m with
  | nil => exact .inl (List.mem_singleton.mp h)
  | cons e' rest ih =>
    rw [insert] at h
    split_ifs at h
    · exact List.mem_cons.mp h
    · exact (List.mem_cons.mp h).imp_right (List.mem_cons_of_mem _)
    · rcases List.mem_cons.mp h with rfl | h
      · exact .inr List.mem_cons_self
      · exact (ih h).imp_right (List.mem_cons_of_mem _)

lemma Ascending.insert {m : List (κ × β)} (h : Ascending m) (k : κ) (v : β) :
    Ascending (insert m k v) := by
  induction m with
  | nil => exact List.pairwise_singleton _ _
  | cons e rest ih =>
    have hrest := List.pairwise_cons.mp h
    rw [SortedMap.insert]
    split_ifs with hlt heq
    · refine List.pairwise_cons.mpr ⟨fun x hx => ?_, h⟩
      rcases List.mem_cons.mp hx with rfl | hx
      · exact hlt
      · exact hlt.trans (hrest.1 x hx)
    · exact List.pairwise_cons.mpr ⟨fun x hx => heq ▸ hrest.1 x hx, hrest.2⟩
    · refine List.pairwise_cons.mpr ⟨fun x hx => ?_, ih hrest.2⟩
      rcases mem_insert hx with rfl | hx
      · exact lt_of_le_of_ne (not_lt.mp hlt) (Ne.symm heq)
      · exact hrest.1 x hx

/-- A new key is added. -/
lemma insert_perm {m : List (κ × β)} {k : κ} (hk : k ∉ m.map Prod.fst) (v : β) :
    (insert m k v).Perm ((k, v) :: m) := by
  induction m with
  | nil => exact .refl _
  | cons e rest ih =>
    rw [List.map_cons, List.mem_cons, not_or] at hk
    rw [insert]
    split_ifs with hlt heq
    · exact .refl _
    · exact absurd heq hk.1
    · exact ((ih hk.2).cons e).trans (.swap _ _ _)

/-- A key above all others comes last. -/
lemma insert_of_lt {m : List (κ × β)} {k : κ} (hk : ∀ e ∈ m, e.1 < k) (v : β) :
    insert m k v = m ++ [(k, v)] := by
  induction m with
  | nil => rfl
  | cons e rest ih =>
    have hlt : e.1 < k := hk e List.mem_cons_self
    rw [insert, if_neg hlt.asymm, if_neg hlt.ne', ih fun x hx => hk x (List.mem_cons_of_mem _ hx)]
    rfl

/-! ## Building a map -/

lemma ascending_ofEntries (es : List (κ × β)) : Ascending (ofEntries es) :=
  List.foldlRecOn es (motive := Ascending) _ List.Pairwise.nil fun _ h e _ => h.insert e.1 e.2

/-- Distinct keys are all kept. -/
lemma ofEntries_perm {es : List (κ × β)} (h : (es.map Prod.fst).Nodup) :
    (ofEntries es).Perm es := by
  induction es using List.reverseRecOn with
  | nil => exact .refl _
  | append_singleton es e ih =>
    rw [List.map_append, List.map_singleton, List.nodup_append] at h
    have hbuilt : (ofEntries es).Perm es := ih h.1
    have hnew : e.1 ∉ (ofEntries es).map Prod.fst := fun hmem =>
      h.2.2 e.1 ((hbuilt.map _).mem_iff.mp hmem) e.1 (List.mem_singleton_self _) rfl
    rw [ofEntries, List.foldl_append]
    exact (insert_perm hnew e.2).trans
      ((hbuilt.cons e).trans (List.perm_append_singleton e es).symm)

/-- Ascending entries are in their place already. -/
lemma ofEntries_of_ascending {es : List (κ × β)} (h : Ascending es) : ofEntries es = es := by
  induction es using List.reverseRecOn with
  | nil => rfl
  | append_singleton es e ih =>
    have hsplit := List.pairwise_append.mp h
    rw [ofEntries, List.foldl_append]
    show insert (ofEntries es) e.1 e.2 = es ++ [e]
    rw [ih hsplit.1, insert_of_lt fun x hx => hsplit.2.2 x hx e (List.mem_singleton_self _)]

/-- Entries with the same keys in the same order give the same map only if they are the same. -/
lemma ofEntries_inj {es es' : List (κ × β)} (hkeys : es.map Prod.fst = es'.map Prod.fst)
    (hnodup : (es.map Prod.fst).Nodup) (h : ofEntries es = ofEntries es') : es = es' := by
  have hperm : es.Perm es' :=
    ((ofEntries_perm hnodup).symm.trans (h ▸ .refl _)).trans (ofEntries_perm (hkeys ▸ hnodup))
  clear h
  induction es generalizing es' with
  | nil => exact hperm.nil_eq
  | cons e rest ih =>
    cases es' with
    | nil => cases hkeys
    | cons e' rest' =>
      rw [List.map_cons, List.map_cons, List.cons.injEq] at hkeys
      have hfresh : e.1 ∉ rest'.map Prod.fst := hkeys.2 ▸ (List.nodup_cons.mp hnodup).1
      -- the entry under the first key can only be the first one
      have heq : e = e' := (List.mem_cons.mp (hperm.mem_iff.mp List.mem_cons_self)).resolve_right
        fun hmem => hfresh (List.mem_map_of_mem hmem)
      subst heq
      rw [ih hkeys.2 (List.nodup_cons.mp hnodup).2 hperm.cons_inv]

/-! ## Mapping the values -/

/-- The map with `f` applied to every value, if it is defined on all of them. -/
def mapValues (f : β → Option γ) : List (κ × β) → Option (List (κ × γ))
  | [] => some []
  | (k, v) :: rest => (f v).bind fun v' => (mapValues f rest).map ((k, v') :: ·)

omit [LinearOrder κ] in
lemma mapValues_keys {f : β → Option γ} {m : List (κ × β)} {m' : List (κ × γ)}
    (h : mapValues f m = some m') : m'.map Prod.fst = m.map Prod.fst := by
  induction m generalizing m' with
  | nil => cases h; rfl
  | cons e rest ih =>
    obtain ⟨v', -, h⟩ := Option.bind_eq_some_iff.mp h
    obtain ⟨rest', hrest, rfl⟩ := Option.map_eq_some_iff.mp h
    rw [List.map_cons, List.map_cons, ih hrest]

omit [LinearOrder κ] in
lemma mapValues_append_singleton (f : β → Option γ) (m : List (κ × β)) (e : κ × β) :
    mapValues f (m ++ [e]) =
      (mapValues f m).bind fun m' => (f e.2).map fun v' => m' ++ [(e.1, v')] := by
  induction m with
  | nil => cases hv : f e.2 <;> simp [mapValues, hv]
  | cons x rest ih =>
    rw [List.cons_append, mapValues, mapValues, ih]
    cases f x.2 <;> cases mapValues f rest <;> cases f e.2 <;> rfl

lemma mapValues_insert (f : β → Option γ) {m : List (κ × β)} {k : κ}
    (hk : k ∉ m.map Prod.fst) (v : β) :
    mapValues f (insert m k v) =
      (mapValues f m).bind fun m' => (f v).map fun v' => insert m' k v' := by
  induction m with
  | nil => cases hv : f v <;> simp [insert, mapValues, hv]
  | cons e rest ih =>
    rw [List.map_cons, List.mem_cons, not_or] at hk
    simp only [insert]
    split_ifs with hlt heq
    · cases hv : f v <;> cases he : f e.2 <;> cases hr : mapValues f rest <;>
        simp [mapValues, hv, he, hr, insert, hlt]
    · exact absurd heq hk.1
    · rw [mapValues, mapValues, ih hk.2]
      cases hv : f v <;> cases he : f e.2 <;> cases hr : mapValues f rest <;>
        simp [insert, hlt, heq]

/-- Building the map and mapping its values commute. -/
lemma mapValues_ofEntries (f : β → Option γ) {es : List (κ × β)} (h : (es.map Prod.fst).Nodup) :
    mapValues f (ofEntries es) = (mapValues f es).map ofEntries := by
  induction es using List.reverseRecOn with
  | nil => rfl
  | append_singleton es e ih =>
    rw [List.map_append, List.map_singleton, List.nodup_append] at h
    have hnew : e.1 ∉ (ofEntries es).map Prod.fst := fun hmem =>
      h.2.2 e.1 (((ofEntries_perm h.1).map _).mem_iff.mp hmem) e.1 (List.mem_singleton_self _) rfl
    rw [mapValues_append_singleton, ofEntries, List.foldl_append]
    show mapValues f (insert (ofEntries es) e.1 e.2) = _
    rw [mapValues_insert f hnew, ih h.1]
    cases mapValues f es with
    | none => rfl
    | some m' =>
      cases f e.2 with
      | none => rfl
      | some v' => simp [ofEntries, List.foldl_append]

/-! ## Looking up -/

/-- With distinct keys, a lookup finds what is listed. -/
lemma get_eq_some_iff {m : List (κ × β)} (h : (m.map Prod.fst).Nodup) {k : κ} {v : β} :
    IndexMap.get m k = some v ↔ (k, v) ∈ m := by
  induction m with
  | nil => simp [IndexMap.get]
  | cons e rest ih =>
    obtain ⟨hfresh, hrest⟩ := List.nodup_cons.mp h
    rw [IndexMap.get, List.mem_cons]
    split_ifs with hk
    · have hnot : (k, v) ∉ rest := fun hmem => hfresh (hk ▸ List.mem_map_of_mem hmem)
      simp [Prod.ext_iff, hk, hnot, eq_comm]
    · simp [ih hrest, Prod.ext_iff, Ne.symm hk]

lemma get_ofEntries {es : List (κ × β)} (h : (es.map Prod.fst).Nodup) (k : κ) :
    IndexMap.get (ofEntries es) k = IndexMap.get es k := by
  have hperm := ofEntries_perm h
  have hkeys := (ascending_ofEntries es).keys_nodup
  refine Option.ext fun v => ?_
  rw [get_eq_some_iff hkeys, get_eq_some_iff h, hperm.mem_iff]

lemma get_mapValues {f : β → Option γ} {m : List (κ × β)} {m' : List (κ × γ)}
    (h : mapValues f m = some m') (k : κ) :
    IndexMap.get m' k = (IndexMap.get m k).bind f := by
  induction m generalizing m' with
  | nil => cases h; rfl
  | cons e rest ih =>
    obtain ⟨v', hv', h⟩ := Option.bind_eq_some_iff.mp h
    obtain ⟨rest', hrest, rfl⟩ := Option.map_eq_some_iff.mp h
    simp only [IndexMap.get]
    split_ifs
    · exact hv'.symm
    · exact ih hrest

end SortedMap
