import Mathlib.Data.List.Perm.Subperm
import Mathlib.Data.List.Nodup

/-!
# Families of maps in one flat map

A family of maps, one for each index, is kept in a single map whose keys encode an index
and a key. For one index the encoding is injective, across indices it need not be. The flat
map answers for the family where it is asked for a key that no other index holds, and a
listing of the flat map cut down to some keys is a listing of one map of the family exactly
when no other index holds one of these keys.
-/

namespace Flattening

variable {ι κ K β : Type} (enc : ι → κ → K)

/-- The flat map holds the entries of the family, and no two indices hold one key. -/
structure Flattens (D : ι → κ → Option β) (rows : K → Option β) : Prop where
  rows_iff : ∀ key b, rows key = some b ↔ ∃ i k, D i k = some b ∧ enc i k = key
  apart : ∀ {i j k l}, (D i k).isSome → (D j l).isSome → enc i k = enc j l → i = j

/-- Only index `i` holds a key with property `p`. -/
def HeldBy (D : ι → κ → Option β) (i : ι) (p : K → Prop) : Prop :=
  ∀ j k, (D j k).isSome → p (enc j k) → j = i

variable {enc} {D : ι → κ → Option β} {rows : K → Option β}

lemma Flattens.empty : Flattens enc (fun _ _ => none) (fun _ => none : K → Option β) where
  rows_iff := by simp
  apart := by simp

lemma Flattens.of_get (h : Flattens enc D rows) {i : ι} {k : κ} {b : β} (hget : D i k = some b) :
    rows (enc i k) = some b := (h.rows_iff _ _).mpr ⟨i, k, hget, rfl⟩

section
variable (henc : ∀ i, Function.Injective (enc i))
include henc

/-- The flat map answers for the family exactly where no other index holds the key. -/
theorem Flattens.get_iff (h : Flattens enc D rows) (i : ι) (k : κ) :
    rows (enc i k) = D i k ↔ HeldBy enc D i (· = enc i k) := by
  constructor
  · intro hget j l hl hkey
    obtain ⟨b, hb⟩ := Option.isSome_iff_exists.mp hl
    have hrow := h.of_get hb
    rw [hkey, hget] at hrow
    exact h.apart hl (Option.isSome_iff_exists.mpr ⟨b, hrow⟩) hkey
  · intro hheld
    refine Option.ext fun b => ⟨fun hrow => ?_, h.of_get⟩
    obtain ⟨j, l, hb, hkey⟩ := (h.rows_iff _ _).mp hrow
    obtain rfl := hheld j l (Option.isSome_iff_exists.mpr ⟨b, hb⟩) hkey
    rwa [henc j hkey] at hb

/-- So does whether there is an entry. -/
theorem Flattens.isSome_get_iff (h : Flattens enc D rows) (i : ι) (k : κ) :
    (rows (enc i k)).isSome = (D i k).isSome ↔ HeldBy enc D i (· = enc i k) := by
  rw [← h.get_iff henc]
  refine ⟨fun hsome => ?_, fun hget => congrArg Option.isSome hget⟩
  cases hget : D i k with
  | none =>
    rw [hget] at hsome
    exact Option.isSome_eq_false_iff.mp hsome |> Option.isNone_iff_eq_none.mp
  | some b => exact h.of_get hget

/-- Writing one place of the family and its key in the flat map. -/
theorem Flattens.set (h : Flattens enc D rows) {i : ι} {k : κ}
    (hheld : HeldBy enc D i (· = enc i k)) {v : Option β} {D' : ι → κ → Option β}
    {rows' : K → Option β} (hself : D' i k = v)
    (hother : ∀ j l, ¬ (j = i ∧ l = k) → D' j l = D j l) (hrow : rows' (enc i k) = v)
    (hrows : ∀ key, key ≠ enc i k → rows' key = rows key) : Flattens enc D' rows' := by
  -- another occupied place has another key
  have hne : ∀ j l, ¬ (j = i ∧ l = k) → (D j l).isSome → enc j l ≠ enc i k := by
    rintro j l hjl hl hkey
    obtain rfl := hheld j l hl hkey
    exact hjl ⟨rfl, henc j hkey⟩
  refine ⟨fun key b => ?_, fun {j j' l l'} hl hl' hkey => ?_⟩
  · by_cases hk : key = enc i k
    · subst hk
      rw [hrow]
      constructor
      · intro hv
        exact ⟨i, k, hself.trans hv, rfl⟩
      · rintro ⟨j, l, hb, hkey⟩
        by_cases hjl : j = i ∧ l = k
        · obtain ⟨rfl, rfl⟩ := hjl
          exact hself.symm.trans hb
        · rw [hother j l hjl] at hb
          exact absurd hkey (hne j l hjl (Option.isSome_iff_exists.mpr ⟨b, hb⟩))
    · rw [hrows key hk, h.rows_iff]
      refine exists₂_congr fun j l => ⟨?_, ?_⟩
      · rintro ⟨hb, rfl⟩
        exact ⟨(hother j l fun hjl => hk (hjl.1 ▸ hjl.2 ▸ rfl)).trans hb, rfl⟩
      · rintro ⟨hb, rfl⟩
        exact ⟨(hother j l fun hjl => hk (hjl.1 ▸ hjl.2 ▸ rfl)).symm.trans hb, rfl⟩
  · by_cases hjl : j = i ∧ l = k
    · by_cases hjl' : j' = i ∧ l' = k
      · exact hjl.1.trans hjl'.1.symm
      · rw [hother j' l' hjl'] at hl'
        rw [hjl.1, hjl.2] at hkey
        exact absurd hkey.symm (hne j' l' hjl' hl')
    · rw [hother j l hjl] at hl
      by_cases hjl' : j' = i ∧ l' = k
      · rw [hjl'.1, hjl'.2] at hkey
        exact absurd hkey (hne j l hjl hl)
      · rw [hother j' l' hjl'] at hl'
        exact h.apart hl hl' hkey

/-- Of a listing of the flat map, the rows with property `p` are the map of one index exactly
when no other index holds such a key. -/
theorem Flattens.scan_iff (h : Flattens enc D rows) {i : ι} {p : K → Bool}
    (hp : ∀ k, p (enc i k) = true) {table : List (K × β)} (htable : (table.map Prod.fst).Nodup)
    (hmem : ∀ key b, (key, b) ∈ table ↔ rows key = some b) {docs : List (κ × β)}
    (hdocs : (docs.map Prod.fst).Nodup) (hlist : ∀ k b, (k, b) ∈ docs ↔ D i k = some b) :
    ((table.filter fun row => p row.1).map Prod.snd).Perm (docs.map Prod.snd) ↔
      HeldBy enc D i (p · = true) := by
  set cut := table.filter fun row => p row.1 with hcut
  set keyed := docs.map fun e => (enc i e.1, e.2) with hkeyed
  have hcutNodup : cut.Nodup := (htable.of_map _).filter _
  have hkeyedNodup : keyed.Nodup := by
    refine (hdocs.of_map _).map ?_
    rintro ⟨k, b⟩ ⟨l, b'⟩ heq
    simp only [Prod.mk.injEq] at heq
    exact Prod.ext (henc i heq.1) heq.2
  have hsnd : docs.map Prod.snd = keyed.map Prod.snd := by
    rw [hkeyed, List.map_map]
    rfl
  have hmemCut : ∀ key b, (key, b) ∈ cut ↔ rows key = some b ∧ p key = true := by
    intro key b
    rw [hcut, List.mem_filter, hmem]
  have hmemKeyed : ∀ key b, (key, b) ∈ keyed ↔ ∃ k, D i k = some b ∧ enc i k = key := by
    intro key b
    simp only [hkeyed, List.mem_map, Prod.mk.injEq, Prod.exists, hlist]
    constructor
    · rintro ⟨k, b', hb, hkey, rfl⟩
      exact ⟨k, hb, hkey⟩
    · rintro ⟨k, hb, hkey⟩
      exact ⟨k, b, hb, hkey, rfl⟩
  have hsub : keyed ⊆ cut := by
    rintro ⟨key, b⟩ hin
    obtain ⟨k, hb, rfl⟩ := (hmemKeyed key b).mp hin
    exact (hmemCut _ b).mpr ⟨h.of_get hb, hp k⟩
  rw [hsnd]
  constructor
  · intro hperm j l hl hkey
    by_contra hne
    obtain ⟨b, hb⟩ := Option.isSome_iff_exists.mp hl
    -- the row of the other index makes the cut longer
    have hnew : (enc j l, b) ∉ keyed := by
      intro hin
      obtain ⟨k, hk, henc'⟩ := (hmemKeyed _ b).mp hin
      exact hne (h.apart hl (Option.isSome_iff_exists.mpr ⟨b, hk⟩) henc'.symm)
    have hlonger : (enc j l, b) :: keyed ⊆ cut :=
      List.cons_subset.mpr ⟨(hmemCut _ b).mpr ⟨h.of_get hb, hkey⟩, hsub⟩
    have hle := ((List.nodup_cons.mpr ⟨hnew, hkeyedNodup⟩).subperm hlonger).length_le
    have hlength := hperm.length_eq
    simp only [List.length_map, List.length_cons] at hle hlength
    omega
  · intro hheld
    refine ((List.perm_ext_iff_of_nodup hcutNodup hkeyedNodup).mpr ?_).map _
    rintro ⟨key, b⟩
    refine ⟨fun hin => ?_, fun hin => hsub hin⟩
    obtain ⟨hrow, hkey⟩ := (hmemCut key b).mp hin
    obtain ⟨j, l, hb, rfl⟩ := (h.rows_iff key b).mp hrow
    obtain rfl := hheld j l (Option.isSome_iff_exists.mpr ⟨b, hb⟩) hkey
    exact (hmemKeyed _ b).mpr ⟨l, hb, rfl⟩

end
end Flattening
