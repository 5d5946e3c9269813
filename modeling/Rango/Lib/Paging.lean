import Mathlib.Data.List.Basic
import Mathlib.Data.List.Nodup
import Mathlib.Data.List.Perm.Subperm

/-!
# Pages of a sorted list

A page is the first `n` elements of a list that is strictly increasing in some number. Its
members are the elements with at most `n` elements up to them. The last section compares a
page with a selection of the list by its numbers.
-/

namespace Paging

variable {α : Type} {f : α → ℕ}

/-- In a strictly increasing list, only the first element is not above the first element. -/
lemma countP_le_head {b : α} {l : List α} (h : ∀ x ∈ l, f b < f x) :
    l.countP (fun x => f x ≤ f b) = 0 := by
  rw [List.countP_eq_zero]
  intro x hx
  simp only [decide_eq_true_eq]
  exact Nat.not_le_of_lt (h x hx)

/-- **Pages.** An element is on the page exactly when at most `n` elements stand up to it. -/
theorem mem_take_iff {l : List α} (h : l.Pairwise fun a b => f a < f b) {n : ℕ} {a : α} :
    a ∈ l.take n ↔ a ∈ l ∧ l.countP (fun b => f b ≤ f a) ≤ n := by
  induction l generalizing n with
  | nil => simp
  | cons b l ih =>
    obtain ⟨hb, hl⟩ := List.pairwise_cons.mp h
    cases n with
    | zero =>
      have hpos : a ∈ b :: l → 0 < (b :: l).countP (fun x => f x ≤ f a) := fun ha =>
        List.countP_pos_iff.mpr ⟨a, ha, by simp⟩
      simp only [List.take_zero, List.not_mem_nil, false_iff, not_and]
      intro ha
      have := hpos ha
      omega
    | succ n =>
      rw [List.take_succ_cons, List.mem_cons, List.mem_cons, ih hl, List.countP_cons]
      constructor
      · rintro (rfl | ⟨ha, hcount⟩)
        · rw [countP_le_head hb]
          exact ⟨.inl rfl, by simp⟩
        · have hle : f b ≤ f a := Nat.le_of_lt (hb a ha)
          exact ⟨.inr ha, by simpa [hle] using hcount⟩
      · rintro ⟨rfl | ha, hcount⟩
        · exact .inl rfl
        · have hle : f b ≤ f a := Nat.le_of_lt (hb a ha)
          exact .inr ⟨ha, by simpa [hle] using hcount⟩

/-- With an element, a page holds those before it. -/
lemma mem_take_of_le {l : List α} (h : l.Pairwise fun a b => f a < f b) {n : ℕ} {a b : α}
    (ha : a ∈ l.take n) (hb : b ∈ l) (hle : f b ≤ f a) : b ∈ l.take n := by
  rw [mem_take_iff h] at ha ⊢
  have hmono : l.countP (fun c => f c ≤ f b) ≤ l.countP (fun c => f c ≤ f a) := by
    apply List.countP_mono_left
    intro c _ hc
    simp only [decide_eq_true_eq] at hc ⊢
    omega
  exact ⟨hb, by omega⟩

lemma nodup_of_increasing {l : List α} (h : l.Pairwise fun a b => f a < f b) :
    (l.map f).Nodup := by
  rw [List.Nodup, List.pairwise_map]
  exact h.imp fun hlt => Nat.ne_of_lt hlt

/-! ## Windows and selections -/

variable {l : List α} {keys : List ℕ} {start : ℕ}

/-- As many elements as there are keys, from `start` on. -/
def window (f : α → ℕ) (l : List α) (start : ℕ) (keys : List ℕ) : List α :=
  (l.filter fun a => start ≤ f a).take keys.length

/-- The elements with the given keys. -/
def selection (f : α → ℕ) (l : List α) (keys : List ℕ) : List α := l.filter fun a => f a ∈ keys

/-- The elements of the window that the keys do not name. -/
def strays (f : α → ℕ) (l : List α) (start : ℕ) (keys : List ℕ) : List α :=
  (window f l start keys).filter fun a => f a ∉ keys

/-- The elements that the keys name outside the window. -/
def missed (f : α → ℕ) (l : List α) (start : ℕ) (keys : List ℕ) : List α :=
  (selection f l keys).filter fun a => f a ∉ (window f l start keys).map f

/-- From `start` on, the keys are those of consecutive elements. -/
def Consecutive (f : α → ℕ) (l : List α) (start : ℕ) (keys : List ℕ) : Prop :=
  ∀ k ∈ keys, start ≤ k ∧ ∀ a ∈ l, start ≤ f a → f a ≤ k → f a ∈ keys

lemma window_sublist : (window f l start keys).Sublist l :=
  (List.take_sublist _ _).trans List.filter_sublist

lemma selection_sublist : (selection f l keys).Sublist l := List.filter_sublist

lemma mem_of_map_mem (h : (l.map f).Nodup) {w : List α} (hw : w.Sublist l) {a : α} (ha : a ∈ l)
    (hkey : f a ∈ w.map f) : a ∈ w := by
  obtain ⟨b, hb, heq⟩ := List.mem_map.mp hkey
  rwa [← List.inj_on_of_nodup_map h (hw.subset hb) ha heq]

/-- A window and a selection differ, as to what they carry, in the strays and the missed. -/
theorem window_perm_iff {β : Type} (g : α → β) (h : l.Pairwise fun a b => f a < f b)
    (start : ℕ) (keys : List ℕ) :
    ((window f l start keys).map g).Perm ((selection f l keys).map g) ↔
      ((strays f l start keys).map g).Perm ((missed f l start keys).map g) := by
  set w := window f l start keys with hw
  set s := selection f l keys with hs
  have hnodup := nodup_of_increasing h
  have hwl : w.Sublist l := window_sublist
  have hsl : s.Sublist l := selection_sublist
  have hcommon : (w.filter fun a => f a ∈ keys).Perm (s.filter fun a => f a ∈ w.map f) := by
    rw [List.perm_ext_iff_of_nodup (((hnodup.of_map).sublist hwl).filter _)
      (((hnodup.of_map).sublist hsl).filter _)]
    intro a
    simp only [List.mem_filter, decide_eq_true_eq]
    constructor
    · rintro ⟨ha, hkey⟩
      exact ⟨List.mem_filter.mpr ⟨hwl.subset ha, by simpa using hkey⟩, List.mem_map_of_mem ha⟩
    · rintro ⟨ha, hkey⟩
      exact ⟨mem_of_map_mem hnodup hwl (hsl.subset ha) hkey,
        by simpa using (List.mem_filter.mp ha).2⟩
  have hsplit : ∀ (p : α → Bool) (x : List α), (x.map g).Perm
      ((x.filter p).map g ++ (x.filter fun a => !p a).map g) := by
    intro p x
    rw [← List.map_append]
    exact ((List.filter_append_perm p x).map g).symm
  have hwperm := hsplit (fun a => f a ∈ keys) w
  have hsperm := hsplit (fun a => f a ∈ w.map f) s
  have hstrays : w.filter (fun a => !decide (f a ∈ keys)) = strays f l start keys := by
    simp only [strays, ← decide_not, hw]
  have hmissed : s.filter (fun a => !decide (f a ∈ w.map f)) = missed f l start keys := by
    simp only [missed, ← decide_not, hw, hs]
  rw [hstrays] at hwperm
  rw [hmissed] at hsperm
  rw [hwperm.congr_left, hsperm.congr_right, ((hcommon.map g).append_right _).congr_left,
    List.perm_append_left_iff]

/-- The window is the selection exactly when the keys are consecutive. -/
theorem window_eq_selection_iff (h : l.Pairwise fun a b => f a < f b) (hkeys : keys.Nodup)
    (hall : ∀ k ∈ keys, k ∈ l.map f) :
    strays f l start keys = [] ∧ missed f l start keys = [] ↔ Consecutive f l start keys := by
  have hnodup := nodup_of_increasing h
  have hfrom : (l.filter fun a => start ≤ f a).Pairwise fun a b => f a < f b := h.filter _
  constructor
  · rintro ⟨hstrays, hmissed⟩ k hk
    obtain ⟨a, ha, rfl⟩ := List.mem_map.mp (hall k hk)
    have hwindow : a ∈ window f l start keys := by
      by_contra hout
      have hmem : a ∈ missed f l start keys := by
        simp only [missed, selection, List.mem_filter, decide_eq_true_eq]
        exact ⟨⟨ha, hk⟩, fun hkey => hout (mem_of_map_mem hnodup window_sublist ha hkey)⟩
      rw [hmissed] at hmem
      cases hmem
    have hstart := (List.mem_filter.mp (List.mem_of_mem_take hwindow)).2
    refine ⟨by simpa using hstart, fun b hb hge hle => ?_⟩
    have hb' : b ∈ window f l start keys :=
      mem_take_of_le hfrom hwindow (List.mem_filter.mpr ⟨hb, by simpa using hge⟩) hle
    by_contra hout
    have hmem : b ∈ strays f l start keys := List.mem_filter.mpr ⟨hb', by simpa using hout⟩
    rw [hstrays] at hmem
    cases hmem
  · intro hcons
    -- every named element is on the page, as only named elements stand up to it
    have hsub : selection f l keys ⊆ window f l start keys := by
      intro a ha
      obtain ⟨hal, hak⟩ := List.mem_filter.mp ha
      replace hak : f a ∈ keys := by simpa using hak
      obtain ⟨hge, hbelow⟩ := hcons (f a) hak
      rw [window, mem_take_iff hfrom]
      refine ⟨List.mem_filter.mpr ⟨hal, by simpa using hge⟩, ?_⟩
      rw [List.countP_eq_length_filter]
      have hsubset : ((l.filter fun a => start ≤ f a).filter fun b => f b ≤ f a).map f ⊆ keys := by
        intro k hk
        obtain ⟨b, hb, rfl⟩ := List.mem_map.mp hk
        obtain ⟨hb, hle⟩ := List.mem_filter.mp hb
        obtain ⟨hb, hge⟩ := List.mem_filter.mp hb
        exact hbelow b hb (by simpa using hge) (by simpa using hle)
      have hsmall : (((l.filter fun a => start ≤ f a).filter fun b => f b ≤ f a).map f).Nodup :=
        hnodup.sublist ((List.filter_sublist.trans List.filter_sublist).map f)
      simpa using (hsmall.subperm hsubset).length_le
    have hlength : keys.length ≤ (selection f l keys).length := by
      have hsubset : keys ⊆ (selection f l keys).map f := by
        intro k hk
        obtain ⟨a, ha, rfl⟩ := List.mem_map.mp (hall k hk)
        exact List.mem_map_of_mem (List.mem_filter.mpr ⟨ha, by simpa using hk⟩)
      simpa using (hkeys.subperm hsubset).length_le
    have hperm : (selection f l keys).Perm (window f l start keys) := by
      have hsel : (selection f l keys).Nodup := hnodup.of_map.sublist selection_sublist
      apply (hsel.subperm hsub).perm_of_length_le
      have hle : (window f l start keys).length ≤ keys.length := List.length_take_le _ _
      omega
    constructor
    · rw [strays, List.filter_eq_nil_iff]
      intro a ha
      have hsel := (List.mem_filter.mp (hperm.mem_iff.mpr ha)).2
      simpa using hsel
    · rw [missed, List.filter_eq_nil_iff]
      intro a ha
      simpa using ⟨a, hperm.mem_iff.mp ha, rfl⟩

end Paging
