import Mathlib.Algebra.BigOperators.Group.List.Basic
import Mathlib.Algebra.Order.Ring.Nat
import Mathlib.Data.List.Basic

/-!
# Bounds on the rate of events

The instants of some events, in order, are bounded when the events of every interval of time cost at
most a capacity and what comes in meanwhile. Only the intervals from one event to another have to be
checked (`bounded_iff_contiguous`), and where the events come in blocks that the capacity pays for,
only those from one block to a later one (`bounded_flatten_iff`).
-/

namespace RateBound

section
variable {capacity rate cost : ℕ} {events : List ℕ} {t : ℕ}

/-- The number of events in an interval. -/
def within (events : List ℕ) (first last : ℕ) : ℕ :=
  events.countP fun t => first ≤ t ∧ t ≤ last

/-- The number of events from an instant on. -/
def since (events : List ℕ) (first : ℕ) : ℕ := events.countP fun t => first ≤ t

/-- The events of every interval cost at most the capacity and what comes in meanwhile. -/
def Bounded (capacity rate cost : ℕ) (events : List ℕ) : Prop :=
  ∀ first last, first ≤ last →
    cost * within events first last ≤ capacity + rate * (last - first)

lemma since_append (events : List ℕ) {first : ℕ} (h : first ≤ t) :
    since (events ++ [t]) first = since events first + 1 := by
  simp [since, List.countP_append, h]

lemma since_eq_zero {first : ℕ} (h : ∀ t ∈ events, t < first) : since events first = 0 := by
  rw [since, List.countP_eq_zero]
  intro t ht
  simpa using h t ht

/-- One more event, behind the others, counts in the intervals around it. -/
lemma within_append (hlast : ∀ x ∈ events, x ≤ t) (first last : ℕ) :
    within (events ++ [t]) first last =
      if first ≤ t ∧ t ≤ last then since events first + 1 else within events first last := by
  rw [within, List.countP_append, List.countP_singleton]
  by_cases hin : first ≤ t ∧ t ≤ last
  · have hsame : (events.countP fun x => first ≤ x ∧ x ≤ last) = since events first := by
      refine List.countP_congr fun x hx => ?_
      have hx := hlast x hx
      simp only [decide_eq_true_eq]
      omega
    rw [hsame, if_pos (by simpa using hin), if_pos hin]
  · rw [if_neg (by simpa using hin), if_neg hin, Nat.add_zero, within]

/-! ## Events in order -/

/-- The events up to an instant come first. -/
lemma filter_le_initial (hsorted : events.Pairwise (· ≤ ·)) (last : ℕ) :
    events.filter (fun t => t ≤ last) <+: events := by
  induction events with
  | nil => exact List.prefix_rfl
  | cons x rest ih =>
    obtain ⟨hfirst, hrest⟩ := List.pairwise_cons.mp hsorted
    by_cases hx : x ≤ last
    · rw [List.filter_cons_of_pos (by simpa using hx)]
      exact List.cons_prefix_cons.mpr ⟨rfl, ih hrest⟩
    · have hnone : (x :: rest).filter (fun t => t ≤ last) = [] := by
        rw [List.filter_eq_nil_iff]
        intro t ht
        rcases List.mem_cons.mp ht with rfl | ht
        · simpa using hx
        · have hle := hfirst t ht
          simp only [decide_eq_true_eq]
          omega
      rw [hnone]
      exact List.nil_prefix

/-- The events of an interval come one after another. -/
lemma filter_within_contiguous (hsorted : events.Pairwise (· ≤ ·)) (first last : ℕ) :
    events.filter (fun t => first ≤ t ∧ t ≤ last) <:+: events := by
  induction events with
  | nil => exact List.infix_rfl
  | cons x rest ih =>
    obtain ⟨hfirst, hrest⟩ := List.pairwise_cons.mp hsorted
    by_cases hx : first ≤ x
    · -- all events come after the beginning of the interval
      have hall : (x :: rest).filter (fun t => first ≤ t ∧ t ≤ last) =
          (x :: rest).filter fun t => t ≤ last := by
        refine List.filter_congr fun t ht => ?_
        have hle : first ≤ t := by
          rcases List.mem_cons.mp ht with rfl | ht
          · exact hx
          · exact hx.trans (hfirst t ht)
        simp [hle]
      rw [hall]
      exact (filter_le_initial hsorted last).isInfix
    · rw [List.filter_cons_of_neg (by simp [hx])]
      exact List.infix_cons (ih hrest)

/-- The ends of some events in order are the first and the last of them. -/
lemma mem_between {run : List ℕ} (hsorted : run.Pairwise (· ≤ ·)) (hne : run ≠ []) :
    ∀ t ∈ run, run.head hne ≤ t ∧ t ≤ run.getLast hne := by
  intro t ht
  constructor
  · cases run with
    | nil => exact absurd rfl hne
    | cons x rest =>
      rcases List.mem_cons.mp ht with rfl | ht
      · exact le_rfl
      · exact List.rel_of_pairwise_cons hsorted ht
  · obtain ⟨front, last, rfl⟩ := run.eq_nil_or_concat'.resolve_left hne
    rw [List.getLast_append_singleton]
    rcases List.mem_append.mp ht with ht | ht
    · exact (List.pairwise_append.mp hsorted).2.2 t ht last (List.mem_singleton_self _)
    · exact (List.mem_singleton.mp ht).le

/-- **Runs.** Events in order are bounded when all that come one after another are, from the first
of them to the last. -/
theorem bounded_iff_contiguous (hsorted : events.Pairwise (· ≤ ·)) :
    Bounded capacity rate cost events ↔ ∀ run, run <:+: events → ∀ hne : run ≠ [],
      cost * run.length ≤ capacity + rate * (run.getLast hne - run.head hne) := by
  constructor
  · intro h run hrun hne
    have hbetween := mem_between (hsorted.sublist hrun.sublist) hne
    have hcount : run.length ≤ within events (run.head hne) (run.getLast hne) := by
      rw [within]
      refine le_trans (le_of_eq (Eq.symm ?_)) (hrun.sublist.countP_le)
      rw [List.countP_eq_length]
      intro t ht
      simpa using hbetween t ht
    exact (Nat.mul_le_mul_left cost hcount).trans
      (h _ _ (hbetween _ (run.head_mem hne)).2)
  · intro h first last hle
    rw [within, List.countP_eq_length_filter]
    by_cases hne : events.filter (fun t => first ≤ t ∧ t ≤ last) = []
    · rw [hne]
      exact Nat.zero_le _
    · refine (h _ (filter_within_contiguous hsorted first last) hne).trans ?_
      have hhead := List.of_mem_filter (List.head_mem hne)
      have hlast := List.of_mem_filter (List.getLast_mem hne)
      simp only [decide_eq_true_eq] at hhead hlast
      have hmono := Nat.mul_le_mul_left rate
        (show List.getLast _ hne - List.head _ hne ≤ last - first by omega)
      omega

/-! ## Blocks -/

/-- An event of a list of blocks lies in one of them. -/
lemma append_cons_eq_flatten {blocks : List (List ℕ)} {x : ℕ} {before after : List ℕ}
    (h : before ++ x :: after = blocks.flatten) :
    ∃ pre v₁ v₂ post, blocks = pre ++ (v₁ ++ x :: v₂) :: post ∧ before = pre.flatten ++ v₁ ∧
      after = v₂ ++ post.flatten := by
  rcases List.append_eq_flatten_iff.mp h with
    ⟨as, bs, rfl, rfl, htail⟩ | ⟨as, bs, c, cs, ds, rfl, rfl, htail⟩
  · -- it is the first of its block, behind empty ones
    obtain ⟨empties, v₂, post, rfl, hempty, rfl⟩ := List.flatten_eq_cons_iff.mp htail.symm
    refine ⟨as ++ empties, [], v₂, post, by simp, ?_, rfl⟩
    rw [List.flatten_append, List.flatten_eq_nil_iff.mpr hempty, List.append_nil, List.append_nil]
  · obtain ⟨rfl, rfl⟩ := List.cons.inj htail
    exact ⟨as, bs, cs, ds, rfl, rfl, rfl⟩

/-- A run over a list of blocks lies in one block, or begins in a block and ends in a later one. -/
lemma infix_flatten {blocks : List (List ℕ)} {x y : ℕ} {between : List ℕ}
    (h : x :: (between ++ [y]) <:+: blocks.flatten) :
    (∃ block ∈ blocks, x :: (between ++ [y]) <:+: block) ∨
      ∃ pre v₁ v₂ mid w₁ w₂ post,
        blocks = pre ++ (v₁ ++ x :: v₂) :: (mid ++ (w₁ ++ y :: w₂) :: post) ∧
          between = v₂ ++ (mid.flatten ++ w₁) := by
  obtain ⟨before, after, h⟩ := h
  rw [List.append_assoc, List.cons_append, List.append_assoc, List.singleton_append] at h
  obtain ⟨pre, v₁, v₂, rest, rfl, -, htail⟩ := append_cons_eq_flatten h
  rcases List.append_eq_append_iff.mp htail with ⟨more, rfl, hrest⟩ | ⟨front, rfl, hrest⟩
  · cases more with
    | nil =>
      have hblock : [] ++ y :: after = rest.flatten := hrest
      obtain ⟨mid, w₁, w₂, post, rfl, hfront, -⟩ := append_cons_eq_flatten hblock
      refine .inr ⟨pre, v₁, between ++ [], mid, w₁, w₂, post, rfl, ?_⟩
      rw [← hfront, List.append_nil, List.append_nil]
    | cons z more =>
      obtain ⟨rfl, -⟩ := List.cons.inj hrest
      refine .inl ⟨_, List.mem_append_right _ List.mem_cons_self, v₁, more, ?_⟩
      simp
  · obtain ⟨mid, w₁, w₂, post, rfl, rfl, -⟩ := append_cons_eq_flatten hrest.symm
    exact .inr ⟨pre, v₁, v₂, mid, w₁, w₂, post, rfl, rfl⟩

/-- How many events a run across blocks has. -/
lemma length_across (x y : ℕ) (v₂ w₁ : List ℕ) (mid : List (List ℕ)) :
    (x :: (v₂ ++ (mid.flatten ++ w₁) ++ [y])).length =
      v₂.length + 1 + (mid.map List.length).sum + (w₁.length + 1) := by
  simp only [List.length_cons, List.length_append, List.length_flatten, List.length_nil]
  omega

/-- **Blocks.** Where the capacity pays for each block, only the intervals from an event of a block
to one of a later block have to be checked. -/
theorem bounded_flatten_iff {blocks : List (List ℕ)}
    (hsorted : blocks.flatten.Pairwise (· ≤ ·))
    (hblocks : ∀ block ∈ blocks, cost * block.length ≤ capacity) :
    Bounded capacity rate cost blocks.flatten ↔
      ∀ pre v₁ x v₂ mid w₁ y w₂ post,
        blocks = pre ++ (v₁ ++ x :: v₂) :: (mid ++ (w₁ ++ y :: w₂) :: post) →
          cost * (v₂.length + 1 + (mid.map List.length).sum + (w₁.length + 1)) ≤
            capacity + rate * (y - x) := by
  rw [bounded_iff_contiguous hsorted]
  constructor
  · rintro h pre v₁ x v₂ mid w₁ y w₂ post rfl
    have hrun := h (x :: (v₂ ++ (mid.flatten ++ w₁) ++ [y]))
      ⟨pre.flatten ++ v₁, w₂ ++ post.flatten, by simp⟩ (List.cons_ne_nil _ _)
    have hlast : (x :: (v₂ ++ (mid.flatten ++ w₁) ++ [y])).getLast (List.cons_ne_nil _ _) = y := by
      rw [List.getLast_cons (by simp), List.getLast_append_singleton]
    rwa [hlast, length_across] at hrun
  · intro h run hrun hne
    have hblock : ∀ block ∈ blocks, run <:+: block → cost * run.length ≤ capacity := by
      intro block hblock hinfix
      exact (Nat.mul_le_mul_left cost hinfix.length_le).trans (hblocks block hblock)
    cases run with
    | nil => exact absurd rfl hne
    | cons x rest =>
      rcases rest.eq_nil_or_concat' with rfl | ⟨between, y, rfl⟩
      · -- a single event
        obtain ⟨before, after, heq⟩ := hrun
        rw [List.append_assoc, List.singleton_append] at heq
        obtain ⟨pre, v₁, v₂, post, rfl, -, -⟩ := append_cons_eq_flatten heq
        refine Nat.le_add_right_of_le (hblock _ (List.mem_append_right _ List.mem_cons_self) ?_)
        exact ⟨v₁, v₂, by simp⟩
      · rcases infix_flatten hrun with ⟨block, hmem, hinfix⟩ |
          ⟨pre, v₁, v₂, mid, w₁, w₂, post, rfl, rfl⟩
        · exact Nat.le_add_right_of_le (hblock block hmem hinfix)
        · have hcross := h pre v₁ x v₂ mid w₁ y w₂ post rfl
          have hlast : (x :: (v₂ ++ (mid.flatten ++ w₁) ++ [y])).getLast hne = y := by
            rw [List.getLast_cons (by simp), List.getLast_append_singleton]
          rw [hlast, length_across]
          exact hcross

end
end RateBound
