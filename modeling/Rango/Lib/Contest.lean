import Mathlib.Data.List.Perm.Basic
import Mathlib.Order.Lattice

/-!
# Contests

Contenders meet whoever stands, one after another, and the one with the greater stamp stands
after that. `standing` is who stands in the end, and `defeated` lists the others in the order
in which they lost.
-/

namespace Contest

variable {M R : Type} [LinearOrder R] (stamp : M → R)

/-- Who stands once `d` has met `w`. -/
def meet (w d : M) : M := if stamp w < stamp d then d else w

/-- Who stands in the end. -/
def standing (w : M) (xs : List M) : M := xs.foldl (meet stamp) w

/-- Those who lost, in turn. -/
def defeated (w : M) : List M → List M
  | [] => []
  | d :: rest =>
    if stamp w < stamp d then w :: defeated d rest else d :: defeated w rest

/-- Who stands in the end, when nobody stood before. -/
def winner : List M → Option M
  | [] => none
  | w :: rest => some (standing stamp w rest)

/-- Those who lost, in turn, when nobody stood before. -/
def losers : List M → List M
  | [] => []
  | w :: rest => defeated stamp w rest

variable {stamp}

lemma defeated_append (w : M) (xs ys : List M) : defeated stamp w (xs ++ ys) =
    defeated stamp w xs ++ defeated stamp (standing stamp w xs) ys := by
  induction xs generalizing w with
  | nil => rfl
  | cons d rest ih =>
    rw [List.cons_append, defeated, defeated, standing, List.foldl_cons, meet]
    split_ifs
    · rw [ih, List.cons_append, standing]
    · rw [ih, List.cons_append, standing]

/-- **Nobody gets lost.** The contenders are who stands and those who lost. -/
theorem standing_cons_defeated_perm (w : M) (xs : List M) :
    (standing stamp w xs :: defeated stamp w xs).Perm (w :: xs) := by
  induction xs generalizing w with
  | nil => exact List.Perm.refl _
  | cons d rest ih =>
    rw [defeated, standing, List.foldl_cons, meet]
    split_ifs
    · exact (List.Perm.swap _ _ _).trans (((ih d).cons w))
    · exact ((List.Perm.swap _ _ _).trans ((ih w).cons d)).trans (List.Perm.swap _ _ _)

lemma le_meet (w d : M) : stamp w ≤ stamp (meet stamp w d) ∧ stamp d ≤ stamp (meet stamp w d) := by
  unfold meet
  split_ifs with h
  · exact ⟨h.le, le_rfl⟩
  · exact ⟨le_rfl, not_lt.mp h⟩

/-- Nobody has a greater stamp than who stands. -/
theorem le_standing (w : M) (xs : List M) :
    ∀ d ∈ w :: xs, stamp d ≤ stamp (standing stamp w xs) := by
  induction xs generalizing w with
  | nil =>
    intro d hd
    rw [List.mem_singleton.mp hd]
    exact le_rfl
  | cons x rest ih =>
    intro d hd
    have hrest := ih (meet stamp w x)
    have hmeet := hrest _ List.mem_cons_self
    rcases List.mem_cons.mp hd with rfl | hd
    · exact (le_meet _ x).1.trans hmeet
    · rcases List.mem_cons.mp hd with rfl | hd
      · exact (le_meet w _).2.trans hmeet
      · exact hrest d (List.mem_cons_of_mem _ hd)

/-- Whoever has the greatest stamp beats all that come. -/
theorem defeated_of_le {w : M} {xs : List M} (h : ∀ d ∈ xs, stamp d ≤ stamp w) :
    standing stamp w xs = w ∧ defeated stamp w xs = xs := by
  induction xs with
  | nil => exact ⟨rfl, rfl⟩
  | cons d rest ih =>
    have hd : ¬ stamp w < stamp d := not_lt.mpr (h d List.mem_cons_self)
    obtain ⟨hstands, hlost⟩ := ih fun x hx => h x (List.mem_cons_of_mem _ hx)
    rw [defeated, if_neg hd, hlost, standing, List.foldl_cons, meet, if_neg hd]
    exact ⟨hstands, rfl⟩

/-- **Where the greatest comes in.** Whoever stands before loses to it, and all that come after
lose. -/
theorem losers_of_greatest {pre post : List M} {top : M}
    (hpre : ∀ d ∈ pre, stamp d < stamp top) (hpost : ∀ d ∈ post, stamp d ≤ stamp top) :
    losers stamp (pre ++ top :: post) =
      losers stamp pre ++ (winner stamp pre).toList ++ post := by
  obtain ⟨-, hlost⟩ := defeated_of_le hpost
  cases pre with
  | nil => exact hlost
  | cons w rest =>
    have hstands : standing stamp w rest ∈ w :: rest :=
      (standing_cons_defeated_perm w rest).subset List.mem_cons_self
    rw [List.cons_append, losers, defeated_append, defeated, if_pos (hpre _ hstands), hlost,
      List.append_assoc]
    rfl

end Contest
