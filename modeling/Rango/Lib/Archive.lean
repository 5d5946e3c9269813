import Rango.Lib.Register

/-!
# Registers that keep their losers

A place holds a document, of which its version is only a part: the rest records what the winner
has won against. An arriving document replaces what it finds when that is empty or deleted, and is
merged by its version otherwise. `replay_again_of_newer` says when a sequence of arrivals that is
repeated leaves such a place as it found it, record included: a deletion on the way makes it
forget everything.
-/

namespace Archive

open Register

variable {D R V : Type} [LinearOrder R]

/-- `resolve` merges documents by their versions, and an empty or deleted place takes what
arrives. -/
structure Merges (ver : D → Version R V) (resolve : Option D → D → D) : Prop where
  taken : ∀ s d, (∀ a ∈ s, (ver a).body = none) → resolve s d = d
  merged : ∀ s d, some (ver (resolve s d)) = merge (s.map ver) (ver d)

variable {ver : D → Version R V} {resolve : Option D → D → D}

namespace Merges
variable (h : Merges ver resolve)
include h

/-- A later document wins over a live one. -/
lemma ver_of_lt {a d : D} (hlive : (ver a).body ≠ none) (hlt : (ver a).stamp < (ver d).stamp) :
    ver (resolve (some a) d) = ver d := by
  have hmerge := h.merged (some a) d
  rw [Option.map_some, merge, if_neg (by simpa using hlive), if_pos hlt] at hmerge
  exact Option.some.inj hmerge

/-- A live document stays when nothing later arrives. -/
lemma ver_of_le {a d : D} (hlive : (ver a).body ≠ none) (hle : (ver d).stamp ≤ (ver a).stamp) :
    ver (resolve (some a) d) = ver a := by
  have hmerge := h.merged (some a) d
  rw [Option.map_some, merge, if_neg (by simpa using hlive), if_neg hle.not_gt] at hmerge
  exact Option.some.inj hmerge

end Merges

/-- `b` is deleted when `a` is, and is not later when both are live. -/
structure Trails (ver : D → Version R V) (b a : D) : Prop where
  dead : (ver a).body = none → (ver b).body = none
  le : (ver a).body ≠ none → (ver b).body ≠ none → (ver b).stamp ≤ (ver a).stamp

/-- Trailing goes on whatever arrives at a live place. -/
lemma Trails.arrive (h : Merges ver resolve) {a b : D} (ht : Trails ver b a)
    (hlive : (ver a).body ≠ none) (d : D) :
    Trails ver (resolve (some b) d) (resolve (some a) d) := by
  by_cases hlt : (ver a).stamp < (ver d).stamp
  · -- both take `d`
    have ha := h.ver_of_lt hlive hlt
    have hb : ver (resolve (some b) d) = ver d := by
      by_cases hdead : (ver b).body = none
      · rw [h.taken (some b) d fun x hx => Option.some.inj hx ▸ hdead]
      · exact h.ver_of_lt hdead ((ht.le hlive hdead).trans_lt hlt)
    refine ⟨?_, ?_⟩
    · rw [ha, hb]
      exact id
    · rw [ha, hb]
      exact fun _ _ => le_rfl
  · -- `a` keeps its version
    have hle : (ver d).stamp ≤ (ver a).stamp := not_lt.mp hlt
    have ha := h.ver_of_le hlive hle
    refine ⟨?_, ?_⟩
    · rw [ha]
      exact fun hnone => absurd hnone hlive
    · intro _ hb
      rw [ha]
      by_cases hdead : (ver b).body = none
      · rw [h.taken (some b) d fun x hx => Option.some.inj hx ▸ hdead]
        exact hle
      · by_cases hlt' : (ver b).stamp < (ver d).stamp
        · rw [h.ver_of_lt hdead hlt']
          exact hle
        · rw [h.ver_of_le hdead (not_lt.mp hlt')]
          exact ht.le hlive hdead

lemma Trails.refl (a : D) : Trails ver a a := ⟨id, fun _ _ => le_rfl⟩

/-- Trailing goes on whatever arrives. -/
lemma Trails.resolved (h : Merges ver resolve) {a b : D} (ht : Trails ver b a) (d : D) :
    Trails ver (resolve (some b) d) (resolve (some a) d) := by
  by_cases hdead : (ver a).body = none
  · -- both forget, and take `d`
    rw [h.taken (some a) d fun x hx => Option.some.inj hx ▸ hdead,
      h.taken (some b) d fun x hx => Option.some.inj hx ▸ ht.dead hdead]
    exact .refl d
  · exact ht.arrive h hdead d

/-- What arrives at an empty place trails what it makes of another place. -/
lemma trails_resolve (h : Merges ver resolve) (s : Option D) (d : D) :
    Trails ver d (resolve s d) := by
  by_cases hdead : ∀ a ∈ s, (ver a).body = none
  · rw [h.taken s d hdead]
    exact .refl d
  push Not at hdead
  obtain ⟨a, rfl, ha⟩ := hdead
  by_cases hlt : (ver a).stamp < (ver d).stamp
  · have hver := h.ver_of_lt ha hlt
    constructor
    · rw [hver]
      exact id
    · rw [hver]
      exact fun _ _ => le_rfl
  · have hver := h.ver_of_le ha (not_lt.mp hlt)
    constructor
    · rw [hver]
      exact fun hnone => absurd hnone ha
    · rw [hver]
      exact fun _ _ => not_lt.mp hlt

/-- A place after the documents arrived one after another. -/
def replay (resolve : Option D → D → D) (s : Option D) (ds : List D) : Option D :=
  ds.foldl (fun s d => some (resolve s d)) s

@[simp] lemma replay_cons (s : Option D) (d : D) (ds : List D) :
    replay resolve s (d :: ds) = replay resolve (some (resolve s d)) ds := rfl

/-- Of two places at which the same documents arrive, the one that trails goes on trailing. -/
lemma Trails.after (h : Merges ver resolve) {ds : List D} {a b a' b' : D}
    (ht : Trails ver b a) (ha : replay resolve (some a) ds = some a')
    (hb : replay resolve (some b) ds = some b') : Trails ver b' a' := by
  induction ds generalizing a b with
  | nil =>
    obtain rfl : a = a' := Option.some.inj ha
    obtain rfl : b = b' := Option.some.inj hb
    exact ht
  | cons d ds ih => exact ih (ht.resolved h d) ha hb

/-- A place that was empty before the documents arrived trails one that was not. -/
theorem replay_trails (h : Merges ver resolve) {ds : List D} {s : Option D} {a b : D}
    (ha : replay resolve s ds = some a) (hb : replay resolve none ds = some b) :
    Trails ver b a := by
  cases ds with
  | nil => cases hb
  | cons d ds =>
    rw [replay_cons] at ha hb
    rw [h.taken none d fun x hx => nomatch hx] at hb
    exact (trails_resolve h s d).after h ha hb

/-- Two places of which one trails the other come together when the leading one falls back behind
what it had: it can do so by a deletion only, which both then have. -/
theorem replay_eq_of_trails (h : Merges ver resolve) {l : D} (hlive : (ver l).body ≠ none)
    {ds : List D} {a b : D} (ht : Trails ver b a) (hend : replay resolve (some a) ds = some l)
    (hback : (ver a).body ≠ none → (ver l).stamp < (ver a).stamp) :
    replay resolve (some b) ds = some l := by
  induction ds generalizing a b with
  | nil =>
    obtain rfl : a = l := Option.some.inj hend
    exact absurd (hback hlive) (lt_irrefl _)
  | cons d ds ih =>
    rw [replay_cons] at hend ⊢
    by_cases hdead : (ver a).body = none
    · -- both forget, and take `d`
      rw [h.taken (some a) d fun x hx => Option.some.inj hx ▸ hdead] at hend
      rw [h.taken (some b) d fun x hx => Option.some.inj hx ▸ ht.dead hdead]
      exact hend
    · refine ih (ht.arrive h hdead d) hend fun hlive' => ?_
      by_cases hlt : (ver a).stamp < (ver d).stamp
      · rw [h.ver_of_lt hdead hlt]
        exact (hback hdead).trans hlt
      · rw [h.ver_of_le hdead (not_lt.mp hlt)]
        exact hback hdead

/-- **Arrivals repeated.** When the arrivals left a live document and one of them was newer than
it, the same arrivals leave it as it is. -/
theorem replay_again_of_newer (h : Merges ver resolve) {l : D} (hlive : (ver l).body ≠ none)
    {ds : List D} {s : Option D} {b : D} (hb : ver b = ver l)
    (hend : replay resolve s ds = some l) (hnewer : ∃ d ∈ ds, (ver l).stamp < (ver d).stamp) :
    replay resolve (some b) ds = some l := by
  induction ds generalizing s b with
  | nil =>
    obtain ⟨d, hd, -⟩ := hnewer
    cases hd
  | cons d ds ih =>
    rw [replay_cons] at hend ⊢
    have hblive : (ver b).body ≠ none := by
      rw [hb]
      exact hlive
    by_cases hlt : (ver l).stamp < (ver d).stamp
    · -- from here on the second place trails the first
      have hbd : ver (resolve (some b) d) = ver d := h.ver_of_lt hblive (hb ▸ hlt)
      have hor : ver (resolve s d) = ver d ∨
          (ver (resolve s d)).body ≠ none ∧ (ver d).stamp ≤ (ver (resolve s d)).stamp := by
        by_cases hdead : ∀ a ∈ s, (ver a).body = none
        · rw [h.taken s d hdead]
          exact Or.inl rfl
        · push Not at hdead
          obtain ⟨a, rfl, ha⟩ := hdead
          by_cases hlt' : (ver a).stamp < (ver d).stamp
          · exact Or.inl (h.ver_of_lt ha hlt')
          · rw [h.ver_of_le ha (not_lt.mp hlt')]
            exact Or.inr ⟨ha, not_lt.mp hlt'⟩
      refine replay_eq_of_trails h hlive ⟨?_, ?_⟩ hend ?_
      · rw [hbd]
        rcases hor with heq | ⟨hne, -⟩
        · rw [heq]
          exact id
        · exact fun hnone => absurd hnone hne
      · rw [hbd]
        rcases hor with heq | ⟨-, hle⟩
        · rw [heq]
          exact fun _ _ => le_rfl
        · exact fun _ _ => hle
      · rcases hor with heq | ⟨-, hle⟩
        · rw [heq]
          exact fun _ => hlt
        · exact fun _ => hlt.trans_le hle
    · refine ih ?_ hend ?_
      · rw [h.ver_of_le hblive (by rw [hb]; exact not_lt.mp hlt), hb]
      · obtain ⟨x, hx, hxl⟩ := hnewer
        rcases List.mem_cons.mp hx with rfl | hx
        · exact absurd hxl hlt
        · exact ⟨x, hx, hxl⟩

end Archive
