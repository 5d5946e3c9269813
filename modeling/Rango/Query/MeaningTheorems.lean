import Rango.Query.FilterTheorems

/-!
# The meaning of a filter

`Holds` says what a filter asks of a document, whichever way it is evaluated. A filter of which each
condition can be evaluated (`Evaluable`) is evaluated to just that, so that it may be rearranged
(`Rearranged`): its keys, operators and operands in another order, and filters inside an `$and` or
`$or` of their own.
-/

namespace Rango.Query

/-- The keys that take filters. -/
def connectives : List String := ["$and", "$or"]

/-- A filter that differs from another in the order of its keys, in the order of the operands of
an `$and` or `$or` or of the operators of a field, or in an `$and` or `$or` around a filter, at any
depth. -/
inductive Rearranged : List (String × Bson) → List (String × Bson) → Prop
  | keys {f g} : f.Perm g → Rearranged f g
  | operands {key items items' rest} : key ∈ connectives → items.Perm items' →
    Rearranged ((key, .array items) :: rest) ((key, .array items') :: rest)
  | operators {field ops ops' rest} : ops.Perm ops' →
    Rearranged ((field, .document ops) :: rest) ((field, .document ops') :: rest)
  | nest {key} (f) : key ∈ connectives → Rearranged f [(key, .array [.document f])]
  | inside {key pre f g post rest} : key ∈ connectives → Rearranged f g →
    Rearranged ((key, .array (pre ++ .document f :: post)) :: rest)
      ((key, .array (pre ++ .document g :: post)) :: rest)
  | symm {f g} : Rearranged f g → Rearranged g f
  | trans {f g h} : Rearranged f g → Rearranged g h → Rearranged f h

section
variable [BsonTraits] (doc : Document)

mutual
/-- Every condition of a filter can be evaluated on the document. -/
def Evaluable : List (String × Bson) → Prop
  | [] => True
  | (key, value) :: rest => EvaluableAt key value ∧ Evaluable rest

/-- `$and` has an array of filters, `$or` one that is not empty, and the operators of a field have
no error. -/
def EvaluableAt (key : String) : Bson → Prop
  | .array items =>
    if key = "$and" then EvaluableAll items
    else if key = "$or" then items ≠ [] ∧ EvaluableAll items
    else isOperator key = false
  | .document ops =>
    isOperator key = false ∧ ∀ op ∈ ops, ∃ b, matchFieldOperator (doc.get key) op.1 op.2 = .ok b
  | _ => isOperator key = false

/-- The items are filters that can be evaluated. -/
def EvaluableAll : List Bson → Prop
  | [] => True
  | .document filter :: rest => Evaluable filter ∧ EvaluableAll rest
  | _ :: _ => False
end

/-! ## Evaluation -/

section
variable {doc}

lemma not_operatorFails {found : Option Bson} {op : String} {operand : Bson} {b : Bool}
    (h : matchFieldOperator found op operand = .ok b) : ¬OperatorFails found op operand := by
  intro hfails
  obtain ⟨err, -, herr⟩ := (matchFieldOperator_settles found op operand).error_iff.mpr hfails
  rw [h] at herr
  cases herr

lemma not_operatorsExposed {found : Option Bson} {ops : List (String × Bson)}
    (h : ∀ op ∈ ops, ∃ b, matchFieldOperator found op.1 op.2 = .ok b) :
    ¬OperatorsExposed found ops := by
  induction ops with
  | nil => exact id
  | cons op rest ih =>
    obtain ⟨b, hb⟩ := h op List.mem_cons_self
    rintro (hfails | ⟨-, hexposed⟩)
    · exact not_operatorFails hb hfails
    · exact ih (fun op hop => h op (List.mem_cons_of_mem _ hop)) hexposed

mutual
lemma not_exposed : ∀ {f : List (String × Bson)}, Evaluable doc f → ¬Exposed doc f
  | [], _, hexposed => hexposed
  | (_, _) :: _, h, .inl hat => not_exposedAt h.1 hat
  | (_, _) :: _, h, .inr hrest => not_exposed h.2 hrest.2

lemma not_exposedAt {key : String} : ∀ {v : Bson}, EvaluableAt doc key v → ¬ExposedAt doc key v
  | .array items, h, hexposed => by
    rw [EvaluableAt] at h
    rw [ExposedAt] at hexposed
    split_ifs at h hexposed with hand hor
    · exact not_exposedAll h hexposed
    · exact not_exposedSome h.2 hexposed
    · exact Bool.false_ne_true (h.symm.trans hexposed)
  | .document ops, h, hexposed => by
    rcases hexposed with hop | hops
    · exact Bool.false_ne_true (h.1.symm.trans hop)
    · exact not_operatorsExposed h.2 hops
  | .double _, h, hop | .string _, h, hop | .boolean _, h, hop | .null, h, hop
  | .regularExpression _ _, h, hop | .javaScriptCode _, h, hop
  | .javaScriptCodeWithScope _ _, h, hop | .int32 _, h, hop | .int64 _, h, hop
  | .timestamp _ _, h, hop | .binary _ _, h, hop | .objectId _, h, hop | .dateTime _, h, hop
  | .symbol _, h, hop | .decimal128 _, h, hop | .undefined, h, hop | .maxKey, h, hop
  | .minKey, h, hop | .dbPointer _ _, h, hop => Bool.false_ne_true (h.symm.trans hop)

lemma not_exposedAll : ∀ {items : List Bson}, EvaluableAll doc items → ¬ExposedAll doc items
  | [], _, hexposed => hexposed
  | .document _ :: _, h, .inl hfirst => not_exposed h.1 hfirst
  | .document _ :: _, h, .inr hrest => not_exposedAll h.2 hrest.2

lemma not_exposedSome : ∀ {items : List Bson}, EvaluableAll doc items → ¬ExposedSome doc items
  | [], _, hexposed => hexposed
  | .document _ :: _, h, .inl hfirst => not_exposed h.1 hfirst
  | .document _ :: _, h, .inr hrest => not_exposedSome h.2 hrest.2
end

/-- **One filter.** A filter that can be evaluated evaluates to what it means. -/
lemma matchesFilter_of_evaluable {filter : Document} (h : Evaluable doc filter.entries) :
    ∃ b, matchesFilter doc filter = .ok b ∧ (b = true ↔ Holds doc filter.entries) := by
  have hsettles := matchEntries_settles doc filter.entries
  cases hmatch : matchesFilter doc filter with
  | ok b => exact ⟨b, rfl, hsettles.ok_iff hmatch⟩
  | error err =>
    rw [matchesFilter] at hmatch
    rw [hmatch] at hsettles
    cases hsettles with
    | fails err hkind hreached => exact absurd hreached (not_exposed h)

end

/-! ## Filters as sets of conditions -/

/-- An operand of an `$and` or `$or` that holds. -/
def OperandHolds (item : Bson) : Prop := ∃ f, item = .document f ∧ Holds doc f

/-- An operand that can be evaluated. -/
def OperandEvaluable (item : Bson) : Prop := ∃ f, item = .document f ∧ Evaluable doc f

variable {f g rest : List (String × Bson)} {items items' : List Bson} {key : String}

lemma holds_iff : Holds doc f ↔ ∀ kv ∈ f, HoldsAt doc kv.1 kv.2 := by
  induction f with
  | nil => simp [Holds]
  | cons kv rest ih => rw [Holds, ih, List.forall_mem_cons]

lemma evaluable_iff : Evaluable doc f ↔ ∀ kv ∈ f, EvaluableAt doc kv.1 kv.2 := by
  induction f with
  | nil => simp [Evaluable]
  | cons kv rest ih => rw [Evaluable, ih, List.forall_mem_cons]

@[simp] lemma operandHolds_document : OperandHolds doc (.document f) ↔ Holds doc f := by
  simp [OperandHolds]

@[simp] lemma operandEvaluable_document :
    OperandEvaluable doc (.document f) ↔ Evaluable doc f := by
  simp [OperandEvaluable]

lemma holdsAll_iff : HoldsAll doc items ↔ ∀ item ∈ items, OperandHolds doc item := by
  induction items with
  | nil => simp [HoldsAll]
  | cons item rest ih =>
    rw [List.forall_mem_cons, ← ih]
    cases item <;> simp [HoldsAll, OperandHolds]

lemma holdsSome_iff : HoldsSome doc items ↔ ∃ item ∈ items, OperandHolds doc item := by
  induction items with
  | nil => simp [HoldsSome]
  | cons item rest ih =>
    rw [List.exists_mem_cons_iff, ← ih]
    cases item <;> simp [HoldsSome, OperandHolds]

lemma evaluableAll_iff : EvaluableAll doc items ↔ ∀ item ∈ items, OperandEvaluable doc item := by
  induction items with
  | nil => simp [EvaluableAll]
  | cons item rest ih =>
    rw [List.forall_mem_cons, ← ih]
    cases item <;> simp [EvaluableAll, OperandEvaluable]

/-! ## Rearranging -/

/-- Filters that mean the same, and can be evaluated on the same documents. -/
structure Equivalent (f g : List (String × Bson)) : Prop where
  evaluable : Evaluable doc f ↔ Evaluable doc g
  holds : Holds doc f ↔ Holds doc g

variable {doc}

lemma Equivalent.keys (h : f.Perm g) : Equivalent doc f g where
  evaluable := by
    rw [evaluable_iff, evaluable_iff]
    exact forall_congr' fun kv => imp_congr_left h.mem_iff
  holds := by
    rw [holds_iff, holds_iff]
    exact forall_congr' fun kv => imp_congr_left h.mem_iff

/-- Filters that differ in the first value. -/
lemma Equivalent.head {v w : Bson} (heval : EvaluableAt doc key v ↔ EvaluableAt doc key w)
    (hholds : HoldsAt doc key v ↔ HoldsAt doc key w) :
    Equivalent doc ((key, v) :: rest) ((key, w) :: rest) where
  evaluable := by rw [Evaluable, Evaluable, heval]
  holds := by rw [Holds, Holds, hholds]

/-- Operands that are as good as each other for the connectives. -/
lemma Equivalent.connective (hkey : key ∈ connectives) (hnil : items = [] ↔ items' = [])
    (heval : EvaluableAll doc items ↔ EvaluableAll doc items')
    (hall : HoldsAll doc items ↔ HoldsAll doc items')
    (hsome : HoldsSome doc items ↔ HoldsSome doc items') :
    Equivalent doc ((key, .array items) :: rest) ((key, .array items') :: rest) := by
  refine .head ?_ ?_
  · rw [EvaluableAt, EvaluableAt, Ne, Ne, hnil, heval]
  · rw [HoldsAt, HoldsAt, hnil, hall, hsome]
    -- the third branch is that of a field
    have hor : key ≠ "$and" → key = "$or" := by
      simpa [connectives, or_iff_not_imp_left] using hkey
    split_ifs with h h'
    · exact Iff.rfl
    · exact Iff.rfl
    · exact absurd (hor h) h'

lemma Equivalent.operands (hkey : key ∈ connectives) (h : items.Perm items') :
    Equivalent doc ((key, .array items) :: rest) ((key, .array items') :: rest) := by
  refine .connective hkey ?_ ?_ ?_ ?_
  · exact ⟨fun hnil => (hnil ▸ h).nil_eq.symm, fun hnil => (hnil ▸ h).eq_nil⟩
  · rw [evaluableAll_iff, evaluableAll_iff]
    exact forall_congr' fun item => imp_congr_left h.mem_iff
  · rw [holdsAll_iff, holdsAll_iff]
    exact forall_congr' fun item => imp_congr_left h.mem_iff
  · rw [holdsSome_iff, holdsSome_iff]
    exact exists_congr fun item => and_congr_left' h.mem_iff

lemma Equivalent.inside {pre post : List Bson} (hkey : key ∈ connectives)
    (h : Equivalent doc f g) :
    Equivalent doc ((key, .array (pre ++ .document f :: post)) :: rest)
      ((key, .array (pre ++ .document g :: post)) :: rest) := by
  refine .connective hkey (by simp) ?_ ?_ ?_
  · simp only [evaluableAll_iff, List.forall_mem_append, List.forall_mem_cons,
      operandEvaluable_document, h.evaluable]
  · simp only [holdsAll_iff, List.forall_mem_append, List.forall_mem_cons,
      operandHolds_document, h.holds]
  · simp only [holdsSome_iff, List.mem_append, or_and_right, exists_or,
      List.exists_mem_cons_iff, operandHolds_document, h.holds]

lemma Equivalent.nest (hkey : key ∈ connectives) :
    Equivalent doc f [(key, .array [.document f])] := by
  have hkeys : key = "$and" ∨ key = "$or" := by simpa [connectives] using hkey
  constructor
  · rcases hkeys with rfl | rfl <;> simp [Evaluable, EvaluableAt, EvaluableAll]
  · rcases hkeys with rfl | rfl <;> simp [Holds, HoldsAt, HoldsAll, HoldsSome]

lemma Equivalent.operators {ops ops' : List (String × Bson)} (h : ops.Perm ops') :
    Equivalent doc ((key, .document ops) :: rest) ((key, .document ops') :: rest) := by
  refine .head ?_ ?_
  · rw [EvaluableAt, EvaluableAt]
    exact and_congr_right' (forall_congr' fun op => imp_congr_left h.mem_iff)
  · exact forall_congr' fun op => imp_congr_left h.mem_iff

/-- **Rearranged filters are equivalent.** -/
theorem Rearranged.equivalent (h : Rearranged f g) : Equivalent doc f g := by
  induction h with
  | keys h => exact .keys h
  | operands hkey h => exact .operands hkey h
  | operators h => exact .operators h
  | nest f hkey => exact .nest hkey
  | inside hkey _ ih => exact .inside hkey ih
  | symm _ ih => exact ⟨ih.evaluable.symm, ih.holds.symm⟩
  | trans _ _ ih ih' =>
    exact ⟨ih.evaluable.trans ih'.evaluable, ih.holds.trans ih'.holds⟩

/-- **What `matches` computes.** A filter that can be evaluated on the document evaluates to its
meaning, and however it is rearranged the result is the same. -/
theorem matches_evaluates {filter : Document} (h : Evaluable doc filter.entries) :
    (∃ b, matchesFilter doc filter = .ok b ∧ (b = true ↔ Holds doc filter.entries)) ∧
      ∀ filter' : Document, Rearranged filter.entries filter'.entries →
        matchesFilter doc filter' = matchesFilter doc filter := by
  obtain ⟨b, hmatch, hb⟩ := matchesFilter_of_evaluable h
  refine ⟨⟨b, hmatch, hb⟩, fun filter' hre => ?_⟩
  have hequiv : Equivalent doc filter.entries filter'.entries := hre.equivalent
  obtain ⟨b', hmatch', hb'⟩ := matchesFilter_of_evaluable (hequiv.evaluable.mp h)
  have hbb : b' = b := by
    rw [Bool.eq_iff_iff, hb, hb', hequiv.holds]
  rw [hmatch, hmatch', hbb]

end

section
attribute [local instance] BsonTraits.sample

/-- A range on one field, and one of two values on another. -/
def sampleRangeFilter : Document :=
  ⟨[("a", .document [("$gt", .int32 1), ("$lt", .int32 5)]),
    ("$or", .array [.document [("b", .int32 1)], .document [("b", .int32 2)]])]⟩

/-- It can be rearranged on a document with both fields. -/
theorem matches_evaluates_range :
    matchesFilter ⟨[("a", .int32 3), ("b", .int32 2)]⟩
      ⟨[("$and", .array [.document sampleRangeFilter.entries.reverse])]⟩ =
        matchesFilter ⟨[("a", .int32 3), ("b", .int32 2)]⟩ sampleRangeFilter := by
  have hops : ∀ op ∈ [("$gt", Bson.int32 1), ("$lt", Bson.int32 5)], ∃ b,
      matchFieldOperator (some (.int32 3)) op.1 op.2 = .ok b := by
    intro op hop
    simp only [List.mem_cons, List.not_mem_nil, or_false] at hop
    rcases hop with rfl | rfl <;> exact ⟨true, rfl⟩
  have heval : Evaluable ⟨[("a", .int32 3), ("b", .int32 2)]⟩ sampleRangeFilter.entries :=
    ⟨⟨rfl, hops⟩, ⟨List.cons_ne_nil _ _, ⟨rfl, trivial⟩, ⟨rfl, trivial⟩, trivial⟩, trivial⟩
  exact (matches_evaluates heval).2 _
    (.trans (.keys (List.reverse_perm _).symm) (.nest _ (by decide)))

end
end Rango.Query
