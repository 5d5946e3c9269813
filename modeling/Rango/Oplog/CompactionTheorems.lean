import Rango.Oplog.FileTheorems

/-!
# Compaction and the counter

Compaction drops the records that are marked applied, and opening the path again takes the
counter from the last record that is left. When that is not the newest entry that was
appended, its number is given out again. `compaction_sound_iff` says that this is the only
way in which numbers repeat, and that nothing else is lost.
-/

namespace Rango

namespace FileOplog

/-! ## The last number -/

lemma lastSeq_mem {es : List OplogEntry} (h : es ≠ []) : ∃ e ∈ es, e.seq = lastSeq es := by
  rcases List.eq_nil_or_concat' es with rfl | ⟨init, x, rfl⟩
  · exact absurd rfl h
  · exact ⟨x, by simp, by simp⟩

/-! ## The applied file -/

lemma appliedNumbers_eq {l : List ℕ} (h : ∀ v ∈ l, v < 2 ^ 64) :
    appliedNumbers (l.map fun v : ℕ => .int64 ((v : ℤ).bmod (2 ^ 64))) = l := by
  induction l with
  | nil => rfl
  | cons v l ih =>
    have hlt := h v List.mem_cons_self
    have hv : ((v : ℤ).bmod (2 ^ 64) % 2 ^ 64).toNat = v := by
      have hpow : ((2 ^ 64 : ℕ) : ℤ) = 2 ^ 64 := by push_cast
      have hmod : (v : ℤ).bmod (2 ^ 64) % ((2 ^ 64 : ℕ) : ℤ) = (v : ℤ) % ((2 ^ 64 : ℕ) : ℤ) :=
        Int.bmod_emod
      have hself : (v : ℤ) % 2 ^ 64 = v := Int.emod_eq_of_lt (by omega) (by omega)
      rw [hpow, hself] at hmod
      rw [hmod, Int.toNat_natCast]
    have hrest := ih fun x hx => h x (List.mem_cons_of_mem _ hx)
    simp only [appliedNumbers, List.map_cons, List.filterMap_cons, Bson.asI64] at hrest ⊢
    rw [hv, hrest]

lemma getArray_appliedDocument (l : List ℕ) : (appliedDocument l).getArray "applied"
    = some (l.map fun v : ℕ => .int64 ((v : ℤ).bmod (2 ^ 64))) := by
  simp [appliedDocument, Document.getArray]

end FileOplog

section
variable [BsonCodec]

namespace FileOplog

/-- The applied set that was written is read back. -/
theorem readApplied_sealRecord (hb : BsonCodec.RoundTrips) (hs : BsonCodec.Sized)
    {crypto : Option CryptoEngine} (hc : CryptoRoundTrips crypto) (nonce : Nonce) {l : List ℕ}
    (hl : ∀ v ∈ l, v < 2 ^ 64) {bytes : Bytes}
    (hw : BsonCodec.toWriter (appliedDocument l) = .ok bytes) :
    readApplied crypto (some (sealRecord crypto nonce bytes)) = .ok l := by
  have hne : sealRecord crypto nonce bytes ≠ [] := by
    intro hnil
    have hlen := congrArg List.length hnil
    have hbytes := (hs.writer_length _ _ hw).1
    cases crypto with
    | none =>
      simp only [sealRecord, List.length_nil] at hlen
      omega
    | some c =>
      simp only [sealRecord, CryptoEngine.encrypt, List.length_append, nonce.length_eq,
        List.length_nil] at hlen
      omega
  simp only [readApplied, hne, if_false, openRecord_sealRecord hc, hb.reader_writer _ _ hw,
    getArray_appliedDocument, Option.map_some, appliedNumbers_eq hl, Option.getD_some]

end FileOplog

namespace FileRun

/-! ## What every step keeps -/

/-- The step marks a number that an earlier append returned. -/
def MarksAccepted (r : FileRun) : FileStep → Prop
  | .markApplied seq .. => ∃ e ∈ r.accepted, e.seq = seq
  | _ => True

def IsAppend : FileStep → Prop
  | .append .. => True
  | _ => False

/-- The newest accepted entry is still in the log. -/
def HoldsNewest (r : FileRun) : Prop := ∀ e ∈ r.accepted.getLast?, e ∈ r.oplog.entries

/-- A run without repeated numbers: the log holds the entries `es`, among them every one that
is not marked applied, and the applied file agrees with the applied set. -/
structure Consistent (crypto : Option CryptoEngine) (r : FileRun) (es : List OplogEntry) :
    Prop where
  holds : r.oplog.Holds es []
  stored : es.Sublist r.accepted
  increasing : r.accepted.Pairwise fun a b => a.seq < b.seq
  range : ∀ e ∈ r.accepted, 0 < e.seq ∧ e.seq < 2 ^ 63
  unmarked : r.unmarked = r.accepted.filter fun e => e.seq ∉ r.oplog.applied
  applied : ∀ v ∈ r.oplog.applied, ∃ e ∈ r.accepted, e.seq = v
  kept : ∀ e ∈ r.accepted, e.seq ∉ r.oplog.applied → e ∈ es
  appliedFile : ∃ l, FileOplog.readApplied crypto r.oplog.appliedFile = .ok l ∧
    ∀ v, v ∈ l ↔ v ∈ r.oplog.applied
  crypto : r.oplog.crypto = crypto

lemma consistent_start (crypto : Option CryptoEngine) : Consistent crypto (start crypto) [] where
  holds := ⟨[], rfl, by simp, .nil, rfl⟩
  stored := .slnil
  increasing := .nil
  range := by simp [start]
  unmarked := rfl
  applied := by simp [start]
  kept := by simp [start]
  appliedFile := ⟨[], rfl, by simp [start]⟩
  crypto := rfl

/-- The counter is the number of the newest accepted entry. -/
def Current (r : FileRun) : Prop := r.oplog.nextSeq = FileOplog.lastSeq r.accepted

/-- An accepted entry stays accepted. -/
lemma accepted_step (r : FileRun) (s : FileStep) : r.accepted <+: (r.step s).accepted := by
  cases s with
  | append entry nonce fault =>
    simp only [step, call]
    split
    · exact List.prefix_refl _
    · exact List.prefix_append _ _
  | markApplied seq nonce fault =>
    simp only [step, call]
    split <;> exact List.prefix_refl _
  | compact fault =>
    simp only [step, call]
    split <;> exact List.prefix_refl _
  | reopen =>
    simp only [step, call]
    split <;> exact List.prefix_refl _

lemma accepted_run (r : FileRun) (steps : List FileStep) :
    r.accepted <+: (r.run steps).accepted :=
  @Runs.invariant FileRun FileStep step (fun r' => r.accepted <+: r'.accepted)
    (fun r' s h => h.trans (accepted_step r' s)) r steps (List.prefix_refl _)

section
variable {crypto : Option CryptoEngine} {r : FileRun} {es : List OplogEntry}

/-- Compaction keeps what is not marked applied, and the counter. -/
lemma Consistent.compact (h : Consistent crypto r es) {fault : Option String}
    (hok : (r.call (.compact fault)).1 = .ok ()) :
    Consistent crypto (r.step (.compact fault)) (es.filter fun e => e.seq ∉ r.oplog.applied) ∧
      (r.step (.compact fault)).oplog.nextSeq = r.oplog.nextSeq ∧
      (r.step (.compact fault)).accepted = r.accepted := by
  cases fault with
  | some err => cases hok
  | none =>
    obtain ⟨n, w', hcompact, hw', hholds⟩ := h.holds.compact
    have hstep : r.step (.compact none) = { r with oplog := w' } := by
      simp [step, call, hcompact]
    rw [hstep]
    refine ⟨⟨hholds, List.filter_sublist.trans h.stored, h.increasing, h.range, ?_, ?_, ?_, ?_, ?_⟩,
      ?_, rfl⟩
    · rw [hw']; exact h.unmarked
    · rw [hw']; exact h.applied
    · rw [hw']
      exact fun e he hnot => List.mem_filter.mpr ⟨h.kept e he hnot, by simpa using hnot⟩
    · rw [hw']; exact h.appliedFile
    · rw [hw']; exact h.crypto
    · rw [hw']

/-- A reopen keeps the files and takes the counter from the last stored entry. -/
lemma Consistent.reopen (h : Consistent crypto r es) :
    Consistent crypto (r.step .reopen) es ∧
      (r.step .reopen).oplog.nextSeq = FileOplog.lastSeq es ∧
      (r.step .reopen).accepted = r.accepted := by
  obtain ⟨l, hread, hl⟩ := h.appliedFile
  have hopen := h.holds.reopen_eq (h.crypto.symm ▸ hread)
  have hstep : r.step .reopen = { r with oplog :=
      { r.oplog with nextSeq := FileOplog.lastSeq es, applied := l } } := by
    simp [step, call, hopen]
  rw [hstep]
  refine ⟨⟨h.holds.congr rfl rfl, h.stored, h.increasing, h.range, ?_, ?_, ?_, ?_, h.crypto⟩, rfl,
    rfl⟩
  · rw [h.unmarked]
    exact List.filter_congr fun e _ => by simp [hl]
  · exact fun v hv => h.applied v ((hl v).mp hv)
  · exact fun e he hnot => h.kept e he fun hin => hnot ((hl _).mpr hin)
  · exact ⟨l, hread, fun _ => Iff.rfl⟩

/-- Marking an accepted number takes its entry off the unmarked ones, and keeps the counter. -/
lemma Consistent.markApplied (hb : BsonCodec.RoundTrips) (hs : BsonCodec.Sized)
    (hc : FileOplog.CryptoRoundTrips crypto) (h : Consistent crypto r es) {seq : ℕ}
    {nonce : Nonce} {fault : Option PartialWrite}
    (hok : (r.call (.markApplied seq nonce fault)).1 = .ok ())
    (hmark : ∃ e ∈ r.accepted, e.seq = seq) :
    Consistent crypto (r.step (.markApplied seq nonce fault)) es ∧
      (r.step (.markApplied seq nonce fault)).oplog.nextSeq = r.oplog.nextSeq ∧
      (r.step (.markApplied seq nonce fault)).accepted = r.accepted := by
  set applied := if seq ∈ r.oplog.applied then r.oplog.applied else seq :: r.oplog.applied
    with happlied
  have hmem : ∀ v, v ∈ applied ↔ v = seq ∨ v ∈ r.oplog.applied := by
    intro v
    rw [happlied]
    split_ifs with hin
    · exact ⟨Or.inr, fun hv => hv.elim (fun h => h ▸ hin) id⟩
    · exact List.mem_cons
  have hsmall : ∀ v ∈ applied, v < 2 ^ 64 := by
    intro v hv
    obtain ⟨e, he, rfl⟩ : ∃ e ∈ r.accepted, e.seq = v := by
      rcases (hmem v).mp hv with rfl | hv
      · exact hmark
      · exact h.applied v hv
    have := (h.range e he).2
    omega
  obtain ⟨bytes, hwrite, hstep⟩ : ∃ bytes,
      BsonCodec.toWriter (FileOplog.appliedDocument applied) = .ok bytes ∧
      r.step (.markApplied seq nonce fault) =
        { r with
          oplog := { r.oplog with
            applied, appliedFile := some (FileOplog.sealRecord r.oplog.crypto nonce bytes) }
          unmarked := r.unmarked.filter (·.seq ≠ seq) } := by
    cases hwrite : BsonCodec.toWriter (FileOplog.appliedDocument applied) with
    | error err =>
      simp [call, FileOplog.markApplied, FileOplog.writeApplied, ← happlied, hwrite] at hok
    | ok bytes =>
      cases fault with
      | some f =>
        simp [call, FileOplog.markApplied, FileOplog.writeApplied, ← happlied, hwrite] at hok
      | none =>
        exact ⟨bytes, rfl, by
          simp [step, call, FileOplog.markApplied, FileOplog.writeApplied, ← happlied, hwrite]⟩
  rw [hstep]
  refine ⟨⟨h.holds.congr rfl rfl, h.stored, h.increasing, h.range, ?_, ?_, ?_, ?_, h.crypto⟩, rfl,
    rfl⟩
  · rw [h.unmarked, List.filter_filter]
    refine List.filter_congr fun e _ => ?_
    simp [hmem]
  · intro v hv
    rcases (hmem v).mp hv with rfl | hv
    · exact hmark
    · exact h.applied v hv
  · exact fun e he hnot => h.kept e he fun hin => hnot ((hmem _).mpr (Or.inr hin))
  · exact ⟨applied, h.crypto ▸ FileOplog.readApplied_sealRecord hb hs (h.crypto ▸ hc) nonce hsmall
      hwrite, fun _ => Iff.rfl⟩

/-- An append under a current counter adds its entry under a new number. -/
lemma Consistent.append (hb : BsonCodec.RoundTrips) (hs : BsonCodec.Sized)
    (hc : FileOplog.CryptoRoundTrips crypto) (hcs : FileOplog.CryptoSized crypto)
    (h : Consistent crypto r es) (hcur : r.Current) {entry : OplogEntry} {nonce : Nonce}
    {fault : Option PartialWrite} (hok : (r.call (.append entry nonce fault)).1 = .ok ()) :
    Consistent crypto (r.step (.append entry nonce fault))
        (es ++ [entry.withSeq (r.oplog.nextSeq + 1)]) ∧
      (r.step (.append entry nonce fault)).Current := by
  obtain ⟨p, henc, hstep⟩ := step_append hok
  set e := entry.withSeq (r.oplog.nextSeq + 1) with he
  have hp := FileOplog.encodes_of_encodeEntry hb (h.crypto ▸ hc) henc
  obtain ⟨hlen, hseq⟩ := FileOplog.encodeEntry_sized hs (h.crypto ▸ hcs) henc
  have hlt : ∀ a ∈ r.accepted, a.seq < e.seq := by
    intro a ha
    have hle := FileOplog.seq_le_lastSeq h.increasing ha
    rw [← hcur] at hle
    simp only [he, OplogEntry.withSeq_seq]
    omega
  have hfresh : e.seq ∉ r.oplog.applied := by
    intro hin
    obtain ⟨a, ha, heq⟩ := h.applied _ hin
    exact absurd heq (hlt a ha).ne
  rw [hstep]
  refine ⟨⟨h.holds.append_whole hp hlen rfl rfl, h.stored.append (List.Sublist.refl _), ?_, ?_, ?_,
    ?_, ?_, h.appliedFile, h.crypto⟩, ?_⟩
  · refine List.pairwise_append.mpr ⟨h.increasing, List.pairwise_singleton _ _, ?_⟩
    intro a ha b hb
    rw [List.mem_singleton.mp hb]
    exact hlt a ha
  · intro a ha
    rcases List.mem_append.mp ha with ha | ha
    · exact h.range a ha
    · rw [List.mem_singleton.mp ha]
      exact ⟨by simp [he], hseq⟩
  · rw [List.filter_append, h.unmarked]
    simp [hfresh]
  · intro v hv
    obtain ⟨a, ha, heq⟩ := h.applied v hv
    exact ⟨a, List.mem_append_left _ ha, heq⟩
  · intro a ha hnot
    rcases List.mem_append.mp ha with ha | ha
    · exact List.mem_append_left _ (h.kept a ha hnot)
    · exact List.mem_append_right _ ha
  · simp [Current, he]

/-- With the newest entry in the log, the counter of a reopen is current. -/
lemma Consistent.lastSeq_eq (h : Consistent crypto r es) (hnew : r.HoldsNewest) :
    FileOplog.lastSeq es = FileOplog.lastSeq r.accepted := by
  have hsub := h.stored.subset
  have hes := h.increasing.sublist h.stored
  rw [HoldsNewest, h.holds.entries_eq] at hnew
  refine le_antisymm ?_ ?_
  · by_cases hnil : es = []
    · simp [hnil, FileOplog.lastSeq]
    · obtain ⟨e, he, heq⟩ := FileOplog.lastSeq_mem hnil
      rw [← heq]
      exact FileOplog.seq_le_lastSeq h.increasing (hsub he)
  · rcases List.eq_nil_or_concat' r.accepted with hnil | ⟨init, x, hx⟩
    · simp [hnil, FileOplog.lastSeq]
    · rw [hx, FileOplog.lastSeq_concat]
      exact FileOplog.seq_le_lastSeq hes (hnew x (by rw [hx]; simp))

/-- Without it, every stored number is below the newest one. -/
lemma Consistent.lt_of_not_holdsNewest (h : Consistent crypto r es) (hnew : ¬ r.HoldsNewest) :
    ∃ e ∈ r.accepted, ∀ x ∈ es, x.seq < e.seq := by
  rw [HoldsNewest, h.holds.entries_eq] at hnew
  push Not at hnew
  obtain ⟨e, he, hnot⟩ := hnew
  obtain ⟨init, hinit⟩ : ∃ init, r.accepted = init ++ [e] :=
    ⟨_, (List.dropLast_append_getLast? e he).symm⟩
  refine ⟨e, by rw [hinit]; simp, fun x hx => ?_⟩
  have hmem := h.stored.subset hx
  have hinc := h.increasing
  rw [hinit] at hmem hinc
  rcases List.mem_append.mp hmem with hin | hin
  · exact (List.pairwise_append.mp hinc).2.2 x hin e List.mem_cons_self
  · exact absurd (List.mem_singleton.mp hin ▸ hx) hnot

/-! ## Runs -/

/-- A call of the run succeeds, and marks only what was accepted. -/
def Clean (r : FileRun) (s : FileStep) : Prop := (r.call s).1 = .ok () ∧ r.MarksAccepted s

/-- No reopen of the run that an append follows finds the newest entry gone. -/
def ReopensWithNewest (r : FileRun) (steps : List FileStep) : Prop :=
  ∀ pre post, steps = pre ++ .reopen :: post → (∃ s ∈ post, IsAppend s) →
    (r.run pre).HoldsNewest

lemma ReopensWithNewest.tail {r : FileRun} {s : FileStep} {rest : List FileStep}
    (h : r.ReopensWithNewest (s :: rest)) : (r.step s).ReopensWithNewest rest :=
  fun pre post heq hpost => h (s :: pre) post (by rw [heq]; rfl) hpost

lemma reopensWithNewest_cons {r : FileRun} {s : FileStep} {rest : List FileStep}
    (hs : s = .reopen → (∃ x ∈ rest, IsAppend x) → r.HoldsNewest)
    (hrest : (r.step s).ReopensWithNewest rest) : r.ReopensWithNewest (s :: rest) := by
  intro pre post heq hpost
  cases pre with
  | nil =>
    obtain ⟨rfl, rfl⟩ := List.cons.inj heq
    exact hs rfl hpost
  | cons x pre =>
    obtain ⟨rfl, rfl⟩ := List.cons.inj heq
    exact hrest pre post rfl hpost

section
variable (hb : BsonCodec.RoundTrips) (hs : BsonCodec.Sized)
  (hc : FileOplog.CryptoRoundTrips crypto) (hcs : FileOplog.CryptoSized crypto)
include hb hs hc

/-- A step other than an append keeps consistency and accepts nothing; it keeps the counter,
or sets it to the last stored number. -/
lemma Consistent.step (h : Consistent crypto r es) {s : FileStep} (hclean : r.Clean s)
    (hkind : ¬ IsAppend s) :
    ∃ es', Consistent crypto (r.step s) es' ∧ es'.Sublist es ∧
      (r.step s).accepted = r.accepted ∧
      ((r.step s).oplog.nextSeq = r.oplog.nextSeq ∧ s ≠ .reopen ∨
        (r.step s).oplog.nextSeq = FileOplog.lastSeq es ∧ s = .reopen) := by
  cases s with
  | append entry nonce fault => exact (hkind trivial).elim
  | markApplied seq nonce fault =>
    obtain ⟨hcons, hnext, hacc⟩ := h.markApplied hb hs hc hclean.1 hclean.2
    exact ⟨es, hcons, List.Sublist.refl _, hacc, Or.inl ⟨hnext, by simp⟩⟩
  | compact fault =>
    obtain ⟨hcons, hnext, hacc⟩ := h.compact hclean.1
    exact ⟨_, hcons, List.filter_sublist, hacc, Or.inl ⟨hnext, by simp⟩⟩
  | reopen =>
    obtain ⟨hcons, hnext, hacc⟩ := h.reopen
    exact ⟨es, hcons, List.Sublist.refl _, hacc, Or.inr ⟨hnext, rfl⟩⟩

include hcs

/-- A run stays consistent when the counter is current wherever an append follows. -/
theorem consistent_run {steps : List FileStep} (h : Consistent crypto r es)
    (hcur : (∃ s ∈ steps, IsAppend s) → r.Current)
    (hclean : Runs.All FileRun.step Clean r steps) (hnew : r.ReopensWithNewest steps) :
    ∃ es', Consistent crypto (r.run steps) es' := by
  induction steps generalizing r es with
  | nil => exact ⟨es, h⟩
  | cons s rest ih =>
    obtain ⟨hone, hrest⟩ := hclean
    by_cases hkind : IsAppend s
    · cases s with
      | append entry nonce fault =>
        obtain ⟨hcons, hcurrent⟩ := h.append hb hs hc hcs
          (hcur ⟨_, List.mem_cons_self, trivial⟩) hone.1
        exact ih hcons (fun _ => hcurrent) hrest hnew.tail
      | _ => exact hkind.elim
    · obtain ⟨es', hcons, -, hacc, hnext⟩ := h.step hb hs hc hone hkind
      refine ih hcons (fun hlater => ?_) hrest hnew.tail
      have hlater' : ∃ x ∈ s :: rest, IsAppend x :=
        hlater.imp fun x hx => ⟨List.mem_cons_of_mem _ hx.1, hx.2⟩
      rcases hnext with ⟨hnext, -⟩ | ⟨hnext, rfl⟩
      · rw [Current, hnext, hacc]
        exact hcur hlater'
      · rw [Current, hnext, hacc]
        exact h.lastSeq_eq (hnew [] rest rfl hlater)

omit hcs in
/-- From a counter below an accepted number, with all stored numbers below it too, the next
append returns a number that is not above it. -/
lemma not_increasing_of_stale {steps : List FileStep} (h : Consistent crypto r es)
    {e : OplogEntry} (he : e ∈ r.accepted) (hes : ∀ x ∈ es, x.seq < e.seq)
    (hnext : r.oplog.nextSeq < e.seq) (hlater : ∃ s ∈ steps, IsAppend s)
    (hclean : Runs.All FileRun.step Clean r steps) :
    ¬ (r.run steps).accepted.Pairwise fun a b => a.seq < b.seq := by
  induction steps generalizing r es with
  | nil => simp at hlater
  | cons s rest ih =>
    obtain ⟨hone, hrest⟩ := hclean
    by_cases hkind : IsAppend s
    · cases s with
      | append entry nonce fault =>
        obtain ⟨p, -, hstep⟩ := step_append hone.1
        intro hinc
        have hpre := accepted_run (r.step (.append entry nonce fault)) rest
        have hshort := hinc.sublist hpre.sublist
        rw [hstep] at hshort
        have hlt := (List.pairwise_append.mp hshort).2.2 e he _ List.mem_cons_self
        rw [OplogEntry.withSeq_seq] at hlt
        omega
      | _ => exact hkind.elim
    · obtain ⟨es', hcons, hsub, hacc, hcounter⟩ := h.step hb hs hc hone hkind
      have hlater' : ∃ x ∈ rest, IsAppend x := by
        obtain ⟨x, hx, hxa⟩ := hlater
        exact ⟨x, (List.mem_cons.mp hx).resolve_left (by rintro rfl; exact hkind hxa), hxa⟩
      refine ih hcons (hacc ▸ he) (fun x hx => hes x (hsub.subset hx)) ?_ hlater' hrest
      rcases hcounter with ⟨hsame, -⟩ | ⟨hlast, -⟩
      · rwa [hsame]
      · rw [hlast]
        by_cases hnil : es = []
        · have := (h.range e he).1
          simpa [hnil, FileOplog.lastSeq] using this
        · obtain ⟨x, hx, heq⟩ := FileOplog.lastSeq_mem hnil
          exact heq ▸ hes x hx

/-- Numbers that never repeat are only possible when no reopen before an append finds the
newest entry gone. -/
theorem reopensWithNewest_of_increasing {steps : List FileStep} (h : Consistent crypto r es)
    (hcur : (∃ s ∈ steps, IsAppend s) → r.Current)
    (hclean : Runs.All FileRun.step Clean r steps)
    (hinc : (r.run steps).accepted.Pairwise fun a b => a.seq < b.seq) :
    r.ReopensWithNewest steps := by
  induction steps generalizing r es with
  | nil =>
    intro pre post heq
    simp at heq
  | cons s rest ih =>
    obtain ⟨hone, hrest⟩ := hclean
    by_cases hkind : IsAppend s
    · cases s with
      | append entry nonce fault =>
        obtain ⟨hcons, hcurrent⟩ := h.append hb hs hc hcs
          (hcur ⟨_, List.mem_cons_self, trivial⟩) hone.1
        exact reopensWithNewest_cons (by simp) (ih hcons (fun _ => hcurrent) hrest hinc)
      | _ => exact hkind.elim
    · obtain ⟨es', hcons, hsub, hacc, hcounter⟩ := h.step hb hs hc hone hkind
      have hfound : s = .reopen → (∃ x ∈ rest, IsAppend x) → r.HoldsNewest := by
        rintro rfl hlater
        by_contra hgone
        obtain ⟨e, he, hlt⟩ := h.lt_of_not_holdsNewest hgone
        refine not_increasing_of_stale hb hs hc hcons (hacc ▸ he)
          (fun x hx => hlt x (hsub.subset hx)) ?_ hlater hrest hinc
        obtain ⟨-, hne⟩ | ⟨hlast, -⟩ := hcounter
        · exact absurd rfl hne
        · rw [hlast]
          by_cases hnil : es = []
          · have := (h.range e he).1
            simpa [hnil, FileOplog.lastSeq] using this
          · obtain ⟨x, hx, heq⟩ := FileOplog.lastSeq_mem hnil
            exact heq ▸ hlt x hx
      refine reopensWithNewest_cons hfound (ih hcons (fun hlater => ?_) hrest hinc)
      have hlater' : ∃ x ∈ s :: rest, IsAppend x :=
        hlater.imp fun x hx => ⟨List.mem_cons_of_mem _ hx.1, hx.2⟩
      rcases hcounter with ⟨hsame, -⟩ | ⟨hlast, hreopen⟩
      · rw [Current, hsame, hacc]
        exact hcur hlater'
      · rw [Current, hlast, hacc]
        exact h.lastSeq_eq (hfound hreopen hlater)

/-- **When numbers repeat.** In a run of appends, markings of accepted numbers, compactions
and reopens on a new path in which no call fails: the returned numbers increase and every
entry that was not marked applied since its append is still read, exactly when no reopen
that an append follows finds the newest accepted entry gone from the log. -/
theorem compaction_sound_iff {steps : List FileStep}
    (hclean : Runs.All FileRun.step Clean (start crypto) steps) :
    (((start crypto).run steps).accepted.Pairwise (fun a b => a.seq < b.seq) ∧
      ∃ enough, ∀ limit ≥ enough, ∃ found,
        ((start crypto).run steps).oplog.readSince 1 limit = .ok found ∧
          ∀ e ∈ ((start crypto).run steps).unmarked, e ∈ found) ↔
    (start crypto).ReopensWithNewest steps := by
  have hstart := consistent_start crypto
  constructor
  · rintro ⟨hinc, -⟩
    exact reopensWithNewest_of_increasing hb hs hc hcs hstart (fun _ => rfl) hclean hinc
  · intro hnew
    obtain ⟨es, h⟩ := consistent_run hb hs hc hcs hstart (fun _ => rfl) hclean hnew
    refine ⟨h.increasing, es.length + 1, fun limit hlimit => ?_⟩
    refine ⟨_, h.holds.readSince_eq 1 (by omega), fun e he => ?_⟩
    rw [h.unmarked] at he
    obtain ⟨hacc, hnot⟩ := List.mem_filter.mp he
    have hmem := h.kept e hacc (by simpa using hnot)
    rw [entriesSince, List.take_of_length_le ((List.length_filter_le _ _).trans (by omega))]
    have hpos := (h.range e hacc).1
    simp [hmem]
    omega

end

end
end FileRun
end

section
attribute [local instance] sampleCodec

/-- An entry is appended, marked applied and compacted away; the path is opened again and
another entry appended. -/
def sampleReuseSteps : List FileStep :=
  [.append (sampleEntry 0 "a") sampleNonce none, .markApplied 1 sampleNonce none, .compact none,
    .reopen, .append (sampleEntry 0 "c") sampleNonce none]

/-- No call of that run fails. -/
lemma sampleReuse_clean : Runs.All FileRun.step FileRun.Clean (FileRun.start none)
    sampleReuseSteps := by
  refine ⟨⟨by decide +kernel, trivial⟩, ⟨by decide +kernel, ?_⟩, ⟨by decide +kernel, trivial⟩,
    ⟨by decide +kernel, trivial⟩, ⟨by decide +kernel, trivial⟩, trivial⟩
  exact ⟨sampleEntry 1 "a", by decide +kernel, rfl⟩

theorem FileRun.compaction_sound_iff_sample :
    (((FileRun.start none).run sampleReuseSteps).accepted.Pairwise (fun a b => a.seq < b.seq) ∧
      ∃ enough, ∀ limit ≥ enough, ∃ found,
        ((FileRun.start none).run sampleReuseSteps).oplog.readSince 1 limit = .ok found ∧
          ∀ e ∈ ((FileRun.start none).run sampleReuseSteps).unmarked, e ∈ found) ↔
    (FileRun.start none).ReopensWithNewest sampleReuseSteps :=
  FileRun.compaction_sound_iff sampleCodec_roundTrips sampleCodec_sized
    (by simp [FileOplog.CryptoRoundTrips]) (by simp [FileOplog.CryptoSized]) sampleReuse_clean

/-- Both appends of that run return `1`. -/
theorem compacted_number_reused :
    Runs.All FileRun.step FileRun.Clean (FileRun.start none) sampleReuseSteps ∧
      ((FileRun.start none).run sampleReuseSteps).accepted.map OplogEntry.seq = [1, 1] ∧
      ¬ ((FileRun.start none).run sampleReuseSteps).accepted.Pairwise fun a b => a.seq < b.seq :=
  ⟨sampleReuse_clean, by decide +kernel, by decide +kernel⟩

end
end Rango
