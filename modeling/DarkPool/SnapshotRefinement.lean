import DarkPool.SnapshotFiles

namespace DarkPool

section Names

theorem utf8Size_digitChar {d : Nat} (h : d < 10) : (Nat.digitChar d).utf8Size = 1 := by
  revert d
  decide

theorem digitChar_ne_plus {d : Nat} (h : d < 10) : Nat.digitChar d ≠ '+' := by
  revert d
  decide

theorem utf8Length_digits (ds : List Nat) (h : ∀ d ∈ ds, d < 10) : utf8Length (ds.map Nat.digitChar) = ds.length := by
  induction ds with
  | nil => rfl
  | cons d ds ih =>
    have hrest := ih (fun e he => h e (List.mem_cons_of_mem d he))
    unfold utf8Length at hrest ⊢
    rw [List.map_cons, List.map_cons, List.sum_cons, hrest, utf8Size_digitChar (h d List.mem_cons_self),
      List.length_cons, Nat.add_comm]

theorem utf8Length_paddedSeq (seq : SnapSeq) : utf8Length (paddedSeq seq) = seqDigits :=
  (utf8Length_digits _ (fun _ => Radix.lt_of_mem_toDigits (by decide))).trans (Radix.length_toDigits _ _ _)

theorem parseSeq_paddedSeq (seq : SnapSeq) : parseSeq (paddedSeq seq) = some seq := by
  have hlt : seq.val < 10 ^ seqDigits := seq.isLt.trans (by decide)
  have hdigits : ∀ d ∈ Radix.toDigits 10 seqDigits seq.val, d < 10 := fun _ => Radix.lt_of_mem_toDigits (by decide)
  have hne : Radix.toDigits 10 seqDigits seq.val ≠ [] := by
    rw [← List.length_pos_iff, Radix.length_toDigits]
    decide
  have hread : Radix.ofDecimal (paddedSeq seq) = some seq.val := by
    rw [paddedSeq, Radix.ofDecimal_digits _ hne hdigits, Radix.ofDigits_toDigits _ _ hlt]
  have hsign : ∀ cs, paddedSeq seq ≠ '+' :: cs := by
    intro cs heq
    obtain ⟨d, ds, hcons, hplus, -⟩ := List.map_eq_cons_iff.mp heq
    exact digitChar_ne_plus (hdigits d (hcons ▸ List.mem_cons_self)) hplus
  unfold parseSeq
  split
  next cs heq => exact absurd heq (hsign cs)
  next => rw [hread, Option.bind_some, boundedSeq, dif_pos seq.isLt]

theorem parse_pathFor (seq : SnapSeq) : parseSeqFromFilename (pathFor seq) = some seq := by
  have hstem : (pathFor seq).take ((pathFor seq).length - snapExt.length) = paddedSeq seq := by
    simp [pathFor]
  have hsuffix : snapExt <:+ pathFor seq := List.suffix_append _ _
  rw [parseSeqFromFilename, if_pos hsuffix]
  simp only [hstem, utf8Length_paddedSeq, ne_eq, not_true_eq_false, if_false, parseSeq_paddedSeq]

theorem pathFor_injective {seq seq' : SnapSeq} (h : pathFor seq = pathFor seq') : seq = seq' := by
  have hparse := parse_pathFor seq
  rw [h, parse_pathFor] at hparse
  exact (Option.some.inj hparse).symm

theorem parse_tmpFor (seq : SnapSeq) : parseSeqFromFilename (tmpFor seq) = none := by
  have hsuffix : ¬ snapExt <:+ tmpFor seq := by
    rw [← List.reverse_prefix]
    simp [tmpFor, snapExt, tmpExt]
  rw [parseSeqFromFilename, if_neg hsuffix]

theorem tmpFor_ne_pathFor (seq seq' : SnapSeq) : tmpFor seq ≠ pathFor seq' := by
  intro h
  have hparse := parse_tmpFor seq
  rw [h, parse_pathFor] at hparse
  cases hparse

end Names

/-- The directory holds the snapshots under their names, and no other file passes for one. -/
structure Shows (dir : SnapDir) (snaps : MemSnapshots) : Prop where
  files : ∀ seq, dir.lookup (pathFor seq) = snaps.lookup seq
  names : ∀ {name bytes seq}, dir.lookup name = some bytes → parseSeqFromFilename name = some seq → name = pathFor seq

namespace Shows

variable {dir : SnapDir} {snaps snaps' : MemSnapshots}

theorem empty : Shows ∅ ∅ where
  files seq := by rw [AList.lookup_empty, AList.lookup_empty]
  names h := by
    rw [AList.lookup_empty] at h
    cases h

theorem congr (h : Shows dir snaps) (heq : ∀ seq, snaps.lookup seq = snaps'.lookup seq) : Shows dir snaps' :=
  ⟨fun seq => (h.files seq).trans (heq seq), h.names⟩

theorem insert_tmp (h : Shows dir snaps) (seq : SnapSeq) (bytes : Envelope) :
    Shows (dir.insert (tmpFor seq) bytes) snaps where
  files seq' := by
    rw [Table.lookup_insert_eq, if_neg (tmpFor_ne_pathFor seq seq').symm, h.files]
  names hname hparse := by
    rcases Table.lookup_insert_cases hname with ⟨heq, _⟩ | ⟨_, hname⟩
    · rw [heq, parse_tmpFor] at hparse
      cases hparse
    · exact h.names hname hparse

theorem erase_tmp (h : Shows dir snaps) (seq : SnapSeq) : Shows (dir.erase (tmpFor seq)) snaps where
  files seq' := by
    rw [Table.lookup_erase_eq, if_neg (tmpFor_ne_pathFor seq seq').symm, h.files]
  names hname := h.names (Table.lookup_erase_cases hname).2

theorem insert_path (h : Shows dir snaps) (seq : SnapSeq) (bytes : Envelope) :
    Shows (dir.insert (pathFor seq) bytes) (snaps.insert seq bytes) where
  files seq' := by
    rw [Table.lookup_insert_eq, Table.lookup_insert_eq, h.files]
    by_cases heq : seq' = seq
    · rw [heq, if_pos rfl, if_pos rfl]
    · rw [if_neg heq, if_neg (fun hpath => heq (pathFor_injective hpath))]
  names hname hparse := by
    rcases Table.lookup_insert_cases hname with ⟨heq, _⟩ | ⟨_, hname⟩
    · rw [heq, parse_pathFor] at hparse
      rw [heq, Option.some.inj hparse]
    · exact h.names hname hparse

theorem erase_path (h : Shows dir snaps) (seq : SnapSeq) : Shows (dir.erase (pathFor seq)) (snaps.erase seq) where
  files seq' := by
    rw [Table.lookup_erase_eq, Table.lookup_erase_eq, h.files]
    by_cases heq : seq' = seq
    · rw [heq, if_pos rfl, if_pos rfl]
    · rw [if_neg heq, if_neg (fun hpath => heq (pathFor_injective hpath))]
  names hname := h.names (Table.lookup_erase_cases hname).2

theorem rename (h : Shows dir snaps) (seq : SnapSeq) (envelope : Envelope) :
    Shows (FileSnapshotStore.rename dir seq envelope) (snaps.insert seq envelope) :=
  ((h.insert_tmp seq envelope).erase_tmp seq).insert_path seq envelope

theorem keepTmp (h : Shows dir snaps) (seq : SnapSeq) (left : Option Envelope) :
    Shows (FileSnapshotStore.keepTmp dir seq left) snaps := by
  cases left with
  | none => exact h
  | some bytes => exact h.insert_tmp seq bytes

theorem mem_iff (h : Shows dir snaps) (seq : SnapSeq) : pathFor seq ∈ dir ↔ seq ∈ snaps := by
  rw [Table.mem_iff_lookup, Table.mem_iff_lookup, h.files]

theorem name_eq (h : Shows dir snaps) {name : FileName} {seq : SnapSeq} (hname : name ∈ dir.keys)
    (hparse : parseSeqFromFilename name = some seq) : name = pathFor seq := by
  obtain ⟨bytes, hbytes⟩ := Table.mem_iff_lookup.mp (AList.mem_keys.mpr hname)
  exact h.names hbytes hparse

/-- Each snapshot has one file name, so the names read back list each snapshot once. -/
theorem seqs_perm (h : Shows dir snaps) : (dir.keys.filterMap parseSeqFromFilename).Perm snaps.keys := by
  have hnodup : (dir.keys.filterMap parseSeqFromFilename).Nodup := by
    apply List.pairwise_filterMap.mpr
    apply dir.keys_nodup.imp_of_mem
    intro name name' hname hname' hne seq hseq seq' hseq' heq
    apply hne
    rw [h.name_eq hname hseq, h.name_eq hname' hseq', heq]
  apply (List.perm_ext_iff_of_nodup hnodup snaps.keys_nodup).mpr
  intro seq
  rw [List.mem_filterMap, ← AList.mem_keys, ← h.mem_iff]
  constructor
  · rintro ⟨name, hname, hparse⟩
    rw [← h.name_eq hname hparse]
    exact hname
  · exact fun hmem => ⟨pathFor seq, hmem, parse_pathFor seq⟩

theorem listSeqs_eq (h : Shows dir snaps) : FileSnapshotStore.listSeqs dir = MemSnapshotStore.listSeqs snaps := by
  have hperm := (List.perm_insertionSort (· ≤ ·) (dir.keys.filterMap parseSeqFromFilename)).trans
    (h.seqs_perm.trans (List.perm_insertionSort (· ≤ ·) snaps.keys).symm)
  refine hperm.eq_of_pairwise ?_ (List.pairwise_insertionSort _ _) (List.pairwise_insertionSort _ _)
  exact fun a b _ _ hab hba => le_antisymm hab hba

theorem readLatest_eq (h : Shows dir snaps) :
    FileSnapshotStore.readLatest dir = .latest (MemSnapshotStore.readLatest snaps) := by
  unfold FileSnapshotStore.readLatest MemSnapshotStore.readLatest
  rw [h.listSeqs_eq]
  cases hlast : (MemSnapshotStore.listSeqs snaps).getLast? with
  | none => rfl
  | some seq =>
    have hmem : seq ∈ snaps := by
      have hlisted := List.mem_of_mem_getLast? hlast
      rwa [MemSnapshotStore.listSeqs, List.mem_insertionSort, ← AList.mem_keys] at hlisted
    obtain ⟨bytes, hbytes⟩ := Table.mem_iff_lookup.mp hmem
    simp only [h.files, hbytes, Option.bind_some, Option.map_some]

end Shows

section Sweep

open MemSnapshotStore

theorem lookup_deleteBefore (snaps : MemSnapshots) (before seq : SnapSeq) :
    (deleteBefore snaps before).lookup seq = if before ≤ seq then snaps.lookup seq else none := by
  unfold deleteBefore
  rw [Table.lookup_retain_eq]
  cases snaps.lookup seq with
  | none => simp
  | some bytes => simp [Option.filter_some]

theorem Shows.nothing_before {dir : SnapDir} {snaps : MemSnapshots} {upTo : SnapSeq} (h : Shows dir snaps)
    (hnone : ∀ seq ∈ snaps, upTo ≤ seq) : Shows dir (deleteBefore snaps upTo) := by
  apply h.congr
  intro seq
  rw [lookup_deleteBefore]
  split
  next => rfl
  next hlt => exact AList.lookup_eq_none.mpr (fun hmem => hlt (hnone seq hmem))

/-- What was removed on its own would have gone with the rest. -/
theorem Shows.of_erase {dir : SnapDir} {snaps : MemSnapshots} {upTo seq : SnapSeq}
    (h : Shows dir (deleteBefore (snaps.erase seq) upTo)) (hlt : seq < upTo) : Shows dir (deleteBefore snaps upTo) := by
  apply h.congr
  intro seq'
  rw [lookup_deleteBefore, lookup_deleteBefore, Table.lookup_erase_eq]
  split
  next hle => rw [if_neg (hlt.trans_le hle).ne']
  next => rfl

/-- A sweep that is through has removed what lies before its bound; one that is stopped has removed what
lies before the file it stopped at. -/
def Swept (before : SnapSeq) (seqs : List SnapSeq) (snaps : MemSnapshots) (result : SnapshotReply × SnapDir) : Prop :=
  (result.1 = .done ∧ Shows result.2 (deleteBefore snaps before)) ∨
    result.1 = .error ∧ ∃ upTo ∈ seqs, upTo ≤ before ∧ Shows result.2 (deleteBefore snaps upTo)

theorem Swept.of_erase {before seq : SnapSeq} {seqs : List SnapSeq} {snaps : MemSnapshots}
    {result : SnapshotReply × SnapDir} (h : Swept before seqs (snaps.erase seq) result) (hlt : seq < before)
    (hnext : ∀ seq' ∈ seqs, seq < seq') : Swept before (seq :: seqs) snaps result := by
  rcases h with ⟨hdone, hshows⟩ | ⟨herror, upTo, hmem, hle, hshows⟩
  · exact Or.inl ⟨hdone, hshows.of_erase hlt⟩
  · exact Or.inr ⟨herror, upTo, List.mem_cons_of_mem seq hmem, hle, hshows.of_erase (hnext upTo hmem)⟩

theorem removeBefore_swept {before : SnapSeq} {seqs : List SnapSeq} {dir : SnapDir} {snaps : MemSnapshots}
    (failing : Option Nat) (h : Shows dir snaps) (hsorted : seqs.Pairwise (· < ·))
    (hleft : ∀ seq ∈ snaps, seq < before → seq ∈ seqs) :
    Swept before seqs snaps (FileSnapshotStore.removeBefore before failing dir seqs) := by
  induction seqs generalizing failing dir snaps with
  | nil => exact Or.inl ⟨rfl, h.nothing_before (fun seq hseq => not_lt.mp (fun hlt => nomatch hleft seq hseq hlt))⟩
  | cons seq seqs ih =>
    obtain ⟨hnext, hsorted'⟩ := List.pairwise_cons.mp hsorted
    unfold FileSnapshotStore.removeBefore
    split
    next hlt =>
      have hleft' : ∀ seq' ∈ AList.erase seq snaps, seq' < before → seq' ∈ seqs := by
        intro seq' hmem hlt'
        obtain ⟨hne, hmem⟩ := AList.mem_erase.mp hmem
        exact (List.mem_cons.mp (hleft seq' hmem hlt')).resolve_left hne
      split
      next =>
        refine Or.inr ⟨rfl, seq, List.mem_cons_self, hlt.le, h.nothing_before (fun seq' hmem => ?_)⟩
        rcases lt_or_ge seq' before with hlt' | hge
        · rcases List.mem_cons.mp (hleft seq' hmem hlt') with heq | hlater
          · exact heq.ge
          · exact (hnext seq' hlater).le
        · exact hlt.le.trans hge
      next => exact (ih _ (h.erase_path seq) hsorted' hleft').of_erase hlt hnext
      next => exact (ih _ (h.erase_path seq) hsorted' hleft').of_erase hlt hnext
    next hge =>
      have hleft' : ∀ seq' ∈ snaps, seq' < before → seq' ∈ seqs := by
        intro seq' hmem hlt'
        exact (List.mem_cons.mp (hleft seq' hmem hlt')).resolve_left (fun heq => hge (heq ▸ hlt'))
      rcases ih failing h hsorted' hleft' with hdone | ⟨herror, upTo, hmem, hle⟩
      · exact Or.inl hdone
      · exact Or.inr ⟨herror, upTo, List.mem_cons_of_mem seq hmem, hle⟩

theorem listSeqs_sorted (snaps : MemSnapshots) : (listSeqs snaps).Pairwise (· < ·) := by
  have hle : (listSeqs snaps).Pairwise (· ≤ ·) := List.pairwise_insertionSort _ _
  have hnodup : (listSeqs snaps).Nodup := (List.perm_insertionSort _ _).nodup_iff.mpr snaps.keys_nodup
  exact hle.imp₂ (fun _ _ hle hne => lt_of_le_of_ne hle hne) hnodup

end Sweep

open MemSnapshotStore in
/-- Every call of the file store is one the store in memory may make. -/
theorem step_refines {dir : SnapDir} {snaps : MemSnapshots} (h : Shows dir snaps) (op : SnapshotOp) :
    ∃ next, May snaps op (FileSnapshotStore.step dir op).1 next ∧ Shows (FileSnapshotStore.step dir op).2 next := by
  cases op with
  | write seq envelope fault =>
    rcases fault with _ | ⟨left⟩ | ⟨left⟩ | _
    · exact ⟨_, .written seq envelope, h.rename seq envelope⟩
    · exact ⟨_, .failed seq envelope left, h.keepTmp seq left⟩
    · exact ⟨_, .lost seq envelope (.crashed left), h.keepTmp seq left⟩
    · exact ⟨_, .crashed seq envelope .crashedAfterRename, h.rename seq envelope⟩
  | readLatest =>
    simp only [FileSnapshotStore.step, h.readLatest_eq]
    exact ⟨snaps, .latest, h⟩
  | readAt seq =>
    simp only [FileSnapshotStore.step, h.files]
    exact ⟨snaps, .found seq, h⟩
  | listSeqs =>
    simp only [FileSnapshotStore.step, h.listSeqs_eq]
    exact ⟨snaps, .seqs, h⟩
  | deleteBefore before failing =>
    simp only [FileSnapshotStore.step, h.listSeqs_eq]
    have hleft : ∀ seq ∈ snaps, seq < before → seq ∈ listSeqs snaps := by
      intro seq hmem _
      rwa [listSeqs, List.mem_insertionSort, ← AList.mem_keys]
    rcases removeBefore_swept failing h (listSeqs_sorted snaps) hleft with
      ⟨hdone, hshows⟩ | ⟨herror, upTo, _, hle, hshows⟩
    · rw [hdone]
      exact ⟨_, .deleted before failing, hshows⟩
    · rw [herror]
      exact ⟨_, .partly before upTo failing hle, hshows⟩

theorem run_refines {dir : SnapDir} {snaps : MemSnapshots} (h : Shows dir snaps) (ops : List SnapshotOp) :
    ∃ last, MemSnapshotStore.Runs snaps (FileSnapshotStore.run dir ops).1 last ∧
      Shows (FileSnapshotStore.run dir ops).2 last := by
  induction ops generalizing dir snaps with
  | nil => exact ⟨snaps, .nil snaps, h⟩
  | cons op ops ih =>
    obtain ⟨next, hmay, hshows⟩ := step_refines h op
    obtain ⟨last, hruns, hlast⟩ := ih hshows
    exact ⟨last, .cons hmay hruns, hlast⟩

/-- Whatever is written, read and swept, and wherever a write fails or the process dies, the file store answers as
a store in memory does in which a failed write did nothing, a crashed one happened entirely or not at all, and a
sweep that failed removed the oldest of what it was to remove. -/
theorem fileSnapshotStore_refines (ops : List SnapshotOp) :
    ∃ last, MemSnapshotStore.Runs ∅ (FileSnapshotStore.run ∅ ops).1 last ∧
      (∀ seq, (FileSnapshotStore.run ∅ ops).2.lookup (pathFor seq) = last.lookup seq) := by
  obtain ⟨last, hruns, hshows⟩ := run_refines Shows.empty ops
  exact ⟨last, hruns, hshows.files⟩

end DarkPool
