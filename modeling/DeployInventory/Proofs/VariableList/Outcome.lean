import DeployInventory.Proofs.VariableList.Log
/-!
# Proofs.VariableList.Outcome — a merge tells what it did

The scan for the place of an entry passes larger ids only, and stops at the end, behind an entry that is smaller or has
no id, or at the entry that gives way (`merge_of_enabled`). In an ordered list nothing further to the left can have the
id, so the outcome of a merge and the list that it leaves tell of each other (`merge_tells`).
-/
namespace DeployInventory
namespace VariableList

variable {l k before after : VariableList} {a : Assignment} {e f : VariableEntry} {id : AssignmentId} {i c : Nat}

/-! ## The place of an id -/

/-- **A list cut where an id belongs.** -/
structure PartedAt (id : AssignmentId) (before after : VariableList) : Prop where
  below : ∀ e ∈ before, precedes id e = true
  above : ∀ e ∈ after, follows id e = true

theorem PartedAt.id_ne (h : PartedAt id before after) (he : e ∈ before ++ after) : e.id ≠ some id :=
  precedes_or_follows_iff.1 ((List.mem_append.1 he).imp (h.below e) (h.above e))

/-- The place is told by the number of entries before it. -/
theorem PartedAt.countP_eq (h : PartedAt id before after) :
    (before ++ after).countP (precedes id) = before.length := by
  have hafter : after.countP (precedes id) = 0 := List.countP_eq_zero.2 fun e he hp => by
    simpa [follows_eq_false_of_precedes hp] using h.above e he
  rw [List.countP_append, List.countP_eq_length.2 h.below, hafter, Nat.add_zero]

theorem WellOrdered.partedAt (h : WellOrdered (before ++ e :: after)) (he : e.id = some id) :
    PartedAt id before after := by
  obtain ⟨-, hafter, hbefore⟩ := List.pairwise_append.1 h
  constructor
  · intro f hf
    rw [← inOrder_eq_precedes he]
    exact hbefore f hf e List.mem_cons_self
  · intro f hf
    rw [← inOrder_eq_follows he]
    exact (List.pairwise_cons.1 hafter).1 f hf

theorem insertIdx_length (before after : VariableList) (e : VariableEntry) :
    (before ++ after).insertIdx before.length e = before ++ e :: after := by
  induction before with
  | nil => rfl
  | cons f before ih => simpa using ih

/-- In an ordered list an id belongs at one place only. -/
theorem PartedAt.eq_length (h : PartedAt id before after) (he : e.id = some id) (hi : i ≤ (before ++ after).length)
    (hins : WellOrdered ((before ++ after).insertIdx i e)) : i = before.length := by
  have hcut := insertIdx_length ((before ++ after).take i) ((before ++ after).drop i) e
  rw [List.take_append_drop, List.length_take, Nat.min_eq_left hi] at hcut
  rw [hcut] at hins
  have hcount := (hins.partedAt he).countP_eq
  rw [List.take_append_drop, h.countP_eq, List.length_take, Nat.min_eq_left hi] at hcount
  exact hcount.symm

/-- The entry with an id stands at one place only. -/
theorem PartedAt.eq_length_of_getElem? (h : PartedAt id before after)
    (hi : (before ++ f :: after)[i]? = some e) (he : e.id = some id) : i = before.length := by
  by_contra hne
  refine h.id_ne (e := e) ?_ he
  rw [List.getElem?_append] at hi
  split at hi
  · exact List.mem_append_left _ (List.mem_of_getElem? hi)
  · obtain ⟨n, hn⟩ : ∃ n, i - before.length = n + 1 := ⟨i - before.length - 1, by omega⟩
    rw [hn, List.getElem?_cons_succ] at hi
    exact List.mem_append_right _ (List.mem_of_getElem? hi)

/-! ## The scan -/

/-- **What the scan passes and where it stops**, whatever the order of the list. -/
theorem place_stops (e : VariableEntry) (id : AssignmentId) : ∀ rev : List VariableEntry, ∃ passed rest,
    (∀ f ∈ passed, follows id f = true) ∧
    (rev = passed ++ rest ∧ (∀ f ∈ rest.head?, precedes id f = true) ∧
        place e id rev = (passed ++ e :: rest, .inserted rest.length) ∨
      ∃ f, rev = passed ++ f :: rest ∧ f.id = some id ∧ place e id rev = (passed ++ e :: rest, .replaced rest.length))
  | [] => ⟨[], [], by simp, .inl ⟨rfl, by simp, rfl⟩⟩
  | f :: rev => by
    unfold place
    cases hf : f.id with
    | none => exact ⟨[], f :: rev, by simp, .inl ⟨rfl, by simp [precedes, hf], rfl⟩⟩
    | some j =>
      cases hc : compare j id with
      | lt =>
        have hp : precedes id f = true := by
          simp only [precedes, hf, decide_eq_true_eq]
          exact hc
        exact ⟨[], f :: rev, by simp, .inl ⟨rfl, by simpa using hp, by simp [hc]⟩⟩
      | eq =>
        have hid : f.id = some id := by rw [hf, AssignmentId.compare_eq_iff.1 hc]
        exact ⟨[], rev, by simp, .inr ⟨f, rfl, hid, by simp [hc]⟩⟩
      | gt =>
        have hfol : follows id f = true := by
          simp only [follows, hf, decide_eq_true_eq]
          exact AssignmentId.compare_gt_iff.1 hc
        obtain ⟨passed, rest, hpassed, h⟩ := place_stops e id rev
        refine ⟨f :: passed, rest, List.forall_mem_cons.2 ⟨hfol, hpassed⟩, ?_⟩
        rcases h with ⟨rfl, hrest, hplace⟩ | ⟨g, rfl, hg, hplace⟩
        · exact .inl ⟨rfl, hrest, by simp [hc, hplace]⟩
        · exact .inr ⟨g, rfl, hg, by simp [hc, hplace]⟩

/-- **A merge of an enabled assignment**, whatever the order of the list. -/
theorem merge_of_enabled (ha : a.disabled = false) (l : VariableList) : ∃ before after,
    (∀ f ∈ after, follows a.id f = true) ∧
    (l = before ++ after ∧ (∀ f ∈ before.getLast?, precedes a.id f = true) ∧
        l.merge a = (before ++ a.placed :: after, .inserted before.length) ∨
      ∃ f, l = before ++ f :: after ∧ f.id = some a.id ∧
        l.merge a = (before ++ a.placed :: after, .replaced before.length)) := by
  obtain ⟨passed, rest, hpassed, h⟩ := place_stops a.placed a.id l.reverse
  refine ⟨rest.reverse, passed.reverse, by simpa using hpassed, ?_⟩
  unfold merge
  rcases h with ⟨hl, hrest, hplace⟩ | ⟨f, hl, hf, hplace⟩
  · refine .inl ⟨?_, by simpa using hrest, by simp [ha, hplace]⟩
    rw [← List.reverse_reverse l, hl, List.reverse_append]
  · refine .inr ⟨f, ?_, hf, by simp [ha, hplace]⟩
    rw [← List.reverse_reverse l, hl]
    simp

/-- **In an ordered list** nothing to the left of where the scan stops has the id. -/
theorem merge_cases (hl : WellOrdered l) (ha : a.disabled = false) : ∃ before after, PartedAt a.id before after ∧
    (l = before ++ after ∧ l.merge a = (before ++ a.placed :: after, .inserted before.length) ∨
      ∃ f, l = before ++ f :: after ∧ f.id = some a.id ∧
        l.merge a = (before ++ a.placed :: after, .replaced before.length)) := by
  obtain ⟨before, after, hafter, ⟨rfl, hlast, hmerge⟩ | ⟨f, rfl, hf, hmerge⟩⟩ := merge_of_enabled ha l
  · refine ⟨before, after, ⟨fun e he => ?_, hafter⟩, .inl ⟨rfl, hmerge⟩⟩
    rcases List.eq_nil_or_concat' before with rfl | ⟨init, last, rfl⟩
    · cases he
    have hp : precedes a.id last = true := hlast last (by simp)
    rcases List.mem_append.1 he with he | he
    · -- what stands before an entry that precedes the id precedes it as well
      have horder : inOrder e last = true :=
        (List.pairwise_append.1 (List.pairwise_append.1 hl).1).2.2 e he last List.mem_cons_self
      rw [← inOrder_eq_precedes (f := a.placed) rfl] at hp ⊢
      exact inOrder_trans horder hp
    · rwa [List.mem_singleton.1 he]
  · exact ⟨before, after, hl.partedAt hf, .inr ⟨f, rfl, hf, hmerge⟩⟩

/-! ## Outcomes -/

theorem merge_eq_inserted_iff (hl : WellOrdered l) : l.merge a = (k, .inserted i) ↔
    a.disabled = false ∧ (∀ e ∈ l, e.id ≠ some a.id) ∧ i ≤ l.length ∧ k = l.insertIdx i a.placed ∧
      WellOrdered k := by
  constructor
  · intro h
    have hk : k = l.assign a := by rw [assign, h]
    have hordered : WellOrdered k := hk ▸ wellOrdered_assign hl a
    cases ha : a.disabled with
    | true => simp [merge, ha] at h
    | false =>
      obtain ⟨before, after, hparted, ⟨rfl, hmerge⟩ | ⟨f, rfl, -, hmerge⟩⟩ := merge_cases hl ha
      · rw [hmerge, Prod.mk.injEq, MergeOutcome.inserted.injEq] at h
        obtain ⟨rfl, rfl⟩ := h
        exact ⟨rfl, fun e he => hparted.id_ne he, by simp, (insertIdx_length before after a.placed).symm, hordered⟩
      · simp [hmerge] at h
  · rintro ⟨ha, hnone, hi, rfl, hordered⟩
    obtain ⟨before, after, hparted, ⟨rfl, hmerge⟩ | ⟨f, rfl, hf, -⟩⟩ := merge_cases hl ha
    · rw [hmerge, hparted.eq_length rfl hi hordered, insertIdx_length]
    · exact absurd hf (hnone f (by simp))

theorem merge_eq_replaced_iff (hl : WellOrdered l) : l.merge a = (k, .replaced i) ↔
    a.disabled = false ∧ (∃ e, l[i]? = some e ∧ e.id = some a.id) ∧ k = l.set i a.placed := by
  constructor
  · intro h
    cases ha : a.disabled with
    | true => simp [merge, ha] at h
    | false =>
      obtain ⟨before, after, -, ⟨rfl, hmerge⟩ | ⟨f, rfl, hf, hmerge⟩⟩ := merge_cases hl ha
      · simp [hmerge] at h
      · rw [hmerge, Prod.mk.injEq, MergeOutcome.replaced.injEq] at h
        obtain ⟨rfl, rfl⟩ := h
        exact ⟨rfl, ⟨f, by simp, hf⟩, by simp⟩
  · rintro ⟨ha, ⟨e, hi, he⟩, rfl⟩
    obtain ⟨before, after, hparted, ⟨rfl, -⟩ | ⟨f, rfl, -, hmerge⟩⟩ := merge_cases hl ha
    · exact absurd he (hparted.id_ne (List.mem_of_getElem? hi))
    · rw [hmerge, hparted.eq_length_of_getElem? hi he]
      simp

theorem merge_eq_removed_iff : l.merge a = (k, .removed c) ↔
    a.disabled = true ∧ k = l.filter (!carries a.id ·) ∧ c = l.countP (carries a.id) := by
  cases ha : a.disabled with
  | true =>
    rw [merge, if_pos ha, Prod.mk.injEq, MergeOutcome.removed.injEq]
    simp only [true_and, eq_comm]
  | false =>
    obtain ⟨before, after, -, ⟨-, -, hmerge⟩ | ⟨f, -, -, hmerge⟩⟩ := merge_of_enabled ha l <;> simp [hmerge]

theorem carries_eq_true_iff : carries id e = true ↔ e.id = some id := by simp [carries]

theorem filter_carries_of_absent (h : ∀ e ∈ l, e.id ≠ some id) :
    l.filter (!carries id ·) = l ∧ l.countP (carries id) = 0 :=
  ⟨List.filter_eq_self.2 fun e he => by simpa [carries] using h e he,
    List.countP_eq_zero.2 fun e he hc => h e he (carries_eq_true_iff.1 hc)⟩

/-- **In an ordered list a tombstone finds one entry at most.** -/
theorem merge_eq_removed_iff_of_wellOrdered (hl : WellOrdered l) : l.merge a = (k, .removed c) ↔
    a.disabled = true ∧ ((∃ i e, l[i]? = some e ∧ e.id = some a.id ∧ c = 1 ∧ k = l.eraseIdx i) ∨
      (∀ e ∈ l, e.id ≠ some a.id) ∧ c = 0 ∧ k = l) := by
  rw [merge_eq_removed_iff]
  refine and_congr_right fun _ => ?_
  by_cases hid : ∃ e ∈ l, e.id = some a.id
  · obtain ⟨f, hf, hfid⟩ := hid
    obtain ⟨before, after, rfl⟩ := List.append_of_mem hf
    have hparted := hl.partedAt hfid
    obtain ⟨hbefore, hnone⟩ := filter_carries_of_absent fun e he => hparted.id_ne (List.mem_append_left after he)
    obtain ⟨hafter, hnone'⟩ := filter_carries_of_absent fun e he => hparted.id_ne (List.mem_append_right before he)
    have hfc : carries a.id f = true := carries_eq_true_iff.2 hfid
    have hfilter : (before ++ f :: after).filter (!carries a.id ·) = before ++ after := by
      rw [List.filter_append, List.filter_cons_of_neg (by simp [hfc]), hbefore, hafter]
    have hcount : (before ++ f :: after).countP (carries a.id) = 1 := by
      rw [List.countP_append, List.countP_cons_of_pos hfc, hnone, hnone']
    rw [hfilter, hcount]
    constructor
    · rintro ⟨rfl, rfl⟩
      exact .inl ⟨before.length, f, by simp, hfid, rfl, by simp [List.eraseIdx_append_of_length_le]⟩
    · rintro (⟨i, e, hi, he, rfl, rfl⟩ | ⟨habsent, -, -⟩)
      · rw [hparted.eq_length_of_getElem? hi he]
        simp [List.eraseIdx_append_of_length_le]
      · exact absurd hfid (habsent f hf)
  · have habsent : ∀ e ∈ l, e.id ≠ some a.id := fun e he hid' => hid ⟨e, he, hid'⟩
    obtain ⟨hfilter, hcount⟩ := filter_carries_of_absent habsent
    rw [hfilter, hcount]
    constructor
    · rintro ⟨rfl, rfl⟩
      exact .inr ⟨habsent, rfl, rfl⟩
    · rintro (⟨i, e, hi, he, -, -⟩ | ⟨-, rfl, rfl⟩)
      · exact absurd he (habsent e (List.mem_of_getElem? hi))
      · exact ⟨rfl, rfl⟩

/-- What is left without the entries of an id is told by what it holds and how many are gone. -/
theorem eq_filter_carries_iff : k = l.filter (!carries id ·) ∧ c = l.countP (carries id) ↔
    c = l.countP (carries id) ∧ k.length + c = l.length ∧ k.Sublist l ∧ ∀ e ∈ k, e.id ≠ some id := by
  have hlength : (l.filter (!carries id ·)).length + l.countP (carries id) = l.length := by
    rw [← List.countP_eq_length_filter, Nat.add_comm, List.length_eq_countP_add_countP (carries id)]
    simp
  constructor
  · rintro ⟨rfl, rfl⟩
    exact ⟨rfl, hlength, List.filter_sublist, fun e he => by simpa [carries] using (List.mem_filter.1 he).2⟩
  · rintro ⟨rfl, hk, hsub, habsent⟩
    have hsub' : k.Sublist (l.filter (!carries id ·)) := by
      rw [← (filter_carries_of_absent habsent).1]
      exact hsub.filter _
    exact ⟨hsub'.eq_of_length (by omega), rfl⟩

/-- **A merge tells what it did.** Of an ordered list: an entry is inserted just when the assignment is enabled and its
id is new, at the one place that keeps the list ordered; an entry is replaced just when it has the id, and nothing else
changes; one entry is removed or none, as the list has the id. Of any list: a tombstone removes all entries with its id,
tells how many, and leaves the others in their order. -/
theorem merge_tells (l : VariableList) (a : Assignment) :
    (l.isWellOrdered = true →
      (∀ k i, l.merge a = (k, .inserted i) ↔ a.disabled = false ∧ (∀ e ∈ l, e.id ≠ some a.id) ∧ i ≤ l.length ∧
        k = l.insertIdx i a.placed ∧ k.isWellOrdered = true) ∧
      (∀ k i, l.merge a = (k, .replaced i) ↔
        a.disabled = false ∧ (∃ e, l[i]? = some e ∧ e.id = some a.id) ∧ k = l.set i a.placed) ∧
      (∀ k c, l.merge a = (k, .removed c) ↔
        a.disabled = true ∧ ((∃ i e, l[i]? = some e ∧ e.id = some a.id ∧ c = 1 ∧ k = l.eraseIdx i) ∨
          (∀ e ∈ l, e.id ≠ some a.id) ∧ c = 0 ∧ k = l))) ∧
    ∀ k c, l.merge a = (k, .removed c) ↔
      a.disabled = true ∧ c = l.countP (fun e => e.id = some a.id) ∧ k.length + c = l.length ∧ k.Sublist l ∧
        ∀ e ∈ k, e.id ≠ some a.id := by
  refine ⟨fun hl => ?_, fun k c => ?_⟩
  · rw [isWellOrdered_iff] at hl
    refine ⟨fun k i => ?_, fun k i => merge_eq_replaced_iff hl, fun k c => merge_eq_removed_iff_of_wellOrdered hl⟩
    rw [merge_eq_inserted_iff hl, isWellOrdered_iff]
  · have hcarries : l.countP (fun e => e.id = some a.id) = l.countP (carries a.id) :=
      List.countP_congr fun e _ => by simp [carries]
    rw [merge_eq_removed_iff, eq_filter_carries_iff, hcarries]

/-- A new zone between the port and the host. -/
def zoneEdit : Assignment := { id := .root 2, entry := ⟨"zone", none, .reference "web"⟩ }

theorem zoneEdit_tells : servers.isWellOrdered = true ∧
    servers.merge zoneEdit = (servers.insertIdx 2 zoneEdit.placed, .inserted 2) ∧
    servers.merge { zoneEdit with id := .root 3 } =
      (servers.set 2 { zoneEdit with id := .root 3 }.placed, .replaced 2) ∧
    servers.merge { zoneEdit with id := .root 1, disabled := true } = (servers.eraseIdx 1, .removed 1) := by
  have hordered : servers.isWellOrdered = true := by decide
  refine ⟨hordered, ((merge_tells _ _).1 hordered).1 _ _ |>.2 ⟨rfl, by decide, by decide, rfl, by decide⟩,
    ((merge_tells _ _).1 hordered).2.1 _ _ |>.2 ⟨rfl, ⟨⟨"host", some (.root 3), .reference "web"⟩, rfl, rfl⟩, rfl⟩,
    ((merge_tells _ _).1 hordered).2.2 _ _ |>.2
      ⟨rfl, .inl ⟨1, ⟨"port", some (.root 1), .reference "web"⟩, rfl, rfl, rfl, rfl⟩⟩⟩

end VariableList
end DeployInventory
