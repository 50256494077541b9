import DeployInventory.Proofs.Replay
import DeployInventory.Proofs.VariableList.Merge
/-!
# Proofs.VariableList.Log — what a log of assignments leaves of a list

A log leaves the entries without an id as they are (`assignAll_append`). Under an id it leaves what its last assignment
with the id says, and the entry that was there when it has none (`entryOf?_assignAll`), so of a log without repeated ids
the order does not count, and a second run changes nothing (`assignAll_lastWriteWins`).
-/
namespace DeployInventory

/-- What an assignment leaves under its id. -/
def Assignment.result? (a : Assignment) : Option VariableEntry := if a.disabled then none else some a.placed

theorem Assignment.result?_eq_some_iff {a : Assignment} {e : VariableEntry} :
    a.result? = some e ↔ a.disabled = false ∧ e = a.placed := by
  unfold result?
  cases a.disabled with
  | true => simp
  | false => simp only [Bool.false_eq_true, if_false, Option.some.injEq, true_and, eq_comm]

namespace VariableList

/-- The entries without an id that a list starts with. -/
def unassigned (l : VariableList) : VariableList := l.takeWhile (·.id.isNone)

/-- The entries of a list from the first one with an id on. -/
def assigned (l : VariableList) : VariableList := l.dropWhile (·.id.isNone)

variable {l u d : VariableList} {a : Assignment} {log log' : List Assignment} {e : VariableEntry} {i : AssignmentId}

/-- Looking at neighbours tells whether all pairs are in order. -/
theorem isWellOrdered_iff : ∀ {l : VariableList}, l.isWellOrdered = true ↔ WellOrdered l
  | [] => by simp [isWellOrdered, WellOrdered]
  | [e] => by simp [isWellOrdered, WellOrdered]
  | e :: f :: rest => by
    rw [isWellOrdered, Bool.and_eq_true, isWellOrdered_iff]
    unfold WellOrdered
    rw [List.pairwise_cons (a := e)]
    constructor
    · rintro ⟨hef, hrest⟩
      refine ⟨fun g hg => ?_, hrest⟩
      rcases List.mem_cons.1 hg with rfl | hg
      · exact hef
      · exact inOrder_trans hef ((List.pairwise_cons.1 hrest).1 g hg)
    · rintro ⟨he, hrest⟩
      exact ⟨he f List.mem_cons_self, hrest⟩

theorem unassigned_append_assigned (l : VariableList) : l.unassigned ++ l.assigned = l :=
  List.takeWhile_append_dropWhile

theorem id_of_mem_unassigned (he : e ∈ l.unassigned) : e.id = none := by
  simpa using List.all_eq_true.1 List.all_takeWhile e he

/-- The entries with an id stand from the first one on. -/
theorem mem_assigned_iff : e ∈ l.assigned ∧ e.id = some i ↔ e ∈ l ∧ e.id = some i := by
  refine and_congr_left fun hi => ?_
  conv_rhs => rw [← unassigned_append_assigned l, List.mem_append]
  refine (or_iff_right fun he => ?_).symm
  rw [id_of_mem_unassigned he] at hi
  cases hi

/-- Behind an entry with an id all entries have one. -/
theorem dated_of_inOrder (hd : WellOrdered (e :: l)) (he : e.id = some i) : Dated (e :: l) := by
  refine ⟨hd, fun f hf => ?_⟩
  rcases List.mem_cons.1 hf with rfl | hf
  · exact ⟨i, he⟩
  · have hef := (List.pairwise_cons.1 hd).1 f hf
    unfold inOrder at hef
    rw [he] at hef
    cases hfi : f.id with
    | none => simp [hfi] at hef
    | some j => exact ⟨j, rfl⟩

theorem dated_assigned : ∀ {l : VariableList}, WellOrdered l → Dated l.assigned
  | [], _ => Dated.nil
  | e :: l, hl => by
    unfold assigned
    cases he : e.id with
    | none =>
      rw [List.dropWhile_cons_of_pos (by simp [he])]
      exact dated_assigned (List.pairwise_cons.1 hl).2
    | some i =>
      rw [List.dropWhile_cons_of_neg (by simp [he])]
      exact dated_of_inOrder hl he

theorem wellOrdered_append (hu : ∀ e ∈ u, e.id = none) (hd : Dated d) : WellOrdered (u ++ d) := by
  have hfirst : ∀ e ∈ u, ∀ f, inOrder e f = true := fun e he f => by simp [inOrder, hu e he]
  exact List.pairwise_append.2
    ⟨List.pairwise_of_forall_mem_list fun e he f _ => hfirst e he f, hd.ordered, fun e he f _ => hfirst e he f⟩

/-- **An assignment leaves the entries without an id alone.** -/
theorem assign_append (hu : ∀ e ∈ u, e.id = none) (hd : Dated d) (a : Assignment) :
    assign (u ++ d) a = u ++ assign d a := by
  cases ha : a.disabled with
  | true =>
    rw [assign_of_disabled ha, assign_of_disabled ha, List.filter_append,
      List.filter_eq_self.2 fun e he => by simp [carries, hu e he]]
  | false =>
    have hbefore : u.filter (precedes a.id) = u := List.filter_eq_self.2 fun e he => by simp [precedes, hu e he]
    have hbehind : u.filter (follows a.id) = [] := List.filter_eq_nil_iff.2 fun e he => by simp [follows, hu e he]
    rw [assign_of_enabled (wellOrdered_append hu hd) ha, assign_of_enabled hd.ordered ha, List.filter_append,
      List.filter_append, hbefore, hbehind, List.nil_append, List.append_assoc]

theorem Dated.assignAll : ∀ (log : List Assignment) {d : VariableList}, Dated d → Dated (d.assignAll log)
  | [], _, hd => hd
  | a :: log, _, hd => Dated.assignAll log (hd.assign a)

/-- **A log leaves the entries without an id alone.** -/
theorem assignAll_append (hu : ∀ e ∈ u, e.id = none) : ∀ {log : List Assignment} {d : VariableList}, Dated d →
    assignAll (u ++ d) log = u ++ assignAll d log
  | [], _, _ => rfl
  | a :: log, d, hd => by
    show assignAll (assign (u ++ d) a) log = u ++ assignAll (d.assign a) log
    rw [assign_append hu hd, assignAll_append hu (hd.assign a)]

/-- **The last assignment with an id decides what the id has.** -/
theorem entryOf?_assignAll (i : AssignmentId) : ∀ {log : List Assignment} {l : VariableList}, WellOrdered l →
    entryOf? i (l.assignAll log) = (lastWith? Assignment.id i log).elim (entryOf? i l) Assignment.result?
  | [], _, _ => rfl
  | a :: log, l, hl => by
    show entryOf? i (assignAll (l.assign a) log) = _
    rw [entryOf?_assignAll i (wellOrdered_assign hl a), ← List.singleton_append, lastWith?_append, entryOf?_assign hl]
    cases lastWith? Assignment.id i log with
    | some b => rfl
    | none =>
      by_cases hi : a.id = i
      · simp [hi, lastWith?, Assignment.result?]
      · simp [hi, lastWith?]

/-- Where no two assignments have one id, the last one with an id does not depend on the order. -/
theorem lastWith?_eq_of_perm (hperm : log.Perm log') (hids : (log.map (·.id)).Nodup) (i : AssignmentId) :
    lastWith? Assignment.id i log' = lastWith? Assignment.id i log := by
  unfold lastWith?
  have hp := hperm.filter (·.id == i)
  have hnd : ((log.filter (·.id == i)).map (·.id)).Nodup := hids.sublist (List.filter_sublist.map _)
  have hid : ∀ a ∈ log.filter (·.id == i), a.id = i := fun a ha => by simpa using (List.mem_filter.1 ha).2
  cases hlog : log.filter (·.id == i) with
  | nil =>
    rw [hlog] at hp
    rw [hp.symm.eq_nil]
  | cons a rest =>
    cases rest with
    | nil =>
      rw [hlog] at hp
      rw [List.perm_singleton.1 hp.symm]
    | cons b rest =>
      have hab : a.id = b.id := (hid a (by simp [hlog])).trans (hid b (by simp [hlog])).symm
      simp [hlog, hab] at hnd

theorem Dated.exists_ids : ∀ {d : VariableList}, Dated d →
    ∃ ids : List AssignmentId, d.map (·.id) = ids.map some ∧ ids.Pairwise (· < ·)
  | [], _ => ⟨[], rfl, .nil⟩
  | e :: d, hd => by
    obtain ⟨he, hrest⟩ := List.pairwise_cons.1 hd.ascends
    obtain ⟨i, hi⟩ := hd.dated e List.mem_cons_self
    obtain ⟨ids, hids, hasc⟩ := Dated.exists_ids
      ⟨(List.pairwise_cons.1 hd.ordered).2, fun f hf => hd.dated f (List.mem_cons_of_mem _ hf)⟩
    refine ⟨i :: ids, by simp [hi, hids], List.pairwise_cons.2 ⟨fun j hj => ?_, hasc⟩⟩
    have hj' : some j ∈ d.map (·.id) := hids ▸ List.mem_map_of_mem hj
    obtain ⟨f, hf, hfj⟩ := List.mem_map.1 hj'
    obtain ⟨i', j', hi', hj'', hlt⟩ := he f hf
    rw [hi, Option.some.injEq] at hi'
    rw [hfj, Option.some.injEq] at hj''
    rwa [hi', hj'']

/-- What the entries of a list with ids are after a log. -/
theorem Dated.mem_assignAll (hd : Dated d) (log : List Assignment) (i : AssignmentId) (e : VariableEntry) :
    e ∈ d.assignAll log ∧ e.id = some i ↔
      match lastWith? Assignment.id i log with
      | some a => a.disabled = false ∧ e = a.placed
      | none => e ∈ d ∧ e.id = some i := by
  rw [← entryOf?_eq_some_iff (hd.assignAll log).ordered, entryOf?_assignAll i hd.ordered]
  cases lastWith? Assignment.id i log with
  | none => exact entryOf?_eq_some_iff hd.ordered
  | some a => exact Assignment.result?_eq_some_iff

theorem Dated.assignAll_assignAll (hd : Dated d) (log : List Assignment) :
    (d.assignAll log).assignAll log = d.assignAll log := by
  have hfirst := hd.assignAll log
  refine (hfirst.assignAll log).ext hfirst fun i => ?_
  rw [entryOf?_assignAll i hfirst.ordered, entryOf?_assignAll i hd.ordered]
  cases lastWith? Assignment.id i log <;> rfl

theorem Dated.assignAll_eq_of_perm (hd : Dated d) (hperm : log.Perm log') (hids : (log.map (·.id)).Nodup) :
    d.assignAll log' = d.assignAll log := by
  refine (hd.assignAll log').ext (hd.assignAll log) fun i => ?_
  rw [entryOf?_assignAll i hd.ordered, entryOf?_assignAll i hd.ordered, lastWith?_eq_of_perm hperm hids]

/-- **Last write wins.** A log leaves a list with two regions one whose first region is unchanged and whose second
ascends by id; under an id it has what the last assignment with the id says, and what it had when there is none. So the
list is again one with two regions, the order of a log without repeated ids does not count, and a log that is merged
again changes nothing. -/
theorem assignAll_lastWriteWins (hl : l.isWellOrdered = true) (log : List Assignment) :
    (∃ (ids : List AssignmentId) (rest : VariableList), l.assignAll log = l.unassigned ++ rest ∧
      rest.map (·.id) = ids.map some ∧ ids.Pairwise (· < ·) ∧
      ∀ i e, e ∈ rest ∧ e.id = some i ↔
        match lastWith? Assignment.id i log with
        | some a => a.disabled = false ∧ e = a.placed
        | none => e ∈ l ∧ e.id = some i) ∧
    (l.assignAll log).isWellOrdered = true ∧
    (∀ log', log.Perm log' → (log.map (·.id)).Nodup → l.assignAll log' = l.assignAll log) ∧
    (l.assignAll log).assignAll log = l.assignAll log := by
  have hu : ∀ e ∈ l.unassigned, e.id = none := fun e => id_of_mem_unassigned
  have hd : Dated l.assigned := dated_assigned (isWellOrdered_iff.1 hl)
  have hall : ∀ log, l.assignAll log = l.unassigned ++ l.assigned.assignAll log := fun log => by
    rw [← assignAll_append hu hd, unassigned_append_assigned]
  refine ⟨?_, ?_, fun log' hperm hids => ?_, ?_⟩
  · obtain ⟨ids, hids, hasc⟩ := (hd.assignAll log).exists_ids
    refine ⟨ids, _, hall log, hids, hasc, fun i e => ?_⟩
    rw [hd.mem_assignAll, mem_assigned_iff]
  · rw [hall, isWellOrdered_iff]
    exact wellOrdered_append hu (hd.assignAll log)
  · rw [hall, hall, hd.assignAll_eq_of_perm hperm hids]
  · rw [hall, assignAll_append hu (hd.assignAll log), hd.assignAll_assignAll]

/-- A list with entries of both regions. -/
def servers : VariableList :=
  [⟨"region", none, .reference "default"⟩, ⟨"port", some (.root 1), .reference "web"⟩,
    ⟨"host", some (.root 3), .reference "web"⟩]

/-- A log with two edits of one id and an erasure. -/
def serverEdits : List Assignment :=
  [{ id := .root 2, entry := ⟨"zone", none, .reference "web"⟩ },
    { id := .root 3, entry := ⟨"host", none, .reference "web"⟩, disabled := true },
    { id := .root 2, entry := ⟨"zone", some (.root 7), .reference "jobs"⟩ }]

theorem serverEdits_lastWriteWins : servers.isWellOrdered = true ∧
    servers.assignAll serverEdits =
      [⟨"region", none, .reference "default"⟩, ⟨"port", some (.root 1), .reference "web"⟩,
        ⟨"zone", some (.root 2), .reference "jobs"⟩] ∧
    (servers.assignAll serverEdits).assignAll serverEdits = servers.assignAll serverEdits := by
  have hordered : servers.isWellOrdered = true := by decide
  obtain ⟨-, -, -, hagain⟩ := assignAll_lastWriteWins hordered serverEdits
  exact ⟨hordered, by cbv, hagain⟩

end VariableList
end DeployInventory
