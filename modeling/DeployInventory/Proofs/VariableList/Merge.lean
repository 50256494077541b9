import DeployInventory.Proofs.AssignmentId.Order
import DeployInventory.VariableList
import Mathlib.Data.List.Sort
/-!
# Proofs.VariableList.Merge — what an assignment does to an ordered list

Merging an assignment into a list with its two regions keeps the entries before the id and those after it, and decides
alone what stands between them (`assign_of_enabled`, `assign_of_disabled`). A list whose entries all have ids is the
finite map from its ids (`Dated.ext`), and an assignment changes one place of the map (`entryOf?_assign`).
-/
namespace DeployInventory
namespace VariableList

/-- **A list with its two regions**, any two of its entries looked at. -/
def WellOrdered (l : VariableList) : Prop := l.Pairwise fun e f => inOrder e f = true

/-- Whether an entry stands before those with an id. -/
def precedes (id : AssignmentId) (e : VariableEntry) : Bool :=
  match e.id with
  | none => true
  | some i => decide (i < id)

/-- Whether an entry stands after those with an id. -/
def follows (id : AssignmentId) (e : VariableEntry) : Bool :=
  match e.id with
  | none => false
  | some i => decide (id < i)

theorem inOrder_eq_precedes {e f : VariableEntry} {id : AssignmentId} (hf : f.id = some id) :
    inOrder e f = precedes id e := by
  unfold inOrder precedes
  rw [hf]
  cases e.id <;> rfl

theorem inOrder_eq_follows {e f : VariableEntry} {id : AssignmentId} (he : e.id = some id) :
    inOrder e f = follows id f := by
  unfold inOrder follows
  rw [he]
  cases f.id <;> rfl

theorem inOrder_trans {e f g : VariableEntry} (hef : inOrder e f = true) (hfg : inOrder f g = true) :
    inOrder e g = true := by
  cases he : e.id with
  | none => simp [inOrder, he]
  | some i =>
    cases hf : f.id with
    | none => simp [inOrder, he, hf] at hef
    | some j =>
      cases hg : g.id with
      | none => simp [inOrder, hf, hg] at hfg
      | some k =>
        simp only [inOrder, he, hf, hg, decide_eq_true_eq] at hef hfg ⊢
        exact AssignmentId.lt_trans hef hfg

theorem follows_eq_false_of_precedes {e : VariableEntry} {id : AssignmentId} (h : precedes id e = true) :
    follows id e = false := by
  unfold precedes at h
  unfold follows
  cases he : e.id with
  | none => rfl
  | some i =>
    simp only [he, decide_eq_true_eq] at h
    simpa using AssignmentId.lt_asymm h

/-- An entry stands before the entries with an id, is one of them, or stands after them. -/
theorem precedes_or_follows_iff {e : VariableEntry} {id : AssignmentId} :
    precedes id e = true ∨ follows id e = true ↔ e.id ≠ some id := by
  unfold precedes follows
  cases he : e.id with
  | none => simp
  | some i =>
    simp only [decide_eq_true_eq, ne_eq, Option.some.injEq]
    constructor
    · rintro (h | h)
      · exact AssignmentId.ne_of_lt h
      · exact fun hi => AssignmentId.ne_of_lt h hi.symm
    · intro hne
      cases hc : compare i id with
      | lt => exact .inl hc
      | eq => exact absurd (AssignmentId.compare_eq_iff.1 hc) hne
      | gt => exact .inr (AssignmentId.compare_gt_iff.1 hc)

/-- **The place of an entry** in an ordered list read from its end: after the larger ids, in the room of its own, before
all else. -/
theorem place_eq {e : VariableEntry} {id : AssignmentId} (he : e.id = some id) : ∀ {rev : List VariableEntry},
    rev.Pairwise (fun f g => inOrder g f = true) →
    (place e id rev).1 = rev.filter (follows id) ++ e :: rev.filter (precedes id)
  | [], _ => rfl
  | f :: before, h => by
    obtain ⟨hf, hbefore⟩ := List.pairwise_cons.1 h
    -- the scan stops at an entry that is not larger: nothing before it is
    have hstop : (∀ g ∈ before, precedes id g = true) →
        before.filter (follows id) = [] ∧ before.filter (precedes id) = before := fun hall =>
      ⟨List.filter_eq_nil_iff.2 fun g hg => by simp [follows_eq_false_of_precedes (hall g hg)],
        List.filter_eq_self.2 hall⟩
    have hsmaller : precedes id f = true → ∀ g ∈ before, precedes id g = true := fun hp g hg => by
      rw [← inOrder_eq_precedes he] at hp ⊢
      exact inOrder_trans (hf g hg) hp
    unfold place
    cases hi : f.id with
    | none =>
      have hp : precedes id f = true := by simp [precedes, hi]
      obtain ⟨hnone, hall⟩ := hstop (hsmaller hp)
      simp [hp, follows_eq_false_of_precedes hp, hnone, hall]
    | some i =>
      cases hc : compare i id with
      | lt =>
        have hp : precedes id f = true := by
          simp only [precedes, hi, decide_eq_true_eq]
          exact hc
        obtain ⟨hnone, hall⟩ := hstop (hsmaller hp)
        simp [hp, follows_eq_false_of_precedes hp, hnone, hall, hc]
      | eq =>
        have hid : f.id = some id := by rw [hi, AssignmentId.compare_eq_iff.1 hc]
        have hp : ¬ (precedes id f = true ∨ follows id f = true) := by simp [precedes_or_follows_iff, hid]
        obtain ⟨hnone, hall⟩ := hstop fun g hg => by
          rw [← inOrder_eq_precedes hid]
          exact hf g hg
        rw [not_or] at hp
        simp [hp.1, hp.2, hnone, hall, hc]
      | gt =>
        have hfol : follows id f = true := by
          simp only [follows, hi, decide_eq_true_eq]
          exact AssignmentId.compare_gt_iff.1 hc
        have hp : ¬ precedes id f = true := fun hp => by simp [follows_eq_false_of_precedes hp] at hfol
        simp [hfol, hp, hc, place_eq he hbefore]

variable {l k : VariableList} {a : Assignment} {e : VariableEntry} {i : AssignmentId}

/-- **An enabled assignment** keeps what stands before its id and after it, and puts its entry between them. -/
theorem assign_of_enabled (hl : WellOrdered l) (ha : a.disabled = false) :
    l.assign a = l.filter (precedes a.id) ++ a.placed :: l.filter (follows a.id) := by
  have hp := place_eq (e := a.placed) rfl (List.pairwise_reverse.2 hl)
  unfold assign merge
  simp [ha, hp]

theorem assign_of_disabled (ha : a.disabled = true) : l.assign a = l.filter (!carries a.id ·) := by
  unfold assign merge
  rw [if_pos ha]

theorem wellOrdered_assign (hl : WellOrdered l) (a : Assignment) : WellOrdered (l.assign a) := by
  cases ha : a.disabled with
  | true =>
    rw [assign_of_disabled ha]
    exact hl.filter _
  | false =>
    have hbelow : ∀ e ∈ l.filter (precedes a.id), inOrder e a.placed = true := fun e he => by
      rw [inOrder_eq_precedes rfl]
      exact (List.mem_filter.1 he).2
    have habove : ∀ f ∈ l.filter (follows a.id), inOrder a.placed f = true := fun f hf => by
      rw [inOrder_eq_follows rfl]
      exact (List.mem_filter.1 hf).2
    rw [assign_of_enabled hl ha]
    refine List.pairwise_append.2 ⟨hl.filter _, List.pairwise_cons.2 ⟨habove, hl.filter _⟩, fun e he f hf => ?_⟩
    rcases List.mem_cons.1 hf with rfl | hf
    · exact hbelow e he
    · exact inOrder_trans (hbelow e he) (habove f hf)

theorem mem_assign (hl : WellOrdered l) :
    e ∈ l.assign a ↔ (a.disabled = false ∧ e = a.placed) ∨ (e ∈ l ∧ e.id ≠ some a.id) := by
  cases ha : a.disabled with
  | true =>
    rw [assign_of_disabled ha]
    simp [carries]
  | false =>
    rw [assign_of_enabled hl ha]
    simp only [List.mem_append, List.mem_cons, List.mem_filter, ← precedes_or_follows_iff]
    tauto

def entryOf? (i : AssignmentId) (l : VariableList) : Option VariableEntry := l.find? (carries i)

theorem not_inOrder_of_id_eq {f : VariableEntry} (he : e.id = some i) (hf : f.id = some i) : ¬ inOrder e f = true := by
  simp only [inOrder, he, hf, decide_eq_true_eq]
  exact AssignmentId.lt_irrefl i

theorem eq_of_id_eq {f : VariableEntry} : ∀ {l : VariableList}, WellOrdered l → e ∈ l → f ∈ l → e.id = some i →
    f.id = some i → e = f
  | [], _, he, _, _, _ => absurd he List.not_mem_nil
  | g :: l, hl, he, hf, hei, hfi => by
    obtain ⟨hg, hl⟩ := List.pairwise_cons.1 hl
    rcases List.mem_cons.1 he with rfl | he'
    · rcases List.mem_cons.1 hf with rfl | hf'
      · rfl
      · exact absurd (hg f hf') (not_inOrder_of_id_eq hei hfi)
    · rcases List.mem_cons.1 hf with rfl | hf'
      · exact absurd (hg e he') (not_inOrder_of_id_eq hfi hei)
      · exact eq_of_id_eq hl he' hf' hei hfi

theorem entryOf?_eq_some_iff (hl : WellOrdered l) : entryOf? i l = some e ↔ e ∈ l ∧ e.id = some i := by
  unfold entryOf?
  constructor
  · intro h
    exact ⟨List.mem_of_find?_eq_some h, by simpa [carries] using List.find?_some h⟩
  · rintro ⟨he, hi⟩
    cases hf : l.find? (carries i) with
    | none => simpa [carries, hi] using List.find?_eq_none.1 hf e he
    | some f =>
      have hfi : f.id = some i := by simpa [carries] using List.find?_some hf
      rw [eq_of_id_eq hl he (List.mem_of_find?_eq_some hf) hi hfi]

/-- **An assignment decides what its own id has and leaves all other ids alone.** -/
theorem entryOf?_assign (hl : WellOrdered l) (a : Assignment) (i : AssignmentId) :
    entryOf? i (l.assign a) = if a.id = i then (if a.disabled then none else some a.placed) else entryOf? i l := by
  apply Option.ext
  intro e
  rw [entryOf?_eq_some_iff (wellOrdered_assign hl a), mem_assign hl]
  by_cases hi : a.id = i
  · subst hi
    cases a.disabled with
    | true => simp
    | false =>
      simp only [true_and, if_true, Bool.false_eq_true, if_false, Option.some.injEq]
      constructor
      · rintro ⟨rfl | ⟨-, hne⟩, he⟩
        · rfl
        · exact absurd he hne
      · rintro rfl
        exact ⟨.inl rfl, rfl⟩
  · rw [if_neg hi, entryOf?_eq_some_iff hl]
    constructor
    · rintro ⟨⟨-, rfl⟩ | ⟨he, -⟩, hei⟩
      · exact absurd (Option.some.inj hei) hi
      · exact ⟨he, hei⟩
    · rintro ⟨he, hei⟩
      refine ⟨.inr ⟨he, fun hea => ?_⟩, hei⟩
      rw [hei] at hea
      exact hi (Option.some.inj hea).symm

/-- **An ordered list whose entries all have ids.** -/
structure Dated (l : VariableList) : Prop where
  ordered : WellOrdered l
  dated : ∀ e ∈ l, ∃ i, e.id = some i

theorem Dated.nil : Dated [] := ⟨.nil, by simp⟩

theorem Dated.assign (hl : Dated l) (a : Assignment) : Dated (l.assign a) := by
  refine ⟨wellOrdered_assign hl.ordered a, fun e he => ?_⟩
  rcases (mem_assign hl.ordered).1 he with ⟨-, rfl⟩ | ⟨he, -⟩
  · exact ⟨a.id, rfl⟩
  · exact hl.dated e he

/-- Whether two entries have ids of which the first is smaller. -/
def Ascends (e f : VariableEntry) : Prop := ∃ i j, e.id = some i ∧ f.id = some j ∧ i < j

instance : Std.Irrefl Ascends := ⟨by
  rintro e ⟨i, j, hi, hj, hlt⟩
  rw [hi, Option.some.injEq] at hj
  exact AssignmentId.ne_of_lt hlt hj⟩

instance : Std.Antisymm Ascends := ⟨by
  rintro e f ⟨i, j, hi, hj, hlt⟩ ⟨j', i', hj', hi', hlt'⟩
  rw [hi, Option.some.injEq] at hi'
  rw [hj, Option.some.injEq] at hj'
  subst hi' hj'
  exact absurd hlt' (AssignmentId.lt_asymm hlt)⟩

theorem Dated.ascends (hl : Dated l) : l.Pairwise Ascends := by
  refine hl.ordered.imp_of_mem fun {e f} he hf h => ?_
  obtain ⟨i, hi⟩ := hl.dated e he
  obtain ⟨j, hj⟩ := hl.dated f hf
  exact ⟨i, j, hi, hj, by simpa [inOrder, hi, hj] using h⟩

/-- **Lists that have the same entries under all ids are equal.** -/
theorem Dated.ext (hl : Dated l) (hk : Dated k) (h : ∀ i, entryOf? i l = entryOf? i k) : l = k := by
  refine hl.ascends.eq_of_mem_iff hk.ascends fun e => ?_
  have hmem : ∀ {m : VariableList}, Dated m → (e ∈ m ↔ ∃ i, entryOf? i m = some e) := fun hm => by
    constructor
    · intro he
      obtain ⟨i, hi⟩ := hm.dated e he
      exact ⟨i, (entryOf?_eq_some_iff hm.ordered).2 ⟨he, hi⟩⟩
    · rintro ⟨i, hi⟩
      exact ((entryOf?_eq_some_iff hm.ordered).1 hi).1
  rw [hmem hl, hmem hk]
  simp only [h]

end VariableList
end DeployInventory
