import DeployInventory.Proofs.Document.Statements
import DeployInventory.Proofs.VariableList.Arrival
/-!
# Proofs.Document.Numbering — the ids of a document's assignments

The assignments of a document have consecutive numbers from one on (`ids_toRecords`), below the number of the document
where it has one. As long as the numbers fit 64 bits their ids ascend (`ascending_toRecords`), and all ids of a document
with a smaller number are smaller (`assignmentId_lt_of_file`). The records of an owner make the edits that its
statements do (`map_owned_toRecords`).
-/
namespace DeployInventory

namespace Document

variable {file : Option UInt64} {f g : UInt64} {i j : Nat}

theorem ofNat_lt_ofNat (hij : i < j) (hj : j < twoTo 64) : UInt64.ofNat i < UInt64.ofNat j := by
  have hbound : j < 2 ^ 64 := hj
  rw [UInt64.lt_iff_toNat_lt, UInt64.toNat_ofNat_of_lt' hbound, UInt64.toNat_ofNat_of_lt' (Nat.lt_trans hij hbound)]
  exact hij

/-- **A larger number gives a larger id.** -/
theorem assignmentId_lt (hij : i < j) (hj : j < twoTo 64) : assignmentId file i < assignmentId file j := by
  have hlt := ofNat_lt_ofNat hij hj
  cases file with
  | none =>
    show AssignmentId.compareComponents [UInt64.ofNat i] [UInt64.ofNat j] = .lt
    rw [AssignmentId.compareComponents, if_pos hlt]
  | some f =>
    show AssignmentId.compareComponents [f, UInt64.ofNat i] [f, UInt64.ofNat j] = .lt
    rw [AssignmentId.compareComponents, if_neg (UInt64.lt_irrefl f), if_neg (UInt64.lt_irrefl f),
      AssignmentId.compareComponents, if_pos hlt]

/-- **The ids of a document come before those of a document with a larger number.** -/
theorem assignmentId_lt_of_file (hfg : f < g) : assignmentId (some f) i < assignmentId (some g) j := by
  show AssignmentId.compareComponents [f, UInt64.ofNat i] [g, UInt64.ofNat j] = .lt
  rw [AssignmentId.compareComponents, if_pos hfg]

end Document

namespace Owner

variable {o : Owner} {id : AssignmentId} {e : Option String} {name : String} {content : Variable}

theorem assignment_id : (o.assignment id e name content).id = id := by cases o <;> rfl

theorem assignment_disabled : (o.assignment id e name content).disabled = false := by cases o <;> rfl

theorem assignment_entry : (o.assignment id e name content).entry = ⟨name, none, content⟩ := by cases o <;> rfl

theorem assignment_owner : (o.assignment id e name content).owner = o := by cases o <;> rfl

theorem assignment_environment (ho : o.isScoped = true) : (o.assignment id e name content).environment = e := by
  cases o with
  | globals | environment => cases ho
  | project | playbook | play => rfl

theorem assignment_place : (o.assignment id e name content).place = o.place e := by cases o <;> rfl

end Owner

namespace Statement

variable {number : Nat → AssignmentId} {next : Nat} {l : List Statement} {a : Assignment} {o : Owner}
  {S : List OwnerSection}

theorem assignments_declare {r : Record} (hr : r.assignment? = none) :
    assignments (toRecords number next (.declare r :: l)) = assignments (toRecords number next l) :=
  List.filterMap_cons_none hr

theorem assignments_assign {e : Option String} {name : String} {content : Variable} :
    assignments (toRecords number next (.assign o e name content :: l)) =
      o.assignment (number next) e name content :: assignments (toRecords number (next + 1) l) :=
  rfl

/-- **An assignment of a document says what one of its statements says**, under one of its numbers. -/
theorem exists_of_mem_assignments (hplain : ∀ r, .declare r ∈ l → r.assignment? = none)
    (ha : a ∈ assignments (toRecords number next l)) :
    ∃ i o e name content, .assign o e name content ∈ l ∧ a = o.assignment (number i) e name content := by
  induction l generalizing next with
  | nil => cases ha
  | cons s l ih =>
    have hrest : ∀ {next}, a ∈ assignments (toRecords number next l) → ∃ i o e name content,
        .assign o e name content ∈ s :: l ∧ a = o.assignment (number i) e name content := fun ha => by
      obtain ⟨i, o, e, name, content, hmem, ha⟩ := ih (fun r hr => hplain r (List.mem_cons_of_mem _ hr)) ha
      exact ⟨i, o, e, name, content, List.mem_cons_of_mem _ hmem, ha⟩
    cases s with
    | declare r =>
      rw [assignments_declare (hplain r List.mem_cons_self)] at ha
      exact hrest ha
    | assign o e name content =>
      rw [assignments_assign] at ha
      rcases List.mem_cons.1 ha with rfl | ha
      · exact ⟨next, o, e, name, content, List.mem_cons_self, rfl⟩
      · exact hrest ha

theorem length_assignments_le (hplain : ∀ r, .declare r ∈ l → r.assignment? = none) :
    (assignments (toRecords number next l)).length ≤ l.length := by
  induction l generalizing next with
  | nil => exact Nat.le_refl 0
  | cons s l ih =>
    have hrest : ∀ next, (assignments (toRecords number next l)).length ≤ l.length := fun _ =>
      ih fun r hr => hplain r (List.mem_cons_of_mem _ hr)
    cases s with
    | declare r =>
      rw [assignments_declare (hplain r List.mem_cons_self)]
      exact Nat.le_succ_of_le (hrest next)
    | assign o e name content => exact Nat.succ_le_succ (hrest (next + 1))

/-- **The numbers are consecutive.** -/
theorem ids_toRecords (hplain : ∀ r, .declare r ∈ l → r.assignment? = none) :
    (assignments (toRecords number next l)).map (·.id) =
      (List.range' next (assignments (toRecords number next l)).length).map number := by
  induction l generalizing next with
  | nil => rfl
  | cons s l ih =>
    have hrest := fun next => @ih next fun r hr => hplain r (List.mem_cons_of_mem _ hr)
    cases s with
    | declare r =>
      rw [assignments_declare (hplain r List.mem_cons_self)]
      exact hrest next
    | assign o e name content =>
      rw [assignments_assign, List.map_cons, hrest, Owner.assignment_id, List.length_cons, List.range'_succ,
        List.map_cons]

/-- **The assignments of a document ascend** while their numbers fit 64 bits. -/
theorem ascending_toRecords {file : Option UInt64} (h : Tells S l)
    (hcount : (assignments (toRecords (Document.assignmentId file) 1 l)).length < twoTo 64) :
    Ascending (assignments (toRecords (Document.assignmentId file) 1 l)) := by
  have hplain := h.assignment?_eq_none
  refine ⟨List.pairwise_map.1 ?_, fun a ha => ?_⟩
  · rw [ids_toRecords hplain, List.pairwise_map]
    refine (List.pairwise_lt_range' 1).imp_of_mem fun hi hj hij => Document.assignmentId_lt hij ?_
    have hle := (List.mem_range'_1.1 hj).2
    omega
  · obtain ⟨i, o, e, name, content, -, rfl⟩ := exists_of_mem_assignments hplain ha
    exact Owner.assignment_disabled

/-- **The edits of an owner, one for each of its assignments.** -/
theorem map_owned_toRecords {α : Type} {f : Assignment → α} {g : Edit → α}
    (hfg : ∀ id e name content, f (o.assignment id e name content) = g (e, name, content))
    (hplain : ∀ r, .declare r ∈ l → r.assignment? = none) :
    (owned o (toRecords number next l)).map f = (edits o l).map g := by
  rw [owned_eq_filter]
  induction l generalizing next with
  | nil => rfl
  | cons s l ih =>
    have hrest := fun next => @ih next fun r hr => hplain r (List.mem_cons_of_mem _ hr)
    cases s with
    | declare r =>
      rw [assignments_declare (hplain r List.mem_cons_self), hrest]
      rfl
    | assign o' e name content =>
      rw [assignments_assign]
      by_cases ho : o' = o
      · subst ho
        have hedit : editOf? o' (.assign o' e name content) = some (e, name, content) := if_pos rfl
        rw [List.filter_cons_of_pos (by simp [Owner.assignment_owner]), List.map_cons, hrest, hfg, edits, edits,
          List.filterMap_cons_some hedit, List.map_cons]
      · have hedit : editOf? o (.assign o' e name content) = none := if_neg ho
        rw [List.filter_cons_of_neg (by simp [Owner.assignment_owner, ho]), hrest, edits, edits,
          List.filterMap_cons_none hedit]

end Statement
end DeployInventory
