import DeployInventory.Proofs.Layers.Lookup
import DeployInventory.Proofs.VariableList.Log
/-!
# Proofs.VariableList.Standing — the assignments of a log that a layer goes by

An assignment stands when it is the last one of its log with its id and is enabled. The list that a log makes has the
entries of the assignments that stand, no others (`mem_assignAll_nil`), so two logs with the same last assignments make
the same list. Of the standing assignments with a name the one with the greatest id defines it, whenever it arrived
(`find?_assignAll_greatest`).
-/
namespace DeployInventory

open VariableList (Dated Newest Defines Ascends assignAll)

/-- **Whether an assignment stands at the end of a log**: none with its id comes after it, and it is enabled. -/
structure Assignment.Stands (log : List Assignment) (a : Assignment) : Prop where
  last : lastWith? Assignment.id a.id log = some a
  enabled : a.disabled = false

/-- **The standing assignment of a name with the greatest id.** -/
structure Assignment.Greatest (log : List Assignment) (name : String) (a : Assignment) : Prop where
  stands : a.Stands log
  named : a.entry.name = name
  greatest : ∀ b : Assignment, b.Stands log → b.entry.name = name → b.id = a.id ∨ b.id < a.id

variable {log log' : List Assignment} {a b : Assignment} {e : VariableEntry} {name : String}

theorem Assignment.Stands.unique (ha : a.Stands log) (hb : b.Stands log) (hid : a.id = b.id) : a = b := by
  have hlast := ha.last
  rw [hid, hb.last, Option.some.injEq] at hlast
  exact hlast.symm

namespace VariableList

theorem dated_assignAll_nil (log : List Assignment) : Dated (assignAll [] log) := Dated.nil.assignAll log

/-- **A log makes a list of the entries of those that stand.** -/
theorem mem_assignAll_nil : e ∈ assignAll [] log ↔ ∃ a : Assignment, a.Stands log ∧ e = a.placed := by
  constructor
  · intro he
    obtain ⟨i, hi⟩ := (dated_assignAll_nil log).dated e he
    have hlast := (Dated.nil.mem_assignAll log i e).1 ⟨he, hi⟩
    cases ha : lastWith? Assignment.id i log with
    | none => simp [ha] at hlast
    | some a =>
      rw [ha] at hlast
      obtain ⟨henabled, rfl⟩ := hlast
      obtain rfl : a.id = i := Option.some.inj hi
      exact ⟨a, ⟨ha, henabled⟩, rfl⟩
  · rintro ⟨a, ha, rfl⟩
    have hmem := Dated.nil.mem_assignAll log a.id a.placed
    rw [ha.last] at hmem
    exact (hmem.2 ⟨ha.enabled, rfl⟩).1

theorem defines_assignAll_nil_iff :
    Defines (assignAll [] log) name ↔ ∃ a : Assignment, a.Stands log ∧ a.entry.name = name := by
  constructor
  · rintro ⟨e, he, hname⟩
    obtain ⟨a, ha, rfl⟩ := mem_assignAll_nil.1 he
    exact ⟨a, ha, hname⟩
  · rintro ⟨a, ha, hname⟩
    exact ⟨a.placed, mem_assignAll_nil.2 ⟨a, ha, rfl⟩, hname⟩

/-- The entries of a log's list ascend as the ids of the assignments do that stand. -/
theorem newest_assignAll_nil_iff :
    Newest (assignAll [] log) name e ↔ ∃ a : Assignment, a.Greatest log name ∧ e = a.placed := by
  constructor
  · intro he
    obtain ⟨a, ha, rfl⟩ := mem_assignAll_nil.1 he.mem
    refine ⟨a, ⟨ha, he.named, fun b hb hname => ?_⟩, rfl⟩
    rcases he.newest b.placed (mem_assignAll_nil.2 ⟨b, hb, rfl⟩) hname with hsame | ⟨i, j, hi, hj, hlt⟩
    · exact .inl (Option.some.inj (congrArg VariableEntry.id hsame))
    · obtain rfl : b.id = i := Option.some.inj hi
      obtain rfl : a.id = j := Option.some.inj hj
      exact .inr hlt
  · rintro ⟨a, ha, rfl⟩
    refine ⟨mem_assignAll_nil.2 ⟨a, ha.stands, rfl⟩, ha.named, fun f hf hname => ?_⟩
    obtain ⟨b, hb, rfl⟩ := mem_assignAll_nil.1 hf
    rcases ha.greatest b hb hname with hid | hlt
    · exact .inl (by rw [hb.unique ha.stands hid])
    · exact .inr ⟨b.id, a.id, rfl, rfl, hlt⟩

theorem assignAll_nil_congr (h : ∀ i, lastWith? Assignment.id i log' = lastWith? Assignment.id i log) :
    assignAll [] log' = assignAll [] log := by
  refine (dated_assignAll_nil log').ext (dated_assignAll_nil log) fun i => ?_
  rw [entryOf?_assignAll i Dated.nil.ordered, entryOf?_assignAll i Dated.nil.ordered, h]

end VariableList

/-- **Within a scope the greatest live id wins.** A layer with the list that a log makes gives a name the entry of the
standing assignment with the greatest id of those that carry the name, and nothing just where none that stands carries
it. So all that counts of a log is the last assignment with each id: logs that agree in those make the same list. -/
theorem Layer.find?_assignAll_greatest (log : List Assignment) (origin name : String) :
    (∀ e, Layer.find? ⟨origin, assignAll [] log⟩ name = some e ↔
      ∃ a : Assignment, a.Greatest log name ∧ e = a.placed) ∧
    (Layer.find? ⟨origin, assignAll [] log⟩ name = none ↔
      ∀ a : Assignment, a.Stands log → a.entry.name ≠ name) ∧
    ∀ log' : List Assignment, (∀ i, lastWith? Assignment.id i log' = lastWith? Assignment.id i log) →
      Layer.find? ⟨origin, assignAll [] log'⟩ name = Layer.find? ⟨origin, assignAll [] log⟩ name := by
  refine ⟨fun e => ?_, ?_, fun log' h => by rw [VariableList.assignAll_nil_congr h]⟩
  · rw [Layer.find?_eq_some_iff (VariableList.dated_assignAll_nil log), VariableList.newest_assignAll_nil_iff]
  · rw [Layer.find?_eq_none_iff, VariableList.defines_assignAll_nil_iff]
    simp only [not_exists, not_and, ne_eq]

/-- The edits of a port under three ids: the greatest is renamed, another is erased and comes back before a smaller one
arrives. -/
def portEdits : List Assignment :=
  [{ id := .root 9, entry := ⟨"port", none, .reference "first"⟩ },
    { id := .root 4, entry := ⟨"port", none, .reference "web"⟩, disabled := true },
    { id := .root 9, entry := ⟨"host", none, .reference "first"⟩ },
    { id := .root 4, entry := ⟨"port", none, .reference "jobs"⟩ },
    { id := .root 2, entry := ⟨"port", none, .reference "late"⟩ }]

/-- The same edits without those that others follow under their ids, and in another order. -/
def lastPortEdits : List Assignment :=
  [{ id := .root 2, entry := ⟨"port", none, .reference "late"⟩ },
    { id := .root 4, entry := ⟨"port", none, .reference "jobs"⟩ },
    { id := .root 9, entry := ⟨"host", none, .reference "first"⟩ }]

theorem lastWith?_lastPortEdits (i : AssignmentId) :
    lastWith? Assignment.id i lastPortEdits = lastWith? Assignment.id i portEdits := by
  by_cases h2 : AssignmentId.root 2 = i
  · subst h2; rfl
  · by_cases h4 : AssignmentId.root 4 = i
    · subst h4; rfl
    · by_cases h9 : AssignmentId.root 9 = i
      · subst h9; rfl
      · simp [lastWith?, lastPortEdits, portEdits, h2, h4, h9]

theorem portEdits_greatest :
    Layer.find? ⟨"global", assignAll [] portEdits⟩ "port" = some ⟨"port", some (.root 4), .reference "jobs"⟩ ∧
    Assignment.Greatest portEdits "port" { id := .root 4, entry := ⟨"port", none, .reference "jobs"⟩ } ∧
    Layer.find? ⟨"global", assignAll [] portEdits⟩ "zone" = none ∧
    (∀ i, lastWith? Assignment.id i lastPortEdits = lastWith? Assignment.id i portEdits) ∧
    Layer.find? ⟨"global", assignAll [] lastPortEdits⟩ "port" =
      some ⟨"port", some (.root 4), .reference "jobs"⟩ := by
  have hport : Layer.find? ⟨"global", assignAll [] portEdits⟩ "port" =
      some ⟨"port", some (.root 4), .reference "jobs"⟩ := by cbv
  have hzone : Layer.find? ⟨"global", assignAll [] portEdits⟩ "zone" = none := by cbv
  obtain ⟨hfound, -, hsame⟩ := Layer.find?_assignAll_greatest portEdits "global" "port"
  obtain ⟨a, ha, hentry⟩ := (hfound _).1 hport
  have hid : a.id = .root 4 := (Option.some.inj (congrArg VariableEntry.id hentry)).symm
  have hlast : lastWith? Assignment.id (.root 4) portEdits =
      some { id := .root 4, entry := ⟨"port", none, .reference "jobs"⟩ } := rfl
  obtain rfl : a = { id := .root 4, entry := ⟨"port", none, .reference "jobs"⟩ } := by
    have := ha.stands.last
    rw [hid, hlast] at this
    exact (Option.some.inj this).symm
  exact ⟨hport, ha, hzone, lastWith?_lastPortEdits, (hsame _ lastWith?_lastPortEdits).trans hport⟩

end DeployInventory
