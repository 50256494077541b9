import DeployInventory.Layers
import DeployInventory.Proofs.Lineage.Linearization
import DeployInventory.Proofs.NameMap
import DeployInventory.Proofs.VariableList.Merge
/-!
# Proofs.Layers.Lookup — which definition of a name a stack of layers gives

Within a list the last entry with a name defines it (`Layer.find?_eq_some_iff_last`): the newest one, where the ids
ascend (`Layer.find?_eq_some_iff`). A stack is searched from its top, and so is one that the members of a list put
together (`find?_flatMap`). Where these members are a lineage, what is found comes from one that no later definer
inherits from (`exists_mem_of_find?_lineage`). The view of a stack answers every look-up as the stack does
(`find?_materialize`): both give the definition that tops the stack (`materialize_agrees`).
-/
namespace DeployInventory

namespace VariableList

/-- Whether a list has an entry with a name. -/
def Defines (l : VariableList) (name : String) : Prop := ∃ e ∈ l, e.name = name

/-- **The last entry with a name.** -/
def Last (l : VariableList) (name : String) (e : VariableEntry) : Prop :=
  ∃ before after, l = before ++ e :: after ∧ e.name = name ∧ ∀ f ∈ after, f.name ≠ name

/-- **The newest entry with a name**: every other entry with the name has a smaller id. -/
structure Newest (l : VariableList) (name : String) (e : VariableEntry) : Prop where
  mem : e ∈ l
  named : e.name = name
  newest : ∀ f ∈ l, f.name = name → f = e ∨ Ascends f e

theorem Newest.defines {l : VariableList} {name : String} {e : VariableEntry} (he : l.Newest name e) :
    l.Defines name :=
  ⟨e, he.mem, he.named⟩

theorem Last.defines {l : VariableList} {name : String} {e : VariableEntry} (he : l.Last name e) : l.Defines name := by
  obtain ⟨before, after, rfl, hname, -⟩ := he
  exact ⟨e, by simp, hname⟩

theorem Newest.unique {l : VariableList} {name : String} {e f : VariableEntry} (he : l.Newest name e)
    (hf : l.Newest name f) : e = f := by
  rcases hf.newest e he.mem he.named with h | hef
  · exact h
  · rcases he.newest f hf.mem hf.named with h | hfe
    · exact h.symm
    · exact Std.Antisymm.antisymm _ _ hef hfe

theorem Last.newest {l : VariableList} {name : String} {e : VariableEntry} (hl : l.Dated) (he : l.Last name e) :
    l.Newest name e := by
  obtain ⟨before, after, rfl, hname, hafter⟩ := he
  have hasc := hl.ascends
  rw [List.pairwise_append] at hasc
  refine ⟨by simp, hname, fun f hf hfname => ?_⟩
  rw [List.mem_append, List.mem_cons] at hf
  rcases hf with hf | rfl | hf
  · exact .inr (hasc.2.2 f hf e List.mem_cons_self)
  · exact .inl rfl
  · exact absurd hfname (hafter f hf)

end VariableList

open VariableList (Defines Last Newest Ascends Dated)

theorem findSome?_reverse_eq_some_iff {α β : Type} {f : α → Option β} {l : List α} {b : β} :
    l.reverse.findSome? f = some b ↔
      ∃ before a after, l = before ++ a :: after ∧ f a = some b ∧ ∀ x ∈ after, f x = none := by
  rw [List.findSome?_eq_some_iff]
  constructor
  · rintro ⟨after, a, before, hl, ha, hafter⟩
    refine ⟨before.reverse, a, after.reverse, ?_, ha, fun x hx => hafter x (List.mem_reverse.1 hx)⟩
    simpa using congrArg List.reverse hl
  · rintro ⟨before, a, after, rfl, ha, hafter⟩
    exact ⟨after.reverse, a, before.reverse, by simp, ha, fun x hx => hafter x (List.mem_reverse.1 hx)⟩

namespace Layer

variable {l : Layer} {name : String} {e : VariableEntry}

theorem find?_eq_none_iff : l.find? name = none ↔ ¬ Defines l.entries name := by
  simp [find?, Defines]

/-- **Within a list the last entry with a name defines it.** -/
theorem find?_eq_some_iff_last : l.find? name = some e ↔ Last l.entries name e := by
  unfold find? Last
  rw [List.find?_eq_some_iff_append]
  constructor
  · rintro ⟨he, after, before, hrev, hafter⟩
    have hentries : l.entries = before.reverse ++ e :: after.reverse := by
      simpa using congrArg List.reverse hrev
    refine ⟨before.reverse, after.reverse, hentries, beq_iff_eq.1 he, fun f hf => ?_⟩
    simpa using hafter f (List.mem_reverse.1 hf)
  · rintro ⟨before, after, hentries, hname, hafter⟩
    refine ⟨beq_iff_eq.2 hname, after.reverse, before.reverse, by simp [hentries], fun f hf => ?_⟩
    simpa using hafter f (List.mem_reverse.1 hf)

theorem newest_of_find? (hl : Dated l.entries) (h : l.find? name = some e) : Newest l.entries name e :=
  (find?_eq_some_iff_last.1 h).newest hl

/-- **Within a list whose ids ascend the newest entry with a name defines it.** -/
theorem find?_eq_some_iff (hl : Dated l.entries) : l.find? name = some e ↔ Newest l.entries name e := by
  constructor
  · exact newest_of_find? hl
  · intro he
    cases hf : l.find? name with
    | none => exact absurd he.defines (find?_eq_none_iff.1 hf)
    | some f => rw [(newest_of_find? hl hf).unique he]

end Layer

theorem VariableList.last_iff_newest {l : VariableList} {name : String} {e : VariableEntry} (hl : l.Dated) :
    l.Last name e ↔ l.Newest name e := by
  have hlast : Layer.find? ⟨"", l⟩ name = some e ↔ l.Last name e := Layer.find?_eq_some_iff_last
  rw [← hlast, Layer.find?_eq_some_iff hl]

namespace LayerStack

variable {s t : LayerStack} {name : String} {r : ResolvedVariable}

theorem find?_nil : find? [] name = none := rfl

theorem find?_singleton (l : Layer) : find? [l] name = (l.find? name).map (⟨l.origin, ·⟩) := by
  unfold find?
  cases h : l.find? name <;> simp [h]

theorem find?_singleton_eq_none_iff {l : Layer} : find? [l] name = none ↔ ¬ Defines l.entries name := by
  rw [find?_singleton, Option.map_eq_none_iff, Layer.find?_eq_none_iff]

theorem find?_singleton_eq_some_iff_last {origin : String} {entries : VariableList} :
    find? [⟨origin, entries⟩] name = some r ↔ r.origin = origin ∧ Last entries name r.entry := by
  rw [find?_singleton, Option.map_eq_some_iff]
  obtain ⟨label, entry⟩ := r
  constructor
  · rintro ⟨e, he, hr⟩
    cases hr
    exact ⟨rfl, Layer.find?_eq_some_iff_last.1 he⟩
  · rintro ⟨rfl, hlast⟩
    exact ⟨entry, Layer.find?_eq_some_iff_last.2 hlast, rfl⟩

theorem find?_append : find? (s ++ t) name = (t.find? name).or (s.find? name) := by
  unfold find?
  rw [List.reverse_append, List.findSome?_append]

theorem find?_cons (l : Layer) (s : LayerStack) : find? (l :: s) name = (find? s name).or (find? [l] name) :=
  find?_append (s := [l])

/-- **A stack put together from shares is searched share by share**, the last one first. -/
theorem find?_flatMap {α : Type} (share : α → LayerStack) : ∀ chain : List α,
    find? (chain.flatMap share) name = chain.reverse.findSome? fun q => (share q).find? name
  | [] => rfl
  | q :: chain => by
    rw [List.flatMap_cons, find?_append, find?_flatMap share chain, List.reverse_cons, List.findSome?_append,
      List.findSome?_singleton]

theorem find?_flatMap_eq_none_iff {α : Type} {share : α → LayerStack} {chain : List α} :
    find? (chain.flatMap share) name = none ↔ ∀ q ∈ chain, (share q).find? name = none := by
  rw [find?_flatMap, List.findSome?_eq_none_iff]
  simp only [List.mem_reverse]

theorem find?_flatMap_congr {α : Type} {share share' : α → LayerStack} {chain : List α}
    (h : ∀ q ∈ chain, (share q).find? name = (share' q).find? name) :
    find? (chain.flatMap share) name = find? (chain.flatMap share') name := by
  induction chain with
  | nil => rfl
  | cons q chain ih =>
    obtain ⟨hq, hchain⟩ := List.forall_mem_cons.1 h
    rw [List.flatMap_cons, List.flatMap_cons, find?_append, find?_append, hq, ih hchain]

/-- **Along a lineage the most specific definition is found**: none of the nodes that inherit from the one that gives it
has another. -/
theorem exists_mem_of_find?_lineage {h : Hierarchy} {node : String} {chain : List String}
    (hd : h.descending node = .ok chain) {share : String → LayerStack}
    (hr : find? (chain.flatMap share) name = some r) :
    ∃ q ∈ chain, (share q).find? name = some r ∧
      ∀ q' ∈ chain, h.IsAncestor q q' → (share q').find? name = none := by
  rw [find?_flatMap, findSome?_reverse_eq_some_iff] at hr
  obtain ⟨before, q, after, rfl, hq, hafter⟩ := hr
  exact ⟨q, by simp, hq, fun q' hq' ha => hafter q' (Hierarchy.mem_after_of_isAncestor hd hq' ha)⟩

end LayerStack

/-! ## The view of a stack -/

/-- **The view of a stack answers every look-up as the stack does.** -/
theorem LayerStack.find?_materialize (name : String) : ∀ s : LayerStack, s.materialize.find? name = s.find? name
  | [] => rfl
  | l :: s => by
    have hs := find?_materialize name s
    rw [materialize, NameMap.find?_ofList] at hs ⊢
    rw [definitions, List.flatMap_cons, List.reverse_append, List.find?_append, Option.map_or, find?_cons,
      find?_singleton, ← hs, Layer.find?, ← List.map_reverse, List.find?_map, Option.map_map]
    rfl

namespace LayerStack

/-- **The definition of a name that tops a stack**: the last entry with the name in a layer, where no layer above that
one has the name. -/
def Topmost (s : LayerStack) (name : String) (r : ResolvedVariable) : Prop :=
  ∃ below l above, s = below ++ l :: above ∧ r.origin = l.origin ∧ Last l.entries name r.entry ∧
    ∀ k ∈ above, ¬ Defines k.entries name

variable {s : LayerStack} {name : String} {r : ResolvedVariable}

/-- **A stack is searched for the definition that tops it.** -/
theorem find?_eq_some_iff_topmost : s.find? name = some r ↔ s.Topmost name r := by
  have hlayer : ∀ l : Layer, (l.find? name).map (ResolvedVariable.mk l.origin) = some r ↔
      r.origin = l.origin ∧ Last l.entries name r.entry := fun l => by
    rw [← find?_singleton, find?_singleton_eq_some_iff_last]
  unfold find? Topmost
  rw [findSome?_reverse_eq_some_iff]
  simp only [hlayer, Option.map_eq_none_iff, Layer.find?_eq_none_iff, and_assoc]

theorem find?_eq_none_iff : s.find? name = none ↔ ∀ l ∈ s, ¬ Defines l.entries name := by
  unfold find?
  simp only [List.findSome?_eq_none_iff, List.mem_reverse, Option.map_eq_none_iff, Layer.find?_eq_none_iff]

theorem mem_names_materialize : name ∈ s.materialize.names ↔ ∃ r, s.find? name = some r := by
  rw [NameMap.mem_names, find?_materialize]

/-- **Look-ups and the view agree.** The view has a name just when a look-up finds it, and under it what the look-up
finds: the definition that tops the stack. There is one when a layer has the name at all. -/
theorem materialize_agrees (s : LayerStack) (name : String) :
    (name ∈ s.materialize.names ↔ ∃ r, s.find? name = some r) ∧
    (∀ r, s.materialize.find? name = some r ↔ s.find? name = some r) ∧
    (∀ r, s.find? name = some r ↔ s.Topmost name r) ∧
    ((∃ r, s.find? name = some r) ↔ ∃ l ∈ s, Defines l.entries name) := by
  refine ⟨mem_names_materialize, fun r => ?_, fun r => find?_eq_some_iff_topmost, ?_⟩
  · rw [find?_materialize]
  · rw [← Option.ne_none_iff_exists', ne_eq, find?_eq_none_iff]
    simp only [not_forall, not_not, exists_prop]

end LayerStack

/-- The upper layer has the last word, with the last of its two entries, if only to say null. -/
example : (LayerStack.materialize
      [⟨"global", [⟨"level", none, .reference "low"⟩]⟩,
        ⟨"environment:live", [⟨"level", none, .reference "high"⟩, ⟨"level", none, .value .null⟩]⟩]).entries =
    [("level", ⟨"environment:live", ⟨"level", none, .value .null⟩⟩)] := rfl

end DeployInventory
