import DeployInventory.Proofs.Checked
import DeployInventory.Proofs.Layers.Lookup
import Mathlib.Data.List.Chain
/-!
# Proofs.Layers.References — what following references comes to

In the view of a stack a name is a reference to one target, or holds something else, or is not defined. So one way
leads on from every name: it ends at a name that holds a variable or refers to an undefined one, or it comes back to a
name met before. `Follows` says what each of these gives, and the names met are a trail without repetition
(`exists_follows`). Two ways out of one name do not part (`LeadsTo.of_end`, `Circles.unique`), so which of them it is
can be told from the references alone, and all names on the way share what it comes to (`dereference_follows`).
-/
namespace DeployInventory
namespace LayerStack

/-- The view of a stack defines a name as a reference to a target. -/
def RefersTo (s : LayerStack) (name target : String) : Prop :=
  ∃ r, s.materialize.find? name = some r ∧ r.entry.content = .reference target

/-- A name is the start or is met on following references from there. -/
def LeadsTo (s : LayerStack) : String → String → Prop := Relation.ReflTransGen s.RefersTo

/-- The view of a stack defines a name as a variable that is not a reference. -/
def Holds (s : LayerStack) (name : String) (v : Variable) : Prop :=
  ∃ r, s.materialize.find? name = some r ∧ r.entry.content = v ∧ v.kind ≠ .reference

/-- **The names met on following references from a start**: each refers to the next one, and none comes twice. -/
structure Trail (s : LayerStack) (start : String) (met : List String) : Prop where
  starts : met.head? = some start
  refers : met.IsChain s.RefersTo
  nodup : met.Nodup
  defined : ∀ n ∈ met, n ∈ s.materialize.names

/-- **A way of references that comes back**: from the start on each name refers to the next one, and the last is the
first that comes again. -/
structure Circles (s : LayerStack) (start : String) (chain : List String) : Prop where
  starts : chain.head? = some start
  refers : chain.IsChain s.RefersTo
  nodup : chain.dropLast.Nodup
  again : ∃ back ∈ chain.getLast?, back ∈ chain.dropLast

/-- **What following references comes to**, after a trail of names: at its last name. -/
inductive Follows (s : LayerStack) (start : String) :
    (met : List String) → Except ReferenceError (Option Variable) → Prop where
  | nothing (unknown : start ∉ s.materialize.names) : Follows s start [] (.ok none)
  | value {before : List String} {n : String} {v : Variable} (way : s.Trail start (before ++ [n]))
      (holds : s.Holds n v) : Follows s start (before ++ [n]) (.ok (some v))
  | undefined {before : List String} {n target : String} (way : s.Trail start (before ++ [n]))
      (refers : s.RefersTo n target) (unknown : target ∉ s.materialize.names) :
      Follows s start (before ++ [n]) (.error (.undefined target n))
  | cycle {before : List String} {n target : String} (way : s.Trail start (before ++ [n]))
      (refers : s.RefersTo n target) (again : target ∈ before ++ [n]) :
      Follows s start (before ++ [n]) (.error (.cycle (before ++ [n, target])))

variable {s : LayerStack} {start name n m t target : String} {met chain : List String} {v w : Variable}
  {r : ResolvedVariable}

/-! ## One way on -/

theorem RefersTo.unique (h : s.RefersTo name n) (h' : s.RefersTo name m) : n = m := by
  obtain ⟨r, hr, hn⟩ := h
  obtain ⟨r', hr', hm⟩ := h'
  obtain rfl : r = r' := Option.some.inj (hr.symm.trans hr')
  exact Variable.reference.inj (hn.symm.trans hm)

theorem RefersTo.mem_names (h : s.RefersTo name n) : name ∈ s.materialize.names := by
  obtain ⟨r, hr, -⟩ := h
  exact NameMap.mem_names.2 ⟨r, hr⟩

theorem Holds.mem_names (h : s.Holds name v) : name ∈ s.materialize.names := by
  obtain ⟨r, hr, -⟩ := h
  exact NameMap.mem_names.2 ⟨r, hr⟩

theorem Holds.unique (h : s.Holds name v) (h' : s.Holds name w) : v = w := by
  obtain ⟨r, hr, hv, -⟩ := h
  obtain ⟨r', hr', hw, -⟩ := h'
  obtain rfl : r = r' := Option.some.inj (hr.symm.trans hr')
  exact hv.symm.trans hw

theorem Holds.not_refersTo (h : s.Holds name v) (n : String) : ¬ s.RefersTo name n := by
  obtain ⟨r, hr, rfl, hkind⟩ := h
  rintro ⟨r', hr', hn⟩
  obtain rfl : r = r' := Option.some.inj (hr.symm.trans hr')
  rw [hn] at hkind
  exact hkind rfl

theorem not_refersTo_of_unknown (h : name ∉ s.materialize.names) (n : String) : ¬ s.RefersTo name n :=
  fun hn => h hn.mem_names

/-- Of two names that can be reached from one the way of references comes to one first. -/
theorem LeadsTo.total (hn : s.LeadsTo name n) (hm : s.LeadsTo name m) : s.LeadsTo n m ∨ s.LeadsTo m n := by
  have hunique : Relator.RightUnique s.RefersTo := fun _ _ _ => RefersTo.unique
  exact Relation.ReflTransGen.total_of_right_unique hunique hn hm

/-- **All names on the way lead to its end.** -/
theorem LeadsTo.of_end (hn : s.LeadsTo name n) (ht : s.LeadsTo name t) (hend : ∀ m, ¬ s.RefersTo t m) :
    s.LeadsTo n t := by
  rcases hn.total ht with h | h
  · exact h
  · rcases h.cases_head with rfl | ⟨m, hm, -⟩
    · exact .refl
    · exact absurd hm (hend m)

theorem LeadsTo.end_unique (hn : s.LeadsTo name n) (ht : s.LeadsTo name t) (hn' : ∀ m, ¬ s.RefersTo n m)
    (ht' : ∀ m, ¬ s.RefersTo t m) : n = t := by
  rcases (hn.of_end ht ht').cases_head with h | ⟨m, hm, -⟩
  · exact h
  · exact absurd hm (hn' m)

theorem LeadsTo.mem_names (hn : s.LeadsTo name n) (h : n ∈ s.materialize.names) : name ∈ s.materialize.names := by
  rcases hn.cases_head with rfl | ⟨m, hm, -⟩
  · exact h
  · exact hm.mem_names

/-- The last name on a way that ends refers to its end, and no other one does. -/
theorem LeadsTo.last_unique (hn : s.LeadsTo name n) (hm : s.LeadsTo name m) (hnt : s.RefersTo n t)
    (hmt : s.RefersTo m t) (hend : ∀ k, ¬ s.RefersTo t k) : n = m := by
  -- a way from the one to the other would go through the end
  have hpass : ∀ {k l}, s.LeadsTo k l → s.RefersTo k t → s.RefersTo l t → k = l := by
    intro k l hkl hk hl
    rcases hkl.cases_head with h | ⟨j, hj, hjl⟩
    · exact h
    · obtain rfl : j = t := hj.unique hk
      rcases hjl.cases_head with rfl | ⟨i, hi, -⟩
      · exact absurd hl (hend _)
      · exact absurd hi (hend i)
  rcases hn.total hm with h | h
  · exact hpass h hnt hmt
  · exact (hpass h hmt hnt).symm

/-! ## Trails -/

theorem Trail.singleton (h : start ∈ s.materialize.names) : s.Trail start [start] :=
  ⟨rfl, .singleton start, List.nodup_singleton start, by simpa using h⟩

theorem Trail.mem_names (hway : s.Trail start met) : start ∈ s.materialize.names :=
  hway.defined start (List.mem_of_mem_head? hway.starts)

theorem Trail.step (hway : s.Trail start (met ++ [n])) (hn : s.RefersTo n target) (hnew : target ∉ met ++ [n])
    (hdef : target ∈ s.materialize.names) : s.Trail start (met ++ [n, target]) := by
  refine ⟨?_, ?_, ?_, ?_⟩
  · simpa using hway.starts
  · exact List.isChain_append_cons_cons.2 ⟨hway.refers, hn, .singleton target⟩
  · rw [← List.concat_append]
    simpa using hway.nodup.concat hnew
  · simpa [or_imp, forall_and, hdef] using hway.defined

/-- **A trail is no longer than there are names.** -/
theorem Trail.length_le (hway : s.Trail start met) : met.length ≤ s.materialize.size := by
  rw [← s.materialize.length_names]
  exact hway.nodup.length_le_of_subset hway.defined

theorem Trail.leadsTo (hway : s.Trail start (met ++ [n])) : s.LeadsTo start n := by
  have hall : ∀ m ∈ met ++ [n], s.LeadsTo m n :=
    hway.refers.backwards_induction (s.LeadsTo · n) _ (fun _ _ hm h => .head hm h) fun hne => by
      rw [List.getLast_concat]
      exact .refl
  exact hall start (List.mem_of_mem_head? hway.starts)

theorem Trail.circles (hway : s.Trail start (met ++ [n])) (hn : s.RefersTo n target) (hagain : target ∈ met ++ [n]) :
    s.Circles start (met ++ [n, target]) := by
  have hlast : met ++ [n, target] = met ++ [n] ++ [target] := by simp
  refine ⟨?_, ?_, ?_, target, ?_, ?_⟩
  · simpa using hway.starts
  · exact List.isChain_append_cons_cons.2 ⟨hway.refers, hn, .singleton target⟩
  · rw [hlast, List.dropLast_concat]
    exact hway.nodup
  · rw [hlast, List.getLast?_concat, Option.mem_some_iff]
  · rwa [hlast, List.dropLast_concat]

theorem exists_next {before : List String} (hchain : (before ++ [target]).IsChain s.RefersTo) (hn : n ∈ before) :
    ∃ m ∈ before ++ [target], s.RefersTo n m := by
  obtain ⟨left, right, rfl⟩ := List.append_of_mem hn
  cases right with
  | nil =>
    rw [List.append_assoc, List.singleton_append, List.isChain_append_cons_cons] at hchain
    exact ⟨target, by simp, hchain.2.1⟩
  | cons m right =>
    rw [List.append_assoc, List.cons_append, List.cons_append, List.isChain_append_cons_cons] at hchain
    exact ⟨m, by simp, hchain.2.1⟩

/-- **Where a way comes back every name on it leads on.** -/
theorem Circles.exists_refersTo (hc : s.Circles start chain) (hn : s.LeadsTo start n) : ∃ m, s.RefersTo n m := by
  obtain ⟨back, hback, hagain⟩ := hc.again
  obtain ⟨before, rfl⟩ := List.getLast?_eq_some_iff.1 hback
  rw [List.dropLast_concat] at hagain
  have hstart : start ∈ before := by
    have hhead := hc.starts
    cases before with
    | nil => cases hagain
    | cons k before => exact Option.some.inj hhead ▸ List.mem_cons_self
  -- the last name is one of those before it, so from these references lead to these only
  have hmem : n ∈ before := by
    induction hn with
    | refl => exact hstart
    | tail _ hm ih =>
      obtain ⟨k, hk, hrefers⟩ := exists_next hc.refers ih
      obtain rfl := hm.unique hrefers
      rcases List.mem_append.1 hk with hk | hk
      · exact hk
      · exact List.mem_singleton.1 hk ▸ hagain
  obtain ⟨m, -, hm⟩ := exists_next hc.refers hmem
  exact ⟨m, hm⟩

/-- Of two lists in which each name refers to the next one and which start alike one continues the other. -/
theorem prefix_or_prefix (hchain : chain.IsChain s.RefersTo) (hmet : met.IsChain s.RefersTo)
    (hstart : chain.head? = met.head?) : chain <+: met ∨ met <+: chain := by
  induction chain generalizing met with
  | nil => exact .inl List.nil_prefix
  | cons n chain ih =>
    cases met with
    | nil => cases hstart
    | cons m met =>
      obtain rfl : n = m := Option.some.inj hstart
      simp only [List.cons_prefix_cons, true_and]
      cases chain with
      | nil => exact .inl List.nil_prefix
      | cons k chain =>
        cases met with
        | nil => exact .inr List.nil_prefix
        | cons l met =>
          rw [List.isChain_cons_cons] at hchain hmet
          exact ih hchain.2 hmet.2 (congrArg some (hchain.1.unique hmet.1))

/-- A way that has come back goes no further without repetition. -/
theorem Circles.eq_of_prefix {other : List String} (hc : s.Circles start chain) (ho : s.Circles start other)
    (hpre : chain <+: other) : chain = other := by
  obtain ⟨back, hback, hagain⟩ := hc.again
  obtain ⟨end', hend, -⟩ := ho.again
  obtain ⟨before, rfl⟩ := List.getLast?_eq_some_iff.1 hback
  obtain ⟨others, rfl⟩ := List.getLast?_eq_some_iff.1 hend
  have hnd := ho.nodup
  rw [List.dropLast_concat] at hagain hnd
  rcases List.prefix_concat_iff.1 hpre with h | h
  · exact h
  · have hnodup : (before ++ [back]).Nodup := hnd.sublist h.sublist
    exact absurd rfl ((List.nodup_append.1 hnodup).2.2 back hagain back List.mem_cons_self)

/-- **A way comes back in one way only.** -/
theorem Circles.unique {other : List String} (hc : s.Circles start chain) (ho : s.Circles start other) :
    chain = other := by
  rcases prefix_or_prefix hc.refers ho.refers (hc.starts.trans ho.starts.symm) with h | h
  · exact hc.eq_of_prefix ho h
  · exact (ho.eq_of_prefix hc h).symm

/-! ## The turns of the walk -/

theorem refersTo_of_find? (hr : s.find? n = some r) (hv : r.entry.content = .reference target) : s.RefersTo n target :=
  ⟨r, (find?_materialize n s).trans hr, hv⟩

theorem follow_of_met (hmet : target ∈ n :: met) :
    s.follow n met (.reference target) = .error (.cycle ((n :: met).reverse ++ [target])) := by
  rw [follow, dif_pos hmet]

theorem follow_of_unknown (hmet : target ∉ n :: met) (hunknown : s.find? target = none) :
    s.follow n met (.reference target) = .error (.undefined target n) := by
  rw [follow, dif_neg hmet]
  split
  · rfl
  · rename_i hr
    rw [hunknown] at hr
    cases hr

theorem follow_of_found (hmet : target ∉ n :: met) (hr : s.find? target = some r) :
    s.follow n met (.reference target) = s.follow target (n :: met) r.entry.content := by
  rw [follow, dif_neg hmet]
  split
  · rename_i hunknown
    rw [hr] at hunknown
    cases hunknown
  · rename_i r' hr'
    rw [Option.some.inj (hr.symm.trans hr')]

theorem follow_of_kind (hkind : v.kind ≠ .reference) : s.follow n met v = .ok v := by
  rw [follow.eq_def]
  split
  · exact absurd rfl hkind
  · rfl

/-- **Following references from the last name of a trail on** comes to what there is at the end of the way. -/
theorem exists_follows_follow (hway : s.Trail start (met.reverse ++ [n])) (hr : s.find? n = some r)
    (hv : r.entry.content = v) : ∃ all, s.Follows start all ((s.follow n met v).map some) := by
  induction n, met, v using follow.induct s generalizing r with
  | case1 n met target hmet =>
    have hagain : target ∈ met.reverse ++ [n] := by simpa [or_comm] using hmet
    rw [follow_of_met hmet, List.reverse_cons, List.append_assoc]
    exact ⟨_, .cycle hway (refersTo_of_find? hr hv) hagain⟩
  | case2 n met target hmet hunknown =>
    rw [follow_of_unknown hmet hunknown]
    refine ⟨_, .undefined hway (refersTo_of_find? hr hv) ?_⟩
    rw [NameMap.not_mem_names, find?_materialize, hunknown]
  | case3 n met target hmet r' hr' _ ih =>
    have hnew : target ∉ met.reverse ++ [n] := by simpa [or_comm] using hmet
    rw [follow_of_found hmet hr']
    refine ih ?_ hr' rfl
    rw [List.reverse_cons, List.append_assoc]
    exact hway.step (refersTo_of_find? hr hv) hnew (mem_names_materialize.2 ⟨r', hr'⟩)
  | case4 n met v hplain =>
    have hkind : v.kind ≠ .reference := by
      intro hk
      cases v with
      | reference target => exact hplain target rfl
      | _ => cases hk
    rw [follow_of_kind hkind]
    exact ⟨_, .value hway ⟨r, (find?_materialize n s).trans hr, hv, hkind⟩⟩

/-- **Following references ends**, at the end of a trail. -/
theorem exists_follows (s : LayerStack) (name : String) : ∃ met, s.Follows name met (s.dereference name) := by
  unfold dereference
  cases hr : s.find? name with
  | none => exact ⟨[], .nothing (by rw [NameMap.not_mem_names, find?_materialize, hr])⟩
  | some r => exact exists_follows_follow (Trail.singleton (mem_names_materialize.2 ⟨r, hr⟩)) hr rfl

theorem Follows.length_le {out : Except ReferenceError (Option Variable)} (hf : s.Follows start met out) :
    met.length ≤ s.materialize.size := by
  cases hf with
  | nothing => exact Nat.zero_le _
  | value way => exact way.length_le
  | undefined way => exact way.length_le
  | cycle way => exact way.length_le

/-! ## What it comes to, told from the references -/

theorem dereference_eq_none_iff : s.dereference name = .ok none ↔ name ∉ s.materialize.names := by
  obtain ⟨met, hf⟩ := s.exists_follows name
  generalize s.dereference name = out at hf
  cases hf with
  | nothing unknown => exact iff_of_true rfl unknown
  | value way _ => exact iff_of_false (by simp) (not_not.2 way.mem_names)
  | undefined way _ _ => exact iff_of_false (by simp) (not_not.2 way.mem_names)
  | cycle way _ _ => exact iff_of_false (by simp) (not_not.2 way.mem_names)

theorem dereference_eq_value_iff :
    s.dereference name = .ok (some v) ↔ ∃ n, s.LeadsTo name n ∧ s.Holds n v := by
  obtain ⟨met, hf⟩ := s.exists_follows name
  constructor
  · intro h
    rw [h] at hf
    cases hf with
    | value way holds => exact ⟨_, way.leadsTo, holds⟩
  · rintro ⟨n, hn, hv⟩
    generalize s.dereference name = out at hf
    cases hf with
    | nothing unknown => exact absurd (hn.mem_names hv.mem_names) unknown
    | value way holds =>
      obtain rfl := hn.end_unique way.leadsTo hv.not_refersTo holds.not_refersTo
      rw [holds.unique hv]
    | undefined way refers unknown =>
      obtain rfl := hn.end_unique (way.leadsTo.tail refers) hv.not_refersTo (not_refersTo_of_unknown unknown)
      exact absurd hv.mem_names unknown
    | cycle way refers again =>
      obtain ⟨m, hm⟩ := (way.circles refers again).exists_refersTo hn
      exact absurd hm (hv.not_refersTo m)

theorem dereference_eq_undefined_iff : s.dereference name = .error (.undefined target n) ↔
    s.LeadsTo name n ∧ s.RefersTo n target ∧ target ∉ s.materialize.names := by
  obtain ⟨met, hf⟩ := s.exists_follows name
  constructor
  · intro h
    rw [h] at hf
    cases hf with
    | undefined way refers unknown => exact ⟨way.leadsTo, refers, unknown⟩
  · rintro ⟨hn, hrefers, hunknown⟩
    have htarget : s.LeadsTo name target := hn.tail hrefers
    have hend : ∀ m, ¬ s.RefersTo target m := not_refersTo_of_unknown hunknown
    generalize s.dereference name = out at hf
    cases hf with
    | nothing unknown => exact absurd (hn.mem_names hrefers.mem_names) unknown
    | value way holds =>
      obtain rfl := htarget.end_unique way.leadsTo hend holds.not_refersTo
      exact absurd holds.mem_names hunknown
    | undefined way refers unknown =>
      obtain rfl := htarget.end_unique (way.leadsTo.tail refers) hend (not_refersTo_of_unknown unknown)
      rw [hn.last_unique way.leadsTo hrefers refers hend]
    | cycle way refers again =>
      obtain ⟨m, hm⟩ := (way.circles refers again).exists_refersTo htarget
      exact absurd hm (hend m)

theorem dereference_eq_cycle_iff : s.dereference name = .error (.cycle chain) ↔ s.Circles name chain := by
  obtain ⟨met, hf⟩ := s.exists_follows name
  constructor
  · intro h
    rw [h] at hf
    cases hf with
    | cycle way refers again => exact way.circles refers again
  · intro hc
    generalize s.dereference name = out at hf
    cases hf with
    | nothing unknown =>
      obtain ⟨m, hm⟩ := hc.exists_refersTo .refl
      exact absurd hm.mem_names unknown
    | value way holds =>
      obtain ⟨m, hm⟩ := hc.exists_refersTo way.leadsTo
      exact absurd hm (holds.not_refersTo m)
    | undefined way refers unknown =>
      obtain ⟨m, hm⟩ := hc.exists_refersTo (way.leadsTo.tail refers)
      exact absurd hm.mem_names unknown
    | cycle way refers again => rw [hc.unique (way.circles refers again)]

theorem exists_circles_of_leadsTo (hc : s.Circles name chain) (hn : s.LeadsTo name n)
    (hdef : n ∈ s.materialize.names) : ∃ other, s.Circles n other := by
  obtain ⟨met, hf⟩ := s.exists_follows n
  generalize s.dereference n = out at hf
  cases hf with
  | nothing unknown => exact absurd hdef unknown
  | value way holds =>
    obtain ⟨m, hm⟩ := hc.exists_refersTo (hn.trans way.leadsTo)
    exact absurd hm (holds.not_refersTo m)
  | undefined way refers unknown =>
    obtain ⟨m, hm⟩ := hc.exists_refersTo (hn.trans (way.leadsTo.tail refers))
    exact absurd hm.mem_names unknown
  | cycle way refers again => exact ⟨_, way.circles refers again⟩

/-- **The names on a way share what it comes to**; where it comes back, each with the cycle as met from there. -/
theorem dereference_of_leadsTo (hn : s.LeadsTo name n) (hdef : n ∈ s.materialize.names) :
    s.dereference n = s.dereference name ∨
      ∃ chain other, s.dereference name = .error (.cycle chain) ∧ s.dereference n = .error (.cycle other) := by
  obtain ⟨met, hf⟩ := s.exists_follows name
  generalize s.dereference name = out at hf
  cases hf with
  | nothing unknown => exact absurd (hn.mem_names hdef) unknown
  | value way holds =>
    exact .inl (dereference_eq_value_iff.2 ⟨_, hn.of_end way.leadsTo holds.not_refersTo, holds⟩)
  | undefined way refers unknown =>
    have hend := not_refersTo_of_unknown unknown
    rcases (hn.of_end (way.leadsTo.tail refers) hend).cases_tail with rfl | ⟨k, hk, hrefers⟩
    · exact absurd hdef unknown
    · obtain rfl := LeadsTo.last_unique (hn.trans hk) way.leadsTo hrefers refers hend
      exact .inl (dereference_eq_undefined_iff.2 ⟨hk, refers, unknown⟩)
  | cycle way refers again =>
    obtain ⟨other, hother⟩ := exists_circles_of_leadsTo (way.circles refers again) hn hdef
    exact .inr ⟨_, other, rfl, dereference_eq_cycle_iff.2 hother⟩

/-- **Following references.** It ends after a trail of names no longer than the view. It gives nothing just for a name
that is not defined, a variable just where references lead to a name that holds it, an undefined reference just where
they lead to a name that refers to an undefined one, and a cycle just where they come back: the names met, the first
that comes again at the end. What it gives is the same from every defined name on the way, or again a cycle. -/
theorem dereference_follows (s : LayerStack) (name : String) :
    (∃ met, met.length ≤ s.materialize.size ∧ s.Follows name met (s.dereference name)) ∧
    (s.dereference name = .ok none ↔ name ∉ s.materialize.names) ∧
    (∀ v, s.dereference name = .ok (some v) ↔ ∃ n, s.LeadsTo name n ∧ s.Holds n v) ∧
    (∀ target n, s.dereference name = .error (.undefined target n) ↔
      s.LeadsTo name n ∧ s.RefersTo n target ∧ target ∉ s.materialize.names) ∧
    (∀ chain, s.dereference name = .error (.cycle chain) ↔ s.Circles name chain) ∧
    ∀ n, s.LeadsTo name n → n ∈ s.materialize.names →
      s.dereference n = s.dereference name ∨
        ∃ chain other, s.dereference name = .error (.cycle chain) ∧ s.dereference n = .error (.cycle other) := by
  refine ⟨?_, dereference_eq_none_iff, fun v => dereference_eq_value_iff, fun target n => dereference_eq_undefined_iff,
    fun chain => dereference_eq_cycle_iff, fun n hn hdef => dereference_of_leadsTo hn hdef⟩
  obtain ⟨met, hf⟩ := s.exists_follows name
  exact ⟨met, hf.length_le, hf⟩

/-- References that lead to a value, to a name that is not defined, and into a circle. -/
def signposts : LayerStack :=
  [⟨"global", [⟨"home", none, .value .null⟩, ⟨"port", none, .reference "home"⟩, ⟨"left", none, .reference "home"⟩]⟩,
    ⟨"project:shop", [⟨"left", none, .reference "right"⟩, ⟨"right", none, .reference "left"⟩,
      ⟨"gate", none, .reference "left"⟩, ⟨"sea", none, .reference "reef"⟩]⟩]

theorem signposts_followed :
    signposts.dereference "port" = .ok (some (.value .null)) ∧
    (∃ n, signposts.LeadsTo "port" n ∧ signposts.Holds n (.value .null)) ∧
    signposts.dereference "sea" = .error (.undefined "reef" "sea") ∧ signposts.RefersTo "sea" "reef" ∧
    signposts.dereference "gate" = .error (.cycle ["gate", "left", "right", "left"]) ∧
    signposts.Circles "gate" ["gate", "left", "right", "left"] ∧
    signposts.LeadsTo "gate" "left" ∧ "left" ∈ signposts.materialize.names ∧
    ∃ other, signposts.dereference "left" = .error (.cycle other) := by
  have hport : signposts.dereference "port" = .ok (some (.value .null)) := by cbv
  have hsea : signposts.dereference "sea" = .error (.undefined "reef" "sea") := by cbv
  have hgate : signposts.dereference "gate" = .error (.cycle ["gate", "left", "right", "left"]) := by cbv
  have hleft : signposts.LeadsTo "gate" "left" := .single ⟨_, rfl, rfl⟩
  obtain ⟨-, -, hvalue, -⟩ := dereference_follows signposts "port"
  obtain ⟨-, -, -, hundefined, -⟩ := dereference_follows signposts "sea"
  obtain ⟨-, -, -, -, hcycle, hshared⟩ := dereference_follows signposts "gate"
  have hdef : "left" ∈ signposts.materialize.names := by decide
  refine ⟨hport, (hvalue _).1 hport, hsea, ((hundefined _ _).1 hsea).2.1, hgate, (hcycle _).1 hgate, hleft, hdef, ?_⟩
  rcases hshared "left" hleft hdef with h | ⟨-, other, -, hother⟩
  · exact ⟨_, h.trans hgate⟩
  · exact ⟨other, hother⟩

end LayerStack
end DeployInventory
