import DeployInventory.Lineage
import DeployInventory.Proofs.Before
/-!
# Proofs.Lineage.Frames — the walk with a stack of frames

`step` looks at one parent: the stack holds a frame for every node between the start and the node being visited, with
the position of its next parent, so no call is open while an ancestor is visited. The machine ends from every start,
and with what the recursive walk gives (`ends_start_iff`).
-/
namespace DeployInventory
namespace Hierarchy

/-- A node being visited, with its parents and the position of the next one. -/
structure Frame where
  node : String
  parents : List String
  next : Nat

/-- A state of the machine: the frames, the innermost first, the nodes being visited, and the nodes finished, the last
first. -/
structure FrameState where
  stack : List Frame
  visiting : List String
  finished : List String

inductive Stage (α : Type) where
  | running (s : FrameState)
  | ended (result : Except LineageError (Outcome α))

/-- The frames' nodes from the first one of a node inwards, that node again at the end. -/
def frameCycle (stack : List Frame) (back : String) : List String :=
  (stack.reverse.map (·.node)).dropWhile (· != back) ++ [back]

/-- **One turn of the loop**: a frame without a next parent is finished, else its next parent is looked at. -/
def step {α : Type} (h : Hierarchy) (stop : String → Option α) (s : FrameState) : Stage α :=
  match s.stack with
  | [] => .ended (.ok (.left s.finished))
  | f :: below =>
    match f.parents[f.next]? with
    | none => .running ⟨below, s.visiting.erase f.node, f.node :: s.finished⟩
    | some p =>
      let stack := { f with next := f.next + 1 } :: below
      if p ∈ s.finished then .running { s with stack }
      else if p ∈ s.visiting then .ended (.error (.cyclic (frameCycle stack p)))
      else match h.find? p with
        | none => .ended (.error (.missingNode p (some f.node)))
        | some parents =>
          match stop p with
          | some a => .ended (.ok (.stopped a))
          | none => .running ⟨⟨p, parents, 0⟩ :: stack, p :: s.visiting, s.finished⟩

def start {α : Type} (h : Hierarchy) (stop : String → Option α) (node : String) : Stage α :=
  match h.find? node with
  | none => .ended (.error (.missingNode node none))
  | some parents =>
    match stop node with
    | some a => .ended (.ok (.stopped a))
    | none => .running ⟨[⟨node, parents, 0⟩], [node], []⟩

/-- **The machine ends with a result** after finitely many steps. -/
inductive Ends {α : Type} (h : Hierarchy) (stop : String → Option α) :
    Stage α → Except LineageError (Outcome α) → Prop where
  | ended (r : Except LineageError (Outcome α)) : Ends h stop (.ended r) r
  | running {s : FrameState} {r : Except LineageError (Outcome α)} (next : Ends h stop (step h stop s) r) :
      Ends h stop (.running s) r

/-- The outcome of a walk, the node it starts from left after all others. -/
def leaveLast {α : Type} (node : String) : Except LineageError (Outcome α) → Except LineageError (Outcome α)
  | .ok (.left nodes) => .ok (.left (node :: nodes))
  | r => r

abbrev neverStops (_ : String) : Option Empty := none

variable {α : Type} {h : Hierarchy} {stop : String → Option α}

theorem Ends.unique {t : Stage α} {r r' : Except LineageError (Outcome α)} (hr : Ends h stop t r)
    (hr' : Ends h stop t r') : r = r' := by
  induction hr with
  | ended r => cases hr'; rfl
  | running _ ih =>
    cases hr' with
    | running next => exact ih next

theorem drop_eq_cons {l rest : List String} {k : Nat} {p : String} (hd : l.drop k = p :: rest) :
    l[k]? = some p ∧ l.drop (k + 1) = rest := by
  constructor
  · have := congrArg (·[0]?) hd
    simpa using this
  · rw [← List.tail_drop, hd, List.tail_cons]

theorem frameCycle_eq_cycleOf {stack : List Frame} {path : List String} {p : String}
    (hpath : stack.map (·.node) = path) (hnd : path.Nodup) (hp : p ∈ path) : frameCycle stack p = cycleOf path p := by
  unfold frameCycle cycleOf
  rw [List.map_reverse, hpath, dropWhile_reverse_of_nodup hnd hp]

/-- What is left to do after a walk through the parents of a frame's node: to finish the node. -/
def Resumes (h : Hierarchy) (stop : String → Option α) (below : List Frame) (node : String)
    (r : Except LineageError (Outcome α)) : Except LineageError (Outcome α) → Prop
  | .ok (.left nodes) => Ends h stop (.running ⟨below, below.map (·.node), node :: nodes⟩) r
  | out => out = r

/-- A parent that exists and is neither finished nor being visited gets a frame of its own. -/
theorem Ends.enter {child p : String} {path declared rest left ps : List String} {next : Nat} {below : List Frame}
    {r : Except LineageError (Outcome α)} (hd : declared.drop next = p :: rest) (hl : p ∉ left) (hp : p ∉ path)
    (hn : h.find? p = some ps) (ha : stop p = none)
    (hr : Ends h stop (.running ⟨⟨p, ps, 0⟩ :: ⟨child, declared, next + 1⟩ :: below, p :: path, left⟩) r) :
    Ends h stop (.running ⟨⟨child, declared, next⟩ :: below, path, left⟩) r := by
  obtain ⟨hnext, -⟩ := drop_eq_cons hd
  refine .running ?_
  simp only [step, hnext, hl, hp, hn, ha, if_false]
  exact hr

/-- **The machine goes through the parents that a frame has left as the recursion does**, and then finishes the
frame's node. -/
theorem ends_of_walkParents {r : Except LineageError (Outcome α)} (child : String) (path parents left : List String)
    (hnd : path.Nodup) :
    ∀ (declared : List String) (next : Nat) (below : List Frame), declared.drop next = parents →
      child :: below.map (·.node) = path →
      Resumes h stop below child r (walkParents h stop child path parents left) →
      Ends h stop (.running ⟨⟨child, declared, next⟩ :: below, path, left⟩) r := by
  fun_induction walkParents h stop child path parents left with
  | case1 child path left =>
    intro declared next below hd hpath hr
    subst hpath
    have hlast : declared[next]? = none := List.getElem?_eq_none (List.drop_eq_nil_iff.1 hd)
    refine .running ?_
    simp only [step, hlast, List.erase_cons_head]
    exact hr
  | case2 child path p rest left hl ih =>
    intro declared next below hd hpath hr
    obtain ⟨hnext, hrest⟩ := drop_eq_cons hd
    refine .running ?_
    simp only [step, hnext, hl, if_true]
    exact ih hnd declared (next + 1) below hrest hpath hr
  | case3 child path p rest left hl hp =>
    intro declared next below hd hpath hr
    obtain ⟨hnext, -⟩ := drop_eq_cons hd
    refine .running ?_
    simp only [step, hnext, hl, hp, if_true, if_false]
    rw [frameCycle_eq_cycleOf (by simpa using hpath) hnd hp]
    cases hr
    exact .ended _
  | case4 child path p rest left hl hp hn =>
    intro declared next below hd hpath hr
    obtain ⟨hnext, -⟩ := drop_eq_cons hd
    refine .running ?_
    simp only [step, hnext, hl, hp, hn, if_false]
    cases hr
    exact .ended _
  | case5 child path p rest left hl hp ps hn _ a ha =>
    intro declared next below hd hpath hr
    obtain ⟨hnext, -⟩ := drop_eq_cons hd
    refine .running ?_
    simp only [step, hnext, hl, hp, hn, ha, if_false]
    cases hr
    exact .ended _
  | case6 child path p rest left hl hp ps hn _ ha e he ih =>
    intro declared next below hd hpath hr
    refine .enter hd hl hp hn ha (ih (List.nodup_cons.2 ⟨hp, hnd⟩) ps 0 _ rfl (by rw [List.map_cons, hpath]) ?_)
    rw [he]
    exact hr
  | case7 child path p rest left hl hp ps hn _ ha a he ih =>
    intro declared next below hd hpath hr
    refine .enter hd hl hp hn ha (ih (List.nodup_cons.2 ⟨hp, hnd⟩) ps 0 _ rfl (by rw [List.map_cons, hpath]) ?_)
    rw [he]
    exact hr
  | case8 child path p rest left hl hp ps hn _ ha above hup ihUp ihNext =>
    intro declared next below hd hpath hr
    refine .enter hd hl hp hn ha (ihUp (List.nodup_cons.2 ⟨hp, hnd⟩) ps 0 _ rfl (by rw [List.map_cons, hpath]) ?_)
    rw [hup]
    show Ends h stop (.running ⟨_, _ :: below.map (·.node), _⟩) r
    rw [hpath]
    exact ihNext hnd declared (next + 1) below (drop_eq_cons hd).2 hpath hr

theorem ends_start (h : Hierarchy) (stop : String → Option α) (node : String) :
    Ends h stop (start h stop node) (leaveLast node (walk h stop node)) := by
  unfold start walk
  cases hn : h.find? node with
  | none => exact .ended _
  | some parents =>
    cases hs : stop node with
    | some a => exact .ended _
    | none =>
      refine ends_of_walkParents node [node] parents [] (by simp) parents 0 [] rfl rfl ?_
      simp only
      cases walkParents h stop node [node] parents [] with
      | error e => rfl
      | ok out =>
        cases out with
        | stopped a => rfl
        | left nodes => exact .running (.ended _)

/-- **The machine ends from every start, with the outcome of the walk and no other.** -/
theorem ends_start_iff (h : Hierarchy) (stop : String → Option α) (node : String)
    (r : Except LineageError (Outcome α)) :
    Ends h stop (start h stop node) r ↔ r = leaveLast node (walk h stop node) := by
  constructor
  · intro hr
    exact hr.unique (ends_start h stop node)
  · rintro rfl
    exact ends_start h stop node

end Hierarchy
end DeployInventory
