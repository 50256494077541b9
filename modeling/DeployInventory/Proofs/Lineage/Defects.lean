import DeployInventory.Proofs.Lineage.Linearization
import DeployInventory.Proofs.Lineage.Search
/-!
# Proofs.Lineage.Defects — what a lineage fails at

Between two turns of the loop the frames are a path of parents down to the start, they are the nodes being visited, and
no node has two (`OnPath`; `OnPath.fits_step` for one turn, `Reached.fits` for all). So a parent that is being visited
has a frame, at which its cycle is cut out of the stack, and what a walk fails at is there. It is the defect that the
search without memory meets first (`descending_fails_first`).
-/
namespace DeployInventory
namespace Hierarchy

/-- **What can be wrong with a node and all that it inherits from**, as an error tells it. -/
inductive Defect (h : Hierarchy) (start : String) : LineageError → Prop where
  | unknownStart (unknown : start ∉ h.names) : Defect h start (.missingNode start none)
  | unknownParent {m c : String} (above : h.AtOrAbove c start) (known : c ∈ h.names) (declared : h.IsParent m c)
      (unknown : m ∉ h.names) : Defect h start (.missingNode m (some c))
  | cycle {cycle : List String} (closes : h.ParentCycle cycle) (above : ∀ n ∈ cycle, h.AtOrAbove n start) :
      Defect h start (.cyclic cycle)

/-- **What holds between two turns of the loop.** -/
structure OnPath (h : Hierarchy) (start : String) (s : FrameState) : Prop where
  visiting : s.visiting = s.stack.map (·.node)
  nodup : s.visiting.Nodup
  path : h.ParentPath start s.visiting
  declares : ∀ f ∈ s.stack, h.find? f.node = some f.parents

/-- The nodes of the frames, the outermost first. -/
def trail (stack : List Frame) : List String := stack.reverse.map (·.node)

/-- The stages that the loop comes to. -/
inductive Reached {α : Type} (h : Hierarchy) (stop : String → Option α) (node : String) : Stage α → Prop where
  | start : Reached h stop node (start h stop node)
  | step {s : FrameState} (before : Reached h stop node (.running s)) : Reached h stop node (step h stop s)

/-- What holds of every stage: the loop is on a path, or it has ended with a defect that is there, or without one. -/
def Fits {α : Type} (h : Hierarchy) (start : String) : Stage α → Prop
  | .running s => OnPath h start s
  | .ended (.error e) => Defect h start e
  | .ended (.ok _) => True

variable {α : Type} {h : Hierarchy} {stop : String → Option α} {start node p : String} {s : FrameState} {f : Frame}
  {below : List Frame} {visiting finished ps : List String} {next : Nat}

/-! ## The turns of the loop -/

namespace OnPath

theorem mem_visiting (hs : OnPath h start ⟨f :: below, visiting, finished⟩) : f.node ∈ visiting := by
  obtain rfl : visiting = f.node :: below.map (·.node) := hs.visiting
  exact List.mem_cons_self

theorem leave (hs : OnPath h start ⟨f :: below, visiting, finished⟩) :
    OnPath h start ⟨below, visiting.erase f.node, f.node :: finished⟩ := by
  obtain rfl : visiting = f.node :: below.map (·.node) := hs.visiting
  rw [List.erase_cons_head]
  exact ⟨rfl, (List.nodup_cons.1 hs.nodup).2, hs.path.tail, (List.forall_mem_cons.1 hs.declares).2⟩

theorem advance (hs : OnPath h start ⟨f :: below, visiting, finished⟩) (next : Nat) :
    OnPath h start ⟨{ f with next } :: below, visiting, finished⟩ :=
  ⟨hs.visiting, hs.nodup, hs.path, List.forall_mem_cons.2 (List.forall_mem_cons.1 hs.declares)⟩

theorem enter (hs : OnPath h start ⟨f :: below, visiting, finished⟩) (hparent : h.IsParent p f.node)
    (hp : p ∉ visiting) (hn : h.find? p = some ps) :
    OnPath h start ⟨⟨p, ps, next⟩ :: f :: below, p :: visiting, finished⟩ := by
  obtain rfl : visiting = f.node :: below.map (·.node) := hs.visiting
  exact ⟨rfl, List.nodup_cons.2 ⟨hp, hs.nodup⟩, hs.path.cons hparent, List.forall_mem_cons.2 ⟨hn, hs.declares⟩⟩

/-- **A parent that is being visited closes a cycle of parents.** -/
theorem cycle (hs : OnPath h start ⟨f :: below, visiting, finished⟩) (hparent : h.IsParent p f.node)
    (hp : p ∈ visiting) : Defect h start (.cyclic (frameCycle (f :: below) p)) := by
  obtain rfl : visiting = f.node :: below.map (·.node) := hs.visiting
  have hcycle : frameCycle (f :: below) p = cycleOf (f.node :: below.map (·.node)) p :=
    frameCycle_eq_cycleOf rfl hs.nodup hp
  rw [hcycle]
  exact .cycle ((hs.path.cons hparent).parentCycle hs.nodup hp) fun n hn =>
    hs.path.atOrAbove n (mem_of_mem_cycleOf hp hn)

/-- **One turn of the loop** keeps it on a path, or ends it with a defect that is there. -/
theorem fits_step (hs : OnPath h start s) : Fits h start (step h stop s) := by
  obtain ⟨stack, visiting, finished⟩ := s
  cases stack with
  | nil => trivial
  | cons f below =>
    cases hnext : f.parents[f.next]? with
    | none =>
      simp only [step, hnext]
      exact hs.leave
    | some p =>
      have hdeclares : h.find? f.node = some f.parents := hs.declares f List.mem_cons_self
      have hparent : h.IsParent p f.node := ⟨f.parents, hdeclares, List.mem_of_getElem? hnext⟩
      have hlooked := hs.advance (f.next + 1)
      by_cases hf : p ∈ finished
      · simp only [step, hnext, hf, if_true]
        exact hlooked
      · by_cases hv : p ∈ visiting
        · simp only [step, hnext, hf, hv, if_true, if_false]
          exact hlooked.cycle hparent hv
        · cases hn : h.find? p with
          | none =>
            simp only [step, hnext, hf, hv, hn, if_false]
            have habove : h.AtOrAbove f.node start := hs.path.atOrAbove _ hs.mem_visiting
            exact .unknownParent habove hparent.mem_names hparent (NameMap.not_mem_names.2 hn)
          | some ps =>
            cases ha : stop p with
            | some a => simp only [step, hnext, hf, hv, hn, ha, if_false, Fits]
            | none =>
              simp only [step, hnext, hf, hv, hn, ha, if_false]
              exact hlooked.enter hparent hv hn

end OnPath

theorem fits_start (h : Hierarchy) (stop : String → Option α) (node : String) :
    Fits h node (Hierarchy.start h stop node) := by
  unfold Hierarchy.start
  cases hn : h.find? node with
  | none => exact .unknownStart (NameMap.not_mem_names.2 hn)
  | some ps =>
    cases stop node with
    | some a => trivial
    | none => exact ⟨rfl, by simp, .singleton, by simpa using hn⟩

/-- **The loop stays on a path of parents**, and where it fails there is a defect. -/
theorem Reached.fits {t : Stage α} (ht : Reached h stop node t) : Fits h node t := by
  induction ht with
  | start => exact fits_start h stop node
  | step _ ih => exact OnPath.fits_step ih

theorem Ends.reached {t : Stage α} {r : Except LineageError (Outcome α)} (he : Ends h stop t r)
    (ht : Reached h stop node t) : Reached h stop node (.ended r) := by
  induction he with
  | ended r => exact ht
  | running _ ih => exact ih ht.step

/-- **A node that is being visited has a frame**: its place is found, and from there on the cycle is cut out. -/
theorem OnPath.exists_place (hs : OnPath h start s) (hp : p ∈ s.visiting) :
    ∃ k, (trail s.stack).idxOf? p = some k ∧ frameCycle s.stack p = (trail s.stack).drop k ++ [p] := by
  have hmem : p ∈ trail s.stack := by
    rw [hs.visiting] at hp
    simpa [trail] using hp
  obtain ⟨k, hk⟩ := Option.isSome_iff_exists.1 (List.isSome_idxOf?.2 hmem)
  obtain ⟨-, rfl⟩ := List.findIdx?_eq_some_iff_findIdx_eq.1 hk
  refine ⟨_, hk, ?_⟩
  rw [frameCycle, ← trail, List.dropWhile_eq_drop_findIdx_not]
  simp [bne]

/-! ## Lineages that fail -/

theorem leaveLast_eq_error_iff {r : Except LineageError (Outcome α)} {e : LineageError} :
    leaveLast node r = .error e ↔ r = .error e := by
  cases r with
  | error e' => rfl
  | ok out => cases out <;> simp [leaveLast]

theorem descending_eq_error_iff {e : LineageError} :
    h.descending node = .error e ↔ walk h neverStops node = .error e := by
  rw [← leaveLast_eq_error_iff, leaveLast_walk_eq_map_descending, map_eq_error_iff]

/-- **A lineage fails at a defect that is there.** -/
theorem defect_of_descending {e : LineageError} (hd : h.descending node = .error e) : Defect h node e := by
  have hends : Ends h neverStops (start h neverStops node) (.error e) := by
    have hends := ends_start h neverStops node
    rwa [leaveLast_eq_error_iff.2 (descending_eq_error_iff.1 hd)] at hends
  exact (hends.reached .start).fits

/-- **A lineage fails with what the search without memory runs into.** -/
theorem descending_eq_error_iff_search {e : LineageError} :
    h.descending node = .error e ↔ search h neverStops [] node = .error e := by
  rw [descending_eq_error_iff, ← map_found?_walk, map_eq_error_iff]

/-- **What a lineage fails with.** It is that the start does not exist, just when it does not; else it is a declared
parent that does not exist, or a cycle of declared parents, at or above the start. The search without memory fails with
the same, and so comes to it first, past parents with nothing wrong at or above them. The loop is always on a path of
parents, and where it is to cut out a cycle it finds the place of the node at which the cycle begins. -/
theorem descending_fails_first (h : Hierarchy) (node : String) :
    (∀ e, h.descending node = .error e →
      Defect h node e ∧ (e = .missingNode node none ↔ node ∉ h.names) ∧
      search h neverStops [] node = .error e ∧
      ∃ path n, h.Leads neverStops node path n ∧ h.Met neverStops path n (.error e)) ∧
    ∀ {α : Type} (stop : String → Option α) (s : FrameState), Reached h stop node (.running s) →
      OnPath h node s ∧
      ∀ p ∈ s.visiting, ∃ k, (trail s.stack).idxOf? p = some k ∧
        frameCycle s.stack p = (trail s.stack).drop k ++ [p] := by
  refine ⟨fun e hd => ?_, fun stop s hs => ⟨hs.fits, fun p hp => OnPath.exists_place hs.fits hp⟩⟩
  have hdefect : Defect h node e := defect_of_descending hd
  have hsearch : search h neverStops [] node = .error e := descending_eq_error_iff_search.1 hd
  refine ⟨hdefect, ⟨?_, fun hn => ?_⟩, hsearch, (search_eq_iff (by simp)).1 hsearch⟩
  · rintro rfl
    cases hdefect with
    | unknownStart unknown => exact unknown
  · have hmissing : search h neverStops [] node = .error (.missingNode node none) :=
      Met.search_eq (.missing hn) .start
    exact Except.error.inj (hsearch.symm.trans hmissing)

/-- A cycle above the start, and behind it a parent that does not exist. -/
def tangled : Hierarchy := .ofList [("app", ["web", "ghost"]), ("web", ["base"]), ("base", ["web"])]

/-- The loop is at the last node of the cycle. -/
def atBase : FrameState :=
  ⟨[⟨"base", ["web"], 0⟩, ⟨"web", ["base"], 1⟩, ⟨"app", ["web", "ghost"], 1⟩], ["base", "web", "app"], []⟩

theorem reached_atBase : Reached tangled neverStops "app" (.running atBase) :=
  .step (s := ⟨[⟨"web", ["base"], 0⟩, ⟨"app", ["web", "ghost"], 1⟩], ["web", "app"], []⟩)
    (.step (s := ⟨[⟨"app", ["web", "ghost"], 0⟩], ["app"], []⟩) .start)

theorem tangled_fails_first :
    tangled.descending "app" = .error (.cyclic ["web", "base", "web"]) ∧
    Defect tangled "app" (.cyclic ["web", "base", "web"]) ∧
    search tangled neverStops [] "app" = .error (.cyclic ["web", "base", "web"]) ∧
    tangled.descending "ghost" = .error (.missingNode "ghost" none) ∧ "ghost" ∉ tangled.names ∧
    Reached tangled neverStops "app" (.running atBase) ∧
    ∃ k, (trail atBase.stack).idxOf? "web" = some k ∧
      frameCycle atBase.stack "web" = (trail atBase.stack).drop k ++ ["web"] := by
  have happ : tangled.descending "app" = .error (.cyclic ["web", "base", "web"]) := by cbv
  have hghost : tangled.descending "ghost" = .error (.missingNode "ghost" none) := by cbv
  obtain ⟨hfails, hloop⟩ := descending_fails_first tangled "app"
  obtain ⟨hdefect, -, hsearch, -⟩ := hfails _ happ
  obtain ⟨-, hstart, -⟩ := (descending_fails_first tangled "ghost").1 _ hghost
  exact ⟨happ, hdefect, hsearch, hghost, hstart.1 rfl, reached_atBase,
    (hloop neverStops atBase reached_atBase).2 "web" (by decide)⟩

end Hierarchy
end DeployInventory
