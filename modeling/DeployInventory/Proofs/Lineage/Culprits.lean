import DeployInventory.Proofs.Lineage.Defects
import Mathlib.Data.List.Induction
import Mathlib.Data.List.Rotate
/-!
# Proofs.Lineage.Culprits — the parents that a failing lineage goes through

The culprit of a node is the first parent in its list that is not sound. A lineage that fails has come from culprit to
culprit, and every chain of culprits is a way that it takes (`isChain_of_leads`, `leads_of_isChain`). So a parent that
does not exist is what the lineage of the node that declares it fails with, just when it is the culprit of that node
(`descending_eq_missing_iff`), whoever else runs into it; and a cycle is what the lineage of its first node fails with,
just when it is a ring of culprits (`exists_ring_of_descending`, `Ring.descending_eq`). A ring may be begun at any of
its nodes (`Ring.rotate`).
-/
namespace DeployInventory
namespace Hierarchy

/-- **The culprit of a node**: the first of its parents that is not sound. -/
def IsCulprit (h : Hierarchy) (n p : String) : Prop :=
  ∃ before after, h.find? n = some (before ++ p :: after) ∧ (∀ q ∈ before, h.Sound q) ∧ ¬ h.Sound p

/-- **A ring of culprits**, each node of which is the culprit of the one before it and the first that of the last. -/
structure Ring (h : Hierarchy) (ring : List String) : Prop where
  ne_nil : ring ≠ []
  nodup : ring.Nodup
  chain : (ring ++ ring.take 1).IsChain h.IsCulprit

variable {h : Hierarchy} {start n p m : String} {path way ring : List String}

/-! ## Culprits -/

namespace IsCulprit

theorem isParent (hp : h.IsCulprit n p) : h.IsParent p n := by
  obtain ⟨before, after, hn, -, -⟩ := hp
  exact ⟨_, hn, by simp⟩

theorem not_sound (hp : h.IsCulprit n p) : ¬ h.Sound n := by
  intro hs
  have hsp : h.Sound p := hs.parent hp.isParent
  obtain ⟨before, after, -, -, hnot⟩ := hp
  exact hnot hsp

end IsCulprit

theorem not_sound_of_unknown (hn : n ∉ h.names) : ¬ h.Sound n := fun hs => hn (hs.known n .refl)

theorem barren_neverStops_iff : h.Barren neverStops n ↔ h.Sound n :=
  ⟨fun hb => hb.sound, fun hs => ⟨hs, fun _ _ => rfl⟩⟩

/-! ## The way to a defect -/

theorem isChain_of_leads (way : h.Leads neverStops start path n) (hn : ¬ h.Sound n) :
    (path.reverse ++ [n]).IsChain h.IsCulprit := by
  induction way with
  | start => exact .singleton start
  | @step path before after n p way fresh bare declares barren ih =>
    have hculprit : h.IsCulprit n p := ⟨before, after, declares, fun q hq => (barren q hq).sound, hn⟩
    have hchain := ih hculprit.not_sound
    rw [List.reverse_cons]
    refine hchain.append (.singleton p) fun x hx y hy => ?_
    simp only [List.getLast?_concat, Option.mem_def, Option.some.injEq, List.head?_cons] at hx hy
    subst hx hy
    exact hculprit

/-- **A chain of culprits is a way of the search.** -/
theorem leads_of_isChain (hhead : (way ++ [n]).head? = some start) (hchain : (way ++ [n]).IsChain h.IsCulprit)
    (hnd : way.Nodup) : h.Leads neverStops start way.reverse n := by
  induction way using List.reverseRecOn generalizing n with
  | nil =>
    obtain rfl : n = start := Option.some.inj hhead
    exact .start
  | append_singleton way k ih =>
    have hhead' : (way ++ [k]).head? = some start := by
      rwa [List.head?_append_of_ne_nil _ (by simp)] at hhead
    obtain ⟨-, hfresh⟩ := List.nodup_append.1 hnd |>.2
    have hk : k ∉ way.reverse := by
      rw [List.mem_reverse]
      exact fun hmem => hfresh k hmem k (by simp) rfl
    have hculprit : h.IsCulprit k n := by
      have hlink := (List.isChain_append.1 hchain).2.2
      exact hlink k (by simp) n (by simp)
    obtain ⟨before, after, declares, hbefore, -⟩ := hculprit
    rw [List.reverse_concat]
    exact (ih hhead' hchain.left_of_append (List.nodup_append.1 hnd).1).step hk rfl declares
      fun q hq => barren_neverStops_iff.2 (hbefore q hq)

theorem descending_eq_error_of_met {e : LineageError} (way : h.Leads neverStops start path n)
    (hmet : h.Met neverStops path n (.error e)) : h.descending start = .error e :=
  descending_eq_error_iff_search.2 ((search_eq_iff (by simp)).2 ⟨path, n, way, hmet⟩)

/-- **What comes back to a node of the way is not sound.** -/
theorem not_sound_of_again (way : h.Leads neverStops start path n) (hn : n ∈ path) : ¬ h.Sound n := by
  intro hs
  have hpath := way.parentPath
  obtain ⟨p, rest, rfl⟩ := List.exists_cons_of_ne_nil (List.ne_nil_of_mem hn)
  have hparent : h.IsParent n p := (List.isChain_cons_cons.1 hpath.chain).1
  have habove : h.AtOrAbove p n := by
    rcases List.mem_cons.1 hn with rfl | hmem
    · exact .refl
    · exact hpath.tail.atOrAbove_of_mem n hmem
  exact hs.acyclic n .refl (Relation.TransGen.head' hparent habove)

/-! ## What a lineage fails with -/

theorem exists_way {e : LineageError} (hd : h.descending start = .error e) :
    ∃ path n, h.Leads neverStops start path n ∧ h.Met neverStops path n (.error e) :=
  (search_eq_iff (by simp)).1 (descending_eq_error_iff_search.1 hd)

/-- Where a lineage fails with a parent that does not exist, that is the culprit of the node that declares it. -/
theorem isCulprit_of_descending (hd : h.descending start = .error (.missingNode m (some n))) :
    h.IsCulprit n m ∧ m ∉ h.names := by
  obtain ⟨path, k, way, hmet⟩ := exists_way hd
  cases path with
  | nil => cases hmet
  | cons c path =>
    cases hmet with
    | missing unknown =>
      have hchain := isChain_of_leads way (not_sound_of_unknown unknown)
      rw [List.reverse_cons] at hchain
      exact ⟨(List.isChain_append.1 hchain).2.2 n (by simp) m (by simp), unknown⟩

/-- **A node's own lineage fails with its culprit**, if that does not exist. -/
theorem descending_eq_missing_iff :
    h.descending n = .error (.missingNode m (some n)) ↔ h.IsCulprit n m ∧ m ∉ h.names := by
  refine ⟨isCulprit_of_descending, fun ⟨hculprit, hm⟩ => ?_⟩
  have hchain : ([n] ++ [m]).IsChain h.IsCulprit := List.isChain_pair.2 hculprit
  have way : h.Leads neverStops n [n] m := leads_of_isChain rfl hchain (List.nodup_singleton n)
  exact descending_eq_error_of_met way (.missing hm)

/-- Where a lineage fails with a cycle, that is a ring of culprits, with its first node once more. -/
theorem exists_ring_of_descending {cycle : List String} (hd : h.descending start = .error (.cyclic cycle)) :
    ∃ ring, h.Ring ring ∧ cycle = ring ++ ring.take 1 := by
  obtain ⟨path, k, way, hmet⟩ := exists_way hd
  cases hmet with
  | back again =>
    have hchain := isChain_of_leads way (not_sound_of_again way again)
    have hnd : path.Nodup := way.nodup
    obtain ⟨inner, below, rfl, hinner⟩ := List.eq_append_cons_of_mem again
    rw [cycleOf_append hinner]
    refine ⟨k :: inner.reverse, ⟨by simp, ?_, ?_⟩, by simp⟩
    · rw [List.nodup_cons, List.mem_reverse, List.nodup_reverse]
      exact ⟨hinner, (List.nodup_append.1 hnd).1⟩
    · -- the chain of the way, from the place of the node on
      have hsplit : (inner ++ k :: below).reverse ++ [k] =
          below.reverse ++ (k :: inner.reverse ++ (k :: inner.reverse).take 1) := by simp
      rw [hsplit] at hchain
      exact hchain.right_of_append

/-- **The lineage of the first node of a ring fails with the ring.** -/
theorem Ring.descending_eq (hring : h.Ring (n :: way)) :
    h.descending n = .error (.cyclic (n :: way ++ [n])) := by
  have hleads : h.Leads neverStops n (n :: way).reverse n := leads_of_isChain rfl hring.chain hring.nodup
  have hback : n ∉ way.reverse := by
    rw [List.mem_reverse]
    exact (List.nodup_cons.1 hring.nodup).1
  have hcycle : cycleOf (n :: way).reverse n = n :: way ++ [n] := by
    rw [List.reverse_cons, cycleOf_append hback, List.reverse_reverse]
  rw [← hcycle]
  exact descending_eq_error_of_met hleads (.back (by simp))

/-! ## Rings -/

/-- A node begins one ring at most: its lineage tells the rest. -/
theorem Ring.unique {way' : List String} (hring : h.Ring (n :: way)) (hring' : h.Ring (n :: way')) : way = way' := by
  have herror := hring.descending_eq.symm.trans hring'.descending_eq
  simpa using herror

/-- **A ring may be cut anywhere**: what is in front can go to the end. -/
theorem Ring.swap {u v : List String} (hring : h.Ring (u ++ v)) : h.Ring (v ++ u) := by
  cases u with
  | nil => rwa [List.append_nil]
  | cons a u =>
    cases v with
    | nil => rwa [List.append_nil] at hring
    | cons b v =>
      have hchain : (a :: u ++ (b :: v ++ [a])).IsChain h.IsCulprit := by simpa using hring.chain
      obtain ⟨hu, hva, hub⟩ := List.isChain_append.1 hchain
      obtain ⟨hv, -, hlink⟩ := List.isChain_append.1 hva
      have hclosed : (a :: u ++ [b]).IsChain h.IsCulprit :=
        hu.append (.singleton b) fun x hx y hy => hub x hx y (by simpa using hy)
      refine ⟨by simp, List.nodup_append_comm.1 hring.nodup, ?_⟩
      have hturned : (b :: v ++ (a :: u ++ [b])).IsChain h.IsCulprit :=
        hv.append hclosed fun x hx y hy => hlink x hx y (by simpa using hy)
      simpa using hturned

theorem Ring.rotate {ring' : List String} (hring : h.Ring ring) (hr : ring ~r ring') : h.Ring ring' := by
  obtain ⟨k, rfl⟩ := hr
  rw [List.rotate_eq_drop_append_take_mod]
  refine Ring.swap ?_
  rwa [List.take_append_drop]

theorem Ring.head_mem_names (hring : h.Ring (n :: way)) : n ∈ h.names := by
  obtain ⟨hlink, -⟩ := List.isChain_cons.1 hring.chain
  cases way with
  | nil => exact (hlink n rfl).isParent.mem_names
  | cons p way => exact (hlink p rfl).isParent.mem_names

end Hierarchy
end DeployInventory
