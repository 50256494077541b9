import DeployInventory.Proofs.Resolution.Agreement
import DeployInventory.Proofs.Resolution.SuperPlay
/-!
# Proofs.Resolution.Plays — what a play takes from the ancestors of its playbook

Playbook by playbook along a lineage, a play stacks the layers of the playbook and those of its definition of the play.
All other candidates for the super play are ancestors of it, so they stand before it in the lineage: behind it no
ancestor adds a layer of the play (`InheritsLastFrom`). A play is missing where nobody in the lineage defines it, which
is where the playbook itself does not and there is no super play (`playVariables_agree`).
-/
namespace DeployInventory

open ResolveError (ofLineage)

/-- **Where a layer in the stack of a play comes from**: a playbook of the lineage, or its definition of the play. -/
inductive PlaySource where
  | playbook (name : String)
  | play (playbook : String)

namespace Inventory

variable {inv : Inventory} {playbook play environment c q : String} {chain : List String} {stack : LayerStack}
  {l : Layer}

/-! ## Layers with their source -/

def ownPlay? (inv : Inventory) (play playbook : String) : Option Play :=
  (inv.playbooks.find? playbook).bind (·.play? play)

theorem definesPlay_eq : inv.definesPlay play q = (inv.ownPlay? play q).isSome := by
  unfold definesPlay ownPlay?
  cases inv.playbooks.find? q <;> rfl

/-- What a playbook itself adds to a stack. -/
noncomputable def ownShare (inv : Inventory) (environment playbook : String) : LayerStack :=
  match inv.playbooks.find? playbook with
  | none => []
  | some b => b.scope.share (inv.hierarchy .environment) ("playbook:" ++ playbook) environment

/-- What a playbook's definition of a play adds to a stack. -/
noncomputable def playShare (inv : Inventory) (play environment playbook : String) : LayerStack :=
  match inv.ownPlay? play playbook with
  | none => []
  | some p => p.scope.share (inv.hierarchy .environment) ("play:" ++ playbook ++ "/" ++ play) environment

theorem playbookShare_eq_append :
    inv.playbookShare play environment q = inv.ownShare environment q ++ inv.playShare play environment q := by
  unfold playbookShare ownShare playShare ownPlay?
  cases inv.playbooks.find? q <;> rfl

/-- **A layer of a playbook's definition of a play**: its base layer or that of a matching override. -/
def IsPlayLayer (inv : Inventory) (play environment playbook : String) (l : Layer) : Prop :=
  ∃ p, inv.ownPlay? play playbook = some p ∧
    (l = ⟨"play:" ++ playbook ++ "/" ++ play, p.scope.entries⟩ ∨
      ∃ o ∈ p.scope.overrides, o.Matches (inv.hierarchy .environment) environment ∧
        l = ⟨"play:" ++ playbook ++ "/" ++ play ++ o.query.text, o.entries⟩)

theorem mem_playShare_iff : l ∈ inv.playShare play environment q ↔ inv.IsPlayLayer play environment q l := by
  unfold playShare IsPlayLayer
  cases inv.ownPlay? play q with
  | none => simp
  | some p => simp [Scope.mem_share_iff]

theorem definesPlay_of_isPlayLayer (h : inv.IsPlayLayer play environment q l) : inv.definesPlay play q = true := by
  obtain ⟨p, hp, -⟩ := h
  rw [definesPlay_eq, hp]
  rfl

theorem exists_playShare_eq_concat (environment : String) (h : inv.definesPlay play q = true) :
    ∃ below l, inv.playShare play environment q = below ++ [l] := by
  rw [definesPlay_eq, Option.isSome_iff_exists] at h
  obtain ⟨p, hp⟩ := h
  unfold playShare
  rw [hp]
  rcases List.eq_nil_or_concat (p.scope.share _ ("play:" ++ q ++ "/" ++ play) environment) with hnil | ⟨below, l, hlast⟩
  -- The base layer is always there.
  · cases hnil
  · exact ⟨below, l, by simpa using hlast⟩

noncomputable def sourcedShare (inv : Inventory) (play environment playbook : String) : List (PlaySource × Layer) :=
  (inv.ownShare environment playbook).map (PlaySource.playbook playbook, ·) ++
    (inv.playShare play environment playbook).map (PlaySource.play playbook, ·)

/-- **The stack of a play along a chain of playbooks**, each layer with its source. -/
noncomputable def sourcedStack (inv : Inventory) (play environment : String) (chain : List String) :
    List (PlaySource × Layer) :=
  chain.flatMap (inv.sourcedShare play environment)

theorem map_snd_sourcedStack :
    (inv.sourcedStack play environment chain).map Prod.snd = chain.flatMap (inv.playbookShare play environment) := by
  have hshare : ∀ q, (inv.sourcedShare play environment q).map Prod.snd = inv.playbookShare play environment q := by
    intro q
    simp [sourcedShare, playbookShare_eq_append, Function.comp_def]
  simp only [sourcedStack, List.map_flatMap, hshare]

theorem mem_sourcedStack_play_iff :
    (.play q, l) ∈ inv.sourcedStack play environment chain ↔ q ∈ chain ∧ inv.IsPlayLayer play environment q l := by
  have hshare : ∀ c, (PlaySource.play q, l) ∈ inv.sourcedShare play environment c ↔
      c = q ∧ l ∈ inv.playShare play environment c := by
    simp [sourcedShare, and_comm]
  simp [sourcedStack, List.mem_flatMap, hshare, mem_playShare_iff]

theorem playVariables_eq_flatMap_share (h : inv.playVariables playbook play environment = .ok stack) :
    ∃ chain, inv.lineage .playbook playbook = .ok chain ∧
      stack = chain.flatMap (inv.playbookShare play environment) := by
  unfold playVariables at h
  obtain ⟨_, _, h⟩ := bind_eq_ok_iff.1 h
  obtain ⟨_, _, h⟩ := bind_eq_ok_iff.1 h
  obtain ⟨chain, hchain, h⟩ := bind_eq_ok_iff.1 h
  refine ⟨chain, ResolveError.ofLineage_eq_ok_iff.1 hchain, ?_⟩
  split at h
  · exact playChainLayers_eq_flatMap_share (ResolveError.ofLineage_eq_ok_iff.1 h)
  · cases h

/-! ## The topmost layer that is inherited -/

/-- **The topmost of the play layers that strict ancestors of a playbook add to a stack belongs to `c`.** -/
def InheritsLastFrom (inv : Inventory) (playbook play environment c : String) (stack : LayerStack) : Prop :=
  ∃ chain below l above, inv.lineage .playbook playbook = .ok chain ∧
    (inv.sourcedStack play environment chain).map Prod.snd = stack ∧
    inv.sourcedStack play environment chain = below ++ (.play c, l) :: above ∧
    (inv.hierarchy .playbook).IsAncestor c playbook ∧ inv.IsPlayLayer play environment c l ∧
    ∀ q k, (.play q, k) ∈ above → ¬ (inv.hierarchy .playbook).IsAncestor q playbook

theorem not_isCandidate_of_superPlay {before after : List String}
    (hchain : inv.lineage .playbook playbook = .ok (before ++ c :: after))
    (hsuper : inv.superPlay? playbook play = .ok (some c)) (hq : q ∈ after) : ¬ inv.IsCandidate playbook play q := by
  intro hcandidate
  obtain ⟨-, hothers⟩ := (superPlay_eq_some_iff hchain).1 hsuper
  have hnd : (c :: after).Nodup := (Hierarchy.nodup_of_descending hchain).sublist (List.sublist_append_right before _)
  have hqc : q ≠ c := by
    rintro rfl
    exact (List.nodup_cons.1 hnd).1 hq
  have horder : (c :: after).Pairwise fun a b => ¬ (inv.hierarchy .playbook).IsAncestor b a :=
    (Hierarchy.pairwise_of_descending hchain).sublist (List.sublist_append_right before _)
  -- Every other candidate is an ancestor of the super play, and none of these stands behind it.
  exact (List.pairwise_cons.1 horder).1 q hq (hothers q hcandidate hqc)

theorem inheritsLastFrom_of_superPlay (hsuper : inv.superPlay? playbook play = .ok (some c))
    (h : inv.playVariables playbook play environment = .ok stack) :
    inv.InheritsLastFrom playbook play environment c stack := by
  obtain ⟨chain, hchain, rfl⟩ := playVariables_eq_flatMap_share h
  obtain ⟨hc, -⟩ := (superPlay_eq_some_iff hchain).1 hsuper
  obtain ⟨before, after, rfl⟩ := List.append_of_mem ((Hierarchy.mem_of_descending hchain c).2 (.inr hc.ancestor))
  obtain ⟨below, l, hlast⟩ := exists_playShare_eq_concat environment hc.defines
  refine ⟨before ++ c :: after,
    inv.sourcedStack play environment before ++
      ((inv.ownShare environment c).map (PlaySource.playbook c, ·) ++ below.map (PlaySource.play c, ·)),
    l, inv.sourcedStack play environment after, hchain, map_snd_sourcedStack, ?_, hc.ancestor, ?_, ?_⟩
  · simp [sourcedStack, sourcedShare, hlast]
  · exact mem_playShare_iff.1 (by simp [hlast])
  · intro q k hk hancestor
    obtain ⟨hq, hlayer⟩ := mem_sourcedStack_play_iff.1 hk
    exact not_isCandidate_of_superPlay hchain hsuper hq ⟨hancestor, definesPlay_of_isPlayLayer hlayer⟩

/-! ## Plays that nobody defines -/

theorem any_definesPlay_eq_false_iff (hchain : inv.lineage .playbook playbook = .ok chain) :
    chain.any (inv.definesPlay play) = false ↔
      inv.definesPlay play playbook = false ∧ inv.superPlay? playbook play = .ok none := by
  rw [superPlay_eq_none_iff hchain, List.any_eq_false]
  simp only [Hierarchy.mem_of_descending hchain, Bool.not_eq_true]
  constructor
  · intro h
    exact ⟨h playbook (.inl rfl), fun c hc => by simpa [h c (.inr hc.ancestor)] using hc.defines⟩
  · rintro ⟨hown, hnone⟩ q (rfl | hancestor)
    · exact hown
    · by_contra hdefines
      exact hnone q ⟨hancestor, by simpa using hdefines⟩

section Lineage

variable (hchain : inv.lineage .playbook playbook = .ok chain)
include hchain

theorem playVariables_of_lineage (henvironment : environment ∈ inv.names .environment) :
    inv.playVariables playbook play environment =
      if chain.any (inv.definesPlay play) then ofLineage (inv.playChainLayers play environment chain)
      else .error (.missingPlay playbook play) := by
  have hplaybook : playbook ∈ inv.names .playbook := (sound_of_lineage hchain).known _ .refl
  unfold playVariables
  rw [require_of_mem_names hplaybook, require_of_mem_names henvironment, hchain]
  rfl

theorem playVariables_eq_missingPlay_iff (henvironment : environment ∈ inv.names .environment) {a b : String} :
    inv.playVariables playbook play environment = .error (.missingPlay a b) ↔
      a = playbook ∧ b = play ∧ inv.definesPlay play playbook = false ∧ inv.superPlay? playbook play = .ok none := by
  rw [playVariables_of_lineage hchain henvironment, ← any_definesPlay_eq_false_iff hchain]
  cases chain.any (inv.definesPlay play) with
  | false => simp [eq_comm]
  | true =>
    -- Where the layers cannot be listed, it is a hierarchy that fails.
    cases inv.playChainLayers play environment chain <;> simp [ofLineage]

end Lineage

/-- **Plays and super plays agree.** The topmost play layer that a strict ancestor adds belongs to the super play. A
play is missing just when the playbook itself does not define it and there is no super play. -/
theorem playVariables_agree (inv : Inventory) (playbook play environment : String) :
    (∀ c stack, inv.superPlay? playbook play = .ok (some c) →
      inv.playVariables playbook play environment = .ok stack →
      inv.InheritsLastFrom playbook play environment c stack) ∧
    (environment ∈ inv.names .environment → (∃ chain, inv.lineage .playbook playbook = .ok chain) → ∀ a b,
      (inv.playVariables playbook play environment = .error (.missingPlay a b) ↔
        a = playbook ∧ b = play ∧ inv.definesPlay play playbook = false ∧
          inv.superPlay? playbook play = .ok none)) := by
  refine ⟨fun c stack hsuper h => inheritsLastFrom_of_superPlay hsuper h, ?_⟩
  rintro henvironment ⟨chain, hchain⟩ a b
  exact playVariables_eq_missingPlay_iff hchain henvironment

/-- What the site's `web` sees from `live`: the port that the super play sets there. -/
theorem site_playVariables :
    (ofRecords siteRecords).InheritsLastFrom "site" "web" "live" "left"
      [⟨"playbook:base", []⟩, ⟨"play:base/web", []⟩, ⟨"playbook:left", []⟩, ⟨"play:left/web", []⟩,
        ⟨"play:left/web@live", [⟨"port", some (.root 1), .reference "live_port"⟩]⟩, ⟨"playbook:right", []⟩,
        ⟨"playbook:site", []⟩] ∧
      (ofRecords siteRecords).playVariables "site" "cron" "live" = .error (.missingPlay "site" "cron") := by
  have hsuper : (ofRecords siteRecords).superPlay? "site" "web" = .ok (some "left") := by cbv
  have hcron : (ofRecords siteRecords).superPlay? "site" "cron" = .ok none := by cbv
  have hlive : "live" ∈ (ofRecords siteRecords).names .environment := mem_names_of_require (u := ()) (by cbv)
  refine ⟨(playVariables_agree _ "site" "web" "live").1 "left" _ hsuper (by cbv), ?_⟩
  exact ((playVariables_agree _ "site" "cron" "live").2 hlive ⟨_, by cbv⟩ _ _).2 ⟨rfl, rfl, by cbv, hcron⟩

end Inventory
end DeployInventory
