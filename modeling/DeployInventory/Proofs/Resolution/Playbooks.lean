import DeployInventory.Proofs.Resolution.Plays
/-!
# Proofs.Resolution.Playbooks — where a play takes its variables from

Each playbook of a lineage has four places for a play's variables: the overrides of its definition of the play, the
play's own variables, the overrides of the playbook and the playbook's own variables. A place counts before all that
come behind it here (`PlaybookGives`). The last playbook of the lineage that has a name in one of the four decides it
(`mostSpecific_of_playVariables`).
-/
namespace DeployInventory

open VariableList (Last)

namespace Inventory

variable {inv : Inventory} {playbook play environment name q : String} {stack : LayerStack} {r : ResolvedVariable}

/-- Whether a playbook's definition of a play defines a name for an environment. -/
def OwnPlayDefines (inv : Inventory) (play environment name playbook : String) : Prop :=
  ∃ p, inv.ownPlay? play playbook = some p ∧ p.scope.DefinesFor (inv.hierarchy .environment) environment name

/-- Whether a playbook itself defines a name for an environment. -/
def OwnScopeDefines (inv : Inventory) (environment name playbook : String) : Prop :=
  ∃ b, inv.playbooks.find? playbook = some b ∧ b.scope.DefinesFor (inv.hierarchy .environment) environment name

/-- **Whether a playbook defines a name for a play**, in any of its four places. -/
def PlaybookDefines (inv : Inventory) (play environment name playbook : String) : Prop :=
  inv.OwnPlayDefines play environment name playbook ∨ inv.OwnScopeDefines environment name playbook

/-- **The definition of a name that a playbook gives to a play**: the last entry with the name in the list that decides
it. That is a list of the playbook's definition of the play, where this defines the name: the last matching override
with it, else the play's own variables. Where the play does not, it is a list of the playbook: again the last matching
override with the name, else the playbook's own variables. -/
inductive PlaybookGives (inv : Inventory) (play environment name playbook : String) : ResolvedVariable → Prop where
  | play {p : Play} {label : String} {l : VariableList} {r : ResolvedVariable}
      (defined : inv.ownPlay? play playbook = some p)
      (decides : p.scope.Decides (inv.hierarchy .environment) environment name label l)
      (origin : r.origin = "play:" ++ playbook ++ "/" ++ play ++ label) (last : Last l name r.entry) :
      PlaybookGives inv play environment name playbook r
  | playbook {b : Playbook} {label : String} {l : VariableList} {r : ResolvedVariable}
      (known : inv.playbooks.find? playbook = some b) (notInPlay : ¬ inv.OwnPlayDefines play environment name playbook)
      (decides : b.scope.Decides (inv.hierarchy .environment) environment name label l)
      (origin : r.origin = "playbook:" ++ playbook ++ label) (last : Last l name r.entry) :
      PlaybookGives inv play environment name playbook r

theorem find?_playShare_eq_none_iff :
    (inv.playShare play environment q).find? name = none ↔ ¬ inv.OwnPlayDefines play environment name q := by
  unfold playShare OwnPlayDefines
  cases inv.ownPlay? play q with
  | none => simp [LayerStack.find?_nil]
  | some p => simp [Scope.find?_share_eq_none_iff]

theorem find?_ownShare_eq_none_iff :
    (inv.ownShare environment q).find? name = none ↔ ¬ inv.OwnScopeDefines environment name q := by
  unfold ownShare OwnScopeDefines
  cases inv.playbooks.find? q with
  | none => simp [LayerStack.find?_nil]
  | some b => simp [Scope.find?_share_eq_none_iff]

theorem find?_playShare_eq_some_iff : (inv.playShare play environment q).find? name = some r ↔
    ∃ p label l, inv.ownPlay? play q = some p ∧
      p.scope.Decides (inv.hierarchy .environment) environment name label l ∧
      r.origin = "play:" ++ q ++ "/" ++ play ++ label ∧ Last l name r.entry := by
  unfold playShare
  cases inv.ownPlay? play q with
  | none => simp [LayerStack.find?_nil]
  | some p => simp [Scope.find?_share_eq_some_iff_last]

theorem find?_ownShare_eq_some_iff : (inv.ownShare environment q).find? name = some r ↔
    ∃ b label l, inv.playbooks.find? q = some b ∧
      b.scope.Decides (inv.hierarchy .environment) environment name label l ∧
      r.origin = "playbook:" ++ q ++ label ∧ Last l name r.entry := by
  unfold ownShare
  cases inv.playbooks.find? q with
  | none => simp [LayerStack.find?_nil]
  | some b => simp [Scope.find?_share_eq_some_iff_last]

theorem find?_playbookShare_eq_none_iff :
    (inv.playbookShare play environment q).find? name = none ↔ ¬ inv.PlaybookDefines play environment name q := by
  rw [playbookShare_eq_append, LayerStack.find?_append, Option.or_eq_none_iff, find?_playShare_eq_none_iff,
    find?_ownShare_eq_none_iff, PlaybookDefines, not_or]

/-- **What a playbook adds to a stack is searched place by place.** -/
theorem find?_playbookShare_eq_some_iff :
    (inv.playbookShare play environment q).find? name = some r ↔ inv.PlaybookGives play environment name q r := by
  rw [playbookShare_eq_append, LayerStack.find?_append, Option.or_eq_some_iff, find?_playShare_eq_some_iff,
    find?_playShare_eq_none_iff, find?_ownShare_eq_some_iff]
  constructor
  · rintro (⟨p, label, l, hp, hdec, horigin, hlast⟩ | ⟨hnone, b, label, l, hb, hdec, horigin, hlast⟩)
    · exact .play hp hdec horigin hlast
    · exact .playbook hb hnone hdec horigin hlast
  · rintro (⟨hp, hdec, horigin, hlast⟩ | ⟨hb, hnone, hdec, horigin, hlast⟩)
    · exact .inl ⟨_, _, _, hp, hdec, horigin, hlast⟩
    · exact .inr ⟨hnone, _, _, _, hb, hdec, horigin, hlast⟩

/-- **The most specific playbook wins.** A play sees a name when a playbook of the lineage defines it. What it sees is
what the last such playbook gives: a list of its definition of the play before its own, overrides before the variables
under them, overrides declared later before those declared earlier. No playbook that inherits from it defines the
name. -/
theorem mostSpecific_of_playVariables (h : inv.playVariables playbook play environment = .ok stack) (name : String) :
    ∃ chain, inv.lineage .playbook playbook = .ok chain ∧
      ((∃ r, stack.find? name = some r) ↔ ∃ q ∈ chain, inv.PlaybookDefines play environment name q) ∧
      ∀ r, stack.find? name = some r ↔
        ∃ before q after, chain = before ++ q :: after ∧ inv.PlaybookGives play environment name q r ∧
          (∀ q' ∈ after, ¬ inv.PlaybookDefines play environment name q') ∧
          ∀ q' ∈ chain, (inv.hierarchy .playbook).IsAncestor q q' → ¬ inv.PlaybookDefines play environment name q' := by
  obtain ⟨chain, hchain, rfl⟩ := playVariables_eq_flatMap_share h
  refine ⟨chain, hchain, ?_, fun r => ?_⟩
  · rw [← Option.isSome_iff_exists, ← not_iff_not, Option.not_isSome_iff_eq_none, LayerStack.find?_flatMap_eq_none_iff]
    simp only [find?_playbookShare_eq_none_iff, not_exists, not_and]
  · rw [LayerStack.find?_flatMap, findSome?_reverse_eq_some_iff]
    simp only [find?_playbookShare_eq_some_iff, find?_playbookShare_eq_none_iff]
    constructor
    · rintro ⟨before, q, after, rfl, hgives, hafter⟩
      exact ⟨before, q, after, rfl, hgives, hafter,
        fun q' hq' ha => hafter q' (Hierarchy.mem_after_of_isAncestor hchain hq' ha)⟩
    · rintro ⟨before, q, after, hat, hgives, hafter, -⟩
      exact ⟨before, q, after, hat, hgives, hafter⟩

/-- The site once more: both heirs of its base set `port`, one for `web` from `live`, the other for all its plays. And
`level` has a value in all four places of `left`. -/
def portedSiteRecords : List Record :=
  siteRecords ++
    [.assignment { id := .root 2, entry := ⟨"port", none, .reference "any_port"⟩, playbook := some "right" },
      .assignment { id := .root 3, entry := ⟨"level", none, .reference "site"⟩, playbook := some "left" },
      .assignment
        { id := .root 4, entry := ⟨"level", none, .reference "site_live"⟩, environment := some "live",
          playbook := some "left" },
      .assignment
        { id := .root 5, entry := ⟨"level", none, .reference "web"⟩, playbook := some "left", play := some "web" },
      .assignment
        { id := .root 6, entry := ⟨"level", none, .reference "web_live"⟩, environment := some "live",
          playbook := some "left", play := some "web" }]

def portOfRight : ResolvedVariable := ⟨"playbook:right", ⟨"port", some (.root 2), .reference "any_port"⟩⟩

def levelOfLeft : ResolvedVariable := ⟨"play:left/web@live", ⟨"level", some (.root 6), .reference "web_live"⟩⟩

theorem mostSpecific_portedSite :
    ∃ stack, (ofRecords portedSiteRecords).playVariables "site" "web" "live" = .ok stack ∧
      stack.find? "port" = some portOfRight ∧ stack.find? "level" = some levelOfLeft ∧
      (∃ q ∈ ["base", "left", "right", "site"],
        (ofRecords portedSiteRecords).PlaybookGives "web" "live" "port" q portOfRight) ∧
      ∃ q ∈ ["base", "left", "right", "site"],
        (ofRecords portedSiteRecords).PlaybookGives "web" "live" "level" q levelOfLeft := by
  obtain ⟨stack, hstack, hport, hlevel⟩ :
      ∃ stack, (ofRecords portedSiteRecords).playVariables "site" "web" "live" = .ok stack ∧
        stack.find? "port" = some portOfRight ∧ stack.find? "level" = some levelOfLeft :=
    ⟨_, by cbv, by cbv, by cbv⟩
  have hlineage : (ofRecords portedSiteRecords).lineage .playbook "site" = .ok ["base", "left", "right", "site"] := by
    cbv
  obtain ⟨chain, hchain, -, hwins⟩ := mostSpecific_of_playVariables hstack "port"
  obtain ⟨before, q, after, hat, hgives, -⟩ := (hwins _).1 hport
  obtain ⟨chain', hchain', -, hwins'⟩ := mostSpecific_of_playVariables hstack "level"
  obtain ⟨before', q', after', hat', hgives', -⟩ := (hwins' _).1 hlevel
  rw [hlineage] at hchain hchain'
  cases hchain
  cases hchain'
  exact ⟨stack, hstack, hport, hlevel, ⟨q, by simp [hat], hgives⟩, q', by simp [hat'], hgives'⟩

end Inventory
end DeployInventory
