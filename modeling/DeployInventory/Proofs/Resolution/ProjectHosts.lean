import DeployInventory.Proofs.Lineage.Search
import DeployInventory.Proofs.Resolution.Hosts
/-!
# Proofs.Resolution.ProjectHosts — the hosts that a project deploys to

The lists of several groups are put together by the group and the name of each host. All hosts of these lists are stored
in the inventory (`exists_stored_of_hosts`), where a group has one host of a name (`Stored.unique`). So a host that is
left out is there already, as a whole, and what comes of the lists is all of their hosts without repetition
(`projectHosts_union`).
-/
namespace DeployInventory
namespace Inventory

variable {inv : Inventory} {project environment hostGroup : String} {groups : List String} {lists : List (List Host)}
variable {found l more out : List Host} {h k : Host}

/-! ## The groups -/

/-- **A project deploys to the groups of the nearest project that lists any**: of the one that the search comes to past
projects that list none. Where no project at or above it lists any, it deploys to no group. -/
inductive DeploysTo (inv : Inventory) (project : String) : List String → Prop where
  | nearest {path : List String} {q : String} {p : Project}
      (way : (inv.hierarchy .project).Leads inv.ownHostGroups project path q)
      (declared : inv.projects.find? q = some p) (lists : p.hostGroups ≠ []) : DeploysTo inv project p.hostGroups
  | nowhere (bare : ∀ q p, (inv.hierarchy .project).AtOrAbove q project → inv.projects.find? q = some p →
      p.hostGroups = []) : DeploysTo inv project []

theorem ownHostGroups_eq_some_iff : inv.ownHostGroups project = some groups ↔
    ∃ p, inv.projects.find? project = some p ∧ p.hostGroups ≠ [] ∧ groups = p.hostGroups := by
  unfold ownHostGroups
  cases inv.projects.find? project with
  | none => simp
  | some p =>
    have hsome : (some p.hostGroups = some groups) ↔ groups = p.hostGroups := by rw [Option.some.injEq, eq_comm]
    by_cases hp : p.hostGroups = [] <;> simp [hp, hsome]

theorem ownHostGroups_eq_none_iff : inv.ownHostGroups project = none ↔
    ∀ p, inv.projects.find? project = some p → p.hostGroups = [] := by
  rw [Option.eq_none_iff_forall_ne_some]
  simp only [ne_eq, ownHostGroups_eq_some_iff, not_exists, not_and]
  exact ⟨fun h p hp => by_contra fun hne => h _ p hp hne rfl, fun h _ p hp hne _ => hne (h p hp)⟩

open Hierarchy in
/-- **What a search for the groups gives is where the project deploys to.** -/
theorem deploysTo_iff {own : Option (List String)}
    (hown : (inv.hierarchy .project).nearest inv.ownHostGroups project = .ok own) :
    inv.DeploysTo project groups ↔ groups = own.getD [] := by
  rw [nearest_eq_search] at hown
  constructor
  · rintro (@⟨path, q, p, way, declared, lists⟩ | bare)
    · have known : q ∈ (inv.hierarchy .project).names := NameMap.mem_names.2 ⟨p.parents, by simp [hierarchy, declared]⟩
      have hmet : Met _ inv.ownHostGroups path q (.ok (some p.hostGroups)) :=
        .found known (ownHostGroups_eq_some_iff.2 ⟨p, declared, lists, rfl⟩)
      rw [(search_eq_iff hmet.ne_none).2 ⟨path, q, way, hmet⟩] at hown
      cases hown
      rfl
    · cases own with
      | none => rfl
      | some gs =>
        obtain ⟨path, q, way, hmet⟩ := (search_eq_iff (by simp)).1 hown
        cases hmet with
        | found _ has =>
          obtain ⟨p, declared, lists, -⟩ := ownHostGroups_eq_some_iff.1 has
          exact absurd (bare q p (way.parentPath.atOrAbove q List.mem_cons_self) declared) lists
  · rintro rfl
    cases own with
    | none =>
      have hbarren := ((search_eq_ok_none_iff [] project).1 hown).1
      exact .nowhere fun q p hq => ownHostGroups_eq_none_iff.1 (hbarren.bare q hq) p
    | some gs =>
      obtain ⟨path, q, way, hmet⟩ := (search_eq_iff (by simp)).1 hown
      cases hmet with
      | found _ has =>
        obtain ⟨p, declared, lists, rfl⟩ := ownHostGroups_eq_some_iff.1 has
        exact .nearest way declared lists

/-! ## The hosts of several groups -/

/-- **A host of the inventory**: the group that it names has it. -/
def Stored (inv : Inventory) (h : Host) : Prop := ∃ g, inv.hostGroups.find? h.hostGroup = some g ∧ h ∈ g.hosts

/-- **A group and a name tell a host.** -/
theorem Stored.unique (hinv : inv.Consistent) (hh : inv.Stored h) (hk : inv.Stored k)
    (hgroup : h.hostGroup = k.hostGroup) (hname : h.name = k.name) : h = k := by
  obtain ⟨g, hg, hh⟩ := hh
  obtain ⟨g', hg', hk⟩ := hk
  rw [← hgroup, hg] at hg'
  cases hg'
  exact List.inj_on_of_nodup_map (hinv.hostGroups _ g hg).distinct hh hk hname

/-- Whatever chain of groups a host was found through, it is the one of the group that it names. -/
theorem exists_stored_of_hosts (hinv : inv.Consistent) (hl : inv.hosts hostGroup environment = .ok l) (hh : h ∈ l) :
    inv.Stored h := by
  obtain ⟨chain, -, rfl⟩ := hosts_eq_placeAll hl
  obtain ⟨before, after, hat, -⟩ := (mem_placeAll_iff _).1 hh
  have hmem : h ∈ chain.flatMap (inv.servingHosts environment) := by simp [hat]
  obtain ⟨g, -, hg⟩ := List.mem_flatMap.1 hmem
  obtain ⟨n, hn, hhn, -⟩ := mem_servingHosts_iff.1 hg
  have howned : h.hostGroup = g := (hinv.hostGroups g n hn).owned h hhn
  exact ⟨n, howned ▸ hn, hhn⟩

theorem forall_stored_of_hosts (hinv : inv.Consistent)
    (hlists : List.Forall₂ (fun g l => inv.hosts g environment = .ok l) groups lists) :
    ∀ l ∈ lists, ∀ h ∈ l, inv.Stored h := by
  induction hlists with
  | nil => simp
  | cons hl _ ih => exact List.forall_mem_cons.2 ⟨fun h hh => exists_stored_of_hosts hinv hl hh, ih⟩

theorem addNew_addNew (found l more : List Host) : addNew (addNew found l) more = addNew found (l ++ more) := by
  unfold addNew
  rw [List.foldl_append]

/-- **Where a group and a name tell a host of a list, only repetitions are left out.** -/
theorem addNew_eq_eraseDups (hl : ∀ h ∈ l, ∀ k ∈ l, h.hostGroup = k.hostGroup → h.name = k.name → h = k) :
    addNew [] l = l.eraseDups := by
  induction l using List.reverseRecOn with
  | nil => rfl
  | append_singleton l k ih =>
    have hfront : ∀ h ∈ l, ∀ m ∈ l, h.hostGroup = m.hostGroup → h.name = m.name → h = m :=
      fun h hh m hm => hl h (List.mem_append_left _ hh) m (List.mem_append_left _ hm)
    have hthere : (l.eraseDups.any fun g => g.hostGroup == k.hostGroup && g.name == k.name) = decide (k ∈ l) := by
      rw [Bool.eq_iff_iff, List.any_eq_true, decide_eq_true_iff]
      constructor
      · rintro ⟨g, hg, heq⟩
        rw [Bool.and_eq_true, beq_iff_eq, beq_iff_eq] at heq
        have hgl : g ∈ l := List.mem_eraseDups.1 hg
        rwa [← hl g (List.mem_append_left _ hgl) k List.mem_concat_self heq.1 heq.2]
      · intro hk
        exact ⟨k, List.mem_eraseDups.2 hk, by simp⟩
    rw [← addNew_addNew, ih hfront, eraseDups_concat]
    simp only [addNew, List.foldl_cons, List.foldl_nil, hthere, decide_eq_true_eq]

theorem addGroups_eq_addNew : ∀ {groups : List String} {found out : List Host},
    inv.addGroups environment found groups = .ok out →
      ∃ lists, List.Forall₂ (fun g l => inv.hosts g environment = .ok l) groups lists ∧
        out = addNew found lists.flatten
  | [], found, out, ho => ⟨[], .nil, (Except.ok.inj ho).symm⟩
  | g :: groups, found, out, ho => by
    unfold addGroups at ho
    obtain ⟨l, hl, ho⟩ := bind_eq_ok_iff.1 ho
    obtain ⟨lists, hlists, rfl⟩ := addGroups_eq_addNew ho
    exact ⟨l :: lists, .cons hl hlists, addNew_addNew found l lists.flatten⟩

/-- **The hosts of a project are those of all its groups.** It deploys to the groups of the nearest project that lists
any, and to no others. Every host that one of them has is there, once, in the order of first occurrence. None is left
out for another one: of one group and name, all of these groups have the same host. -/
theorem projectHosts_union {records : List Record} (hinv : inv = ofRecords records)
    (ho : inv.projectHosts project environment = .ok found) :
    ∃ groups lists, (∀ gs, inv.DeploysTo project gs ↔ gs = groups) ∧
      List.Forall₂ (fun g l => inv.hosts g environment = .ok l) groups lists ∧
      found.Nodup ∧
      (∀ h, h ∈ found ↔ ∃ l ∈ lists, h ∈ l) ∧
      (found.Pairwise fun h k => lists.flatten.idxOf h < lists.flatten.idxOf k) ∧
      ∀ l ∈ lists, ∀ m ∈ lists, ∀ h ∈ l, ∀ k ∈ m, h.hostGroup = k.hostGroup → h.name = k.name → h = k := by
  have hcons : inv.Consistent := hinv ▸ consistent_ofRecords records
  unfold projectHosts at ho
  obtain ⟨_, _, ho⟩ := bind_eq_ok_iff.1 ho
  obtain ⟨own, hown, ho⟩ := bind_eq_ok_iff.1 ho
  obtain ⟨lists, hlists, rfl⟩ := addGroups_eq_addNew ho
  have hstored : ∀ l ∈ lists, ∀ h ∈ l, inv.Stored h := forall_stored_of_hosts hcons hlists
  have hunion : addNew [] lists.flatten = lists.flatten.eraseDups :=
    addNew_eq_eraseDups fun h hh k hk =>
      (List.forall_mem_flatten.2 hstored h hh).unique hcons (List.forall_mem_flatten.2 hstored k hk)
  refine ⟨own.getD [], lists, fun gs => deploysTo_iff (ResolveError.ofLineage_eq_ok_iff.1 hown), hlists, ?_, ?_, ?_, ?_⟩
  · rw [hunion]
    exact nodup_eraseDups _
  · intro h
    rw [hunion, List.mem_eraseDups, List.mem_flatten]
  · rw [hunion]
    exact pairwise_idxOf_eraseDups _
  · intro l hl m hm h hh k hk
    exact (hstored l hl h hh).unique hcons (hstored m hm k hk)

/-- Two groups on top of the same machines; the web group has a database of its own. The shop lists no groups, nor does
the first of its parents. -/
def storefrontRecords : List Record :=
  [.environment { name := "live" }, .hostGroup { name := "machines" },
    .host { name := "db", hostGroup := "machines", address := "10.0.0.1" },
    .host { name := "mail", hostGroup := "machines", address := "10.0.0.2" },
    .hostGroup { name := "web", parents := ["machines"] },
    .host { name := "db", hostGroup := "web", address := "10.0.1.1" },
    .hostGroup { name := "cache", parents := ["machines"] },
    .host { name := "redis", hostGroup := "cache", address := "10.0.2.1", environment := some "live" },
    .project { name := "plain" }, .project { name := "site", hostGroups := ["web", "cache"] },
    .project { name := "shop", parents := ["plain", "site"] }]

def storefrontHosts : List Host :=
  [⟨"db", "web", "10.0.1.1", none⟩, ⟨"mail", "machines", "10.0.0.2", none⟩, ⟨"db", "machines", "10.0.0.1", none⟩,
    ⟨"redis", "cache", "10.0.2.1", some ⟨"live"⟩⟩]

theorem storefront_union : (ofRecords storefrontRecords).projectHosts "shop" "live" = .ok storefrontHosts ∧
    (ofRecords storefrontRecords).DeploysTo "shop" ["web", "cache"] ∧
    ∃ lists, List.Forall₂ (fun g l => (ofRecords storefrontRecords).hosts g "live" = .ok l) ["web", "cache"] lists ∧
      ∀ h, h ∈ storefrontHosts ↔ ∃ l ∈ lists, h ∈ l := by
  have hhosts : (ofRecords storefrontRecords).projectHosts "shop" "live" = .ok storefrontHosts := by cbv
  have hnearest : ((ofRecords storefrontRecords).hierarchy .project).nearest
      (ofRecords storefrontRecords).ownHostGroups "shop" = .ok (some ["web", "cache"]) := by cbv
  have hgroups : (ofRecords storefrontRecords).DeploysTo "shop" ["web", "cache"] :=
    (deploysTo_iff hnearest).2 rfl
  obtain ⟨groups, lists, honly, hlists, -, hmem, -⟩ := projectHosts_union rfl hhosts
  rw [← (honly _).1 hgroups] at hlists
  exact ⟨hhosts, hgroups, lists, hlists, hmem⟩

end Inventory
end DeployInventory
