import DeployInventory.Proofs.EnvironmentQuery
import DeployInventory.Proofs.Inventory.Consistent
import DeployInventory.Proofs.Repetition
import DeployInventory.Proofs.Resolution.Projects
import DeployInventory.Resolution.Hosts
/-!
# Proofs.Resolution.Hosts — which hosts of a chain of groups serve an environment

The hosts that serve an environment, group by group along a lineage, are placed one after another: each replaces the
one with its name, and a new name comes last (`hosts_eq_placeAll`). So the last of several hosts with a name stays
(`mem_placeAll_iff`), at the place of the first (`map_name_placeAll`). In a folded inventory a group has one host of a
name, so it is the last group with a serving host of the name that counts (`hosts_lastServing`).
-/
namespace DeployInventory

/-- **Whether a host is for an environment**: for all of them, or its query includes it. -/
def Host.Serves (environments : Hierarchy) (environment : String) (h : Host) : Prop :=
  h.environment = none ∨ ∃ q, h.environment = some q ∧ environments.AtOrAbove q.environment environment

def placeAll (met : List Host) : List Host := met.foldl (fun found h => placeHost h found) []

variable {environments : Hierarchy} {environment : String} {h k m : Host} {met found l : List Host}

theorem Host.serves_iff {b : Bool} (hb : h.serves environments environment = .ok b) :
    b = true ↔ h.Serves environments environment := by
  unfold Host.serves at hb
  unfold Host.Serves
  cases hq : h.environment with
  | none =>
    rw [hq] at hb
    simp [← Except.ok.inj hb]
  | some q =>
    rw [hq] at hb
    rw [EnvironmentQuery.atOrAbove_iff_of_includes hb]
    simp

/-! ## Hosts placed one after another -/

theorem map_name_placeHost (h : Host) (l : List Host) :
    (placeHost h l).map (·.name) = addName (l.map (·.name)) h.name := by
  have hnew : (Host.unknown h.name).name = h.name := rfl
  rw [placeHost_eq_changeNamed h (.unknown h.name)]
  exact map_changeNamed (·.name) hnew (fun _ _ => rfl) l

/-- **Where names do not repeat, a host replaces the one with its name.** -/
theorem mem_placeHost_iff : ∀ {l : List Host}, (l.map (·.name)).Nodup →
    (k ∈ placeHost h l ↔ k = h ∨ (k ∈ l ∧ k.name ≠ h.name))
  | [], _ => by simp [placeHost]
  | g :: l, hnd => by
    obtain ⟨hg, hnd⟩ := List.nodup_cons.1 hnd
    unfold placeHost
    by_cases hgh : g.name = h.name
    · rw [if_pos hgh, List.mem_cons, List.mem_cons]
      have hother : k ∈ l → k.name ≠ h.name := by
        intro hk hkh
        exact hg (List.mem_map.2 ⟨k, hk, hkh.trans hgh.symm⟩)
      constructor
      · rintro (rfl | hk)
        · exact .inl rfl
        · exact .inr ⟨.inr hk, hother hk⟩
      · rintro (rfl | ⟨rfl | hk, hkh⟩)
        · exact .inl rfl
        · exact absurd hgh hkh
        · exact .inr hk
    · rw [if_neg hgh, List.mem_cons, List.mem_cons, mem_placeHost_iff hnd]
      constructor
      · rintro (rfl | rfl | ⟨hk, hkh⟩)
        · exact .inr ⟨.inl rfl, hgh⟩
        · exact .inl rfl
        · exact .inr ⟨.inr hk, hkh⟩
      · rintro (rfl | ⟨rfl | hk, hkh⟩)
        · exact .inr (.inl rfl)
        · exact .inl rfl
        · exact .inr (.inr ⟨hk, hkh⟩)

theorem placeAll_concat (met : List Host) (m : Host) : placeAll (met ++ [m]) = placeHost m (placeAll met) := by
  unfold placeAll
  rw [List.foldl_append]
  rfl

/-- **Every name has the place of its first host.** -/
theorem map_name_placeAll (met : List Host) : (placeAll met).map (·.name) = (met.map (·.name)).eraseDups := by
  induction met using List.reverseRecOn with
  | nil => rfl
  | append_singleton met m ih =>
    rw [placeAll_concat, map_name_placeHost, ih, List.map_append, List.map_singleton, eraseDups_concat]
    unfold addName
    simp only [List.mem_eraseDups]

theorem nodup_map_name_placeAll (met : List Host) : ((placeAll met).map (·.name)).Nodup := by
  rw [map_name_placeAll]
  exact nodup_eraseDups _

/-- **The last host of a name**: none behind it has the name. -/
def LastNamed (met : List Host) (h : Host) : Prop :=
  ∃ before after, met = before ++ h :: after ∧ ∀ k ∈ after, k.name ≠ h.name

theorem lastNamed_nil : ¬ LastNamed [] h := by
  rintro ⟨before, after, hat, -⟩
  simp at hat

theorem lastNamed_cons_iff :
    LastNamed (m :: l) h ↔ LastNamed l h ∨ (h = m ∧ ∀ k ∈ l, k.name ≠ h.name) := by
  constructor
  · rintro ⟨_ | ⟨b, before⟩, after, hat, hafter⟩
    · obtain ⟨rfl, rfl⟩ := List.cons.inj hat
      exact .inr ⟨rfl, hafter⟩
    · obtain ⟨rfl, rfl⟩ := List.cons.inj hat
      exact .inl ⟨before, after, rfl, hafter⟩
  · rintro (⟨before, after, rfl, hafter⟩ | ⟨rfl, hl⟩)
    · exact ⟨m :: before, after, rfl, hafter⟩
    · exact ⟨[], l, rfl, hl⟩

theorem lastNamed_append_iff :
    LastNamed (met ++ l) h ↔ LastNamed l h ∨ (LastNamed met h ∧ ∀ k ∈ l, k.name ≠ h.name) := by
  induction met with
  | nil => simp [lastNamed_nil]
  | cons m met ih =>
    rw [List.cons_append, lastNamed_cons_iff, lastNamed_cons_iff, ih, List.forall_mem_append, or_and_right, or_assoc,
      and_assoc]

/-- **The last host of every name stays.** -/
theorem mem_placeAll_iff (met : List Host) : h ∈ placeAll met ↔ LastNamed met h := by
  induction met using List.reverseRecOn with
  | nil => simp [placeAll, lastNamed_nil]
  | append_singleton met m ih =>
    rw [placeAll_concat, mem_placeHost_iff (nodup_map_name_placeAll met), ih, lastNamed_append_iff, lastNamed_cons_iff]
    simp [lastNamed_nil, ne_comm]

theorem lastNamed_of_nodup (hnd : (l.map (·.name)).Nodup) (hh : h ∈ l) : LastNamed l h := by
  obtain ⟨before, after, rfl⟩ := List.append_of_mem hh
  refine ⟨before, after, rfl, fun k hk hkh => ?_⟩
  rw [List.map_append, List.map_cons, List.nodup_append] at hnd
  exact (List.nodup_cons.1 hnd.2.1).1 (List.mem_map.2 ⟨k, hk, hkh⟩)

/-- **Of lists that stand one behind another, the last one with the name has the last host of the name.** -/
theorem lastNamed_flatMap_iff {α : Type} {hostsOf : α → List Host} : ∀ {chain : List α},
    LastNamed (chain.flatMap hostsOf) h ↔
      ∃ before g after, chain = before ++ g :: after ∧ LastNamed (hostsOf g) h ∧
        ∀ g' ∈ after, ∀ k ∈ hostsOf g', k.name ≠ h.name
  | [] => by simp [lastNamed_nil]
  | n :: chain => by
    rw [List.flatMap_cons, lastNamed_append_iff, lastNamed_flatMap_iff]
    constructor
    · rintro (⟨before, g, after, rfl, hlast, hafter⟩ | ⟨hlast, hnone⟩)
      · exact ⟨n :: before, g, after, rfl, hlast, hafter⟩
      · exact ⟨[], n, chain, rfl, hlast, fun g' hg' k hk => hnone k (List.mem_flatMap.2 ⟨g', hg', hk⟩)⟩
    · rintro ⟨_ | ⟨b, before⟩, g, after, hat, hlast, hafter⟩
      · obtain ⟨rfl, rfl⟩ := List.cons.inj hat
        refine .inr ⟨hlast, fun k hk => ?_⟩
        obtain ⟨g', hg', hk⟩ := List.mem_flatMap.1 hk
        exact hafter g' hg' k hk
      · obtain ⟨rfl, rfl⟩ := List.cons.inj hat
        exact .inl ⟨before, g, after, rfl, hlast, hafter⟩

namespace Inventory

variable {inv : Inventory} {hostGroup name : String} {chain : List String}

/-! ## The hosts of a chain of groups -/

open Classical in
/-- **The hosts of a group that serve an environment**, in the order of their declaration. -/
noncomputable def servingHosts (inv : Inventory) (environment group : String) : List Host :=
  match inv.hostGroups.find? group with
  | none => []
  | some g => g.hosts.filter (Host.Serves (inv.hierarchy .environment) environment)

theorem mem_servingHosts_iff {g : String} : h ∈ inv.servingHosts environment g ↔
    ∃ n, inv.hostGroups.find? g = some n ∧ h ∈ n.hosts ∧ h.Serves (inv.hierarchy .environment) environment := by
  unfold servingHosts
  cases inv.hostGroups.find? g with
  | none => simp
  | some n => simp

open Classical in
theorem addServing_eq_foldl : ∀ {l found out : List Host}, addServing environments environment found l = .ok out →
    out = (l.filter (Host.Serves environments environment)).foldl (fun found h => placeHost h found) found
  | [], found, out, ho => (Except.ok.inj ho).symm
  | h :: l, found, out, ho => by
    unfold addServing at ho
    obtain ⟨b, hb, ho⟩ := bind_eq_ok_iff.1 ho
    have hserves := Host.serves_iff hb
    cases b with
    | true =>
      rw [List.filter_cons_of_pos (by simpa using hserves), List.foldl_cons]
      exact addServing_eq_foldl ho
    | false =>
      rw [List.filter_cons_of_neg (by simpa using hserves)]
      exact addServing_eq_foldl ho

theorem addChain_eq_foldl : ∀ {chain : List String} {found out : List Host},
    inv.addChain environment found chain = .ok out →
      out = (chain.flatMap (inv.servingHosts environment)).foldl (fun found h => placeHost h found) found
  | [], found, out, ho => (Except.ok.inj ho).symm
  | n :: chain, found, out, ho => by
    unfold addChain at ho
    rw [List.flatMap_cons, List.foldl_append, servingHosts]
    cases hn : inv.hostGroups.find? n with
    | none =>
      rw [hn] at ho
      exact addChain_eq_foldl ho
    | some g =>
      rw [hn] at ho
      obtain ⟨more, hmore, ho⟩ := bind_eq_ok_iff.1 ho
      dsimp only
      rw [← addServing_eq_foldl hmore]
      exact addChain_eq_foldl ho

/-- **The hosts of a group** are the serving hosts of its lineage, placed one after another. -/
theorem hosts_eq_placeAll (ho : inv.hosts hostGroup environment = .ok found) :
    ∃ chain, inv.lineage .hostGroup hostGroup = .ok chain ∧
      found = placeAll (chain.flatMap (inv.servingHosts environment)) := by
  unfold hosts at ho
  obtain ⟨_, _, ho⟩ := bind_eq_ok_iff.1 ho
  obtain ⟨_, _, ho⟩ := bind_eq_ok_iff.1 ho
  obtain ⟨chain, hchain, ho⟩ := bind_eq_ok_iff.1 ho
  exact ⟨chain, ResolveError.ofLineage_eq_ok_iff.1 hchain, addChain_eq_foldl (ResolveError.ofLineage_eq_ok_iff.1 ho)⟩

theorem Consistent.lastNamed_servingHosts_iff {g : String} (hinv : inv.Consistent) :
    LastNamed (inv.servingHosts environment g) h ↔ h ∈ inv.servingHosts environment g := by
  constructor
  · rintro ⟨before, after, hat, -⟩
    simp [hat]
  · refine lastNamed_of_nodup ?_
    unfold servingHosts
    cases hn : inv.hostGroups.find? g with
    | none => exact List.nodup_nil
    | some n => exact (hinv.hostGroups g n hn).distinct.sublist (List.filter_sublist.map _)

def HasServing (inv : Inventory) (environment name group : String) : Prop :=
  ∃ h ∈ inv.servingHosts environment group, h.name = name

/-- **The last serving definition of a host counts.** No two hosts have the same name. There is one of a name when a
group of the lineage has one that serves the environment, and it is the one of the last such group. Names come in the
order in which the lineage, group by group, first has a serving host of them. -/
theorem hosts_lastServing {records : List Record} (hinv : inv = ofRecords records)
    (ho : inv.hosts hostGroup environment = .ok found) :
    ∃ chain, inv.lineage .hostGroup hostGroup = .ok chain ∧
      (found.map (·.name)).Nodup ∧
      (∀ name, name ∈ found.map (·.name) ↔ ∃ g ∈ chain, inv.HasServing environment name g) ∧
      (∀ h, h ∈ found ↔ ∃ before g after, chain = before ++ g :: after ∧ h ∈ inv.servingHosts environment g ∧
        ∀ g' ∈ after, ¬ inv.HasServing environment h.name g') ∧
      (found.map (·.name)).Pairwise fun a b =>
        ((chain.flatMap (inv.servingHosts environment)).map (·.name)).idxOf a <
          ((chain.flatMap (inv.servingHosts environment)).map (·.name)).idxOf b := by
  have hcons : inv.Consistent := hinv ▸ consistent_ofRecords records
  obtain ⟨chain, hchain, rfl⟩ := hosts_eq_placeAll ho
  refine ⟨chain, hchain, nodup_map_name_placeAll _, fun name => ?_, fun h => ?_, ?_⟩
  · rw [map_name_placeAll, List.mem_eraseDups, List.mem_map]
    constructor
    · rintro ⟨h, hh, rfl⟩
      obtain ⟨g, hg, hh⟩ := List.mem_flatMap.1 hh
      exact ⟨g, hg, h, hh, rfl⟩
    · rintro ⟨g, hg, h, hh, rfl⟩
      exact ⟨h, List.mem_flatMap.2 ⟨g, hg, hh⟩, rfl⟩
  · rw [mem_placeAll_iff, lastNamed_flatMap_iff]
    simp only [hcons.lastNamed_servingHosts_iff, HasServing, not_exists, not_and, ne_eq]
  · rw [map_name_placeAll]
    exact pairwise_idxOf_eraseDups _

/-- Web hosts on top of the machines that all groups have. The web group moves `db` for all environments and `mail` for
another one; `spare` does not serve the live environment at all. -/
def rackRecords : List Record :=
  [.environment { name := "all" }, .environment { name := "live", parents := ["all"] },
    .environment { name := "test", parents := ["all"] }, .hostGroup { name := "machines" },
    .host { name := "mail", hostGroup := "machines", address := "10.0.0.1", environment := some "all" },
    .host { name := "db", hostGroup := "machines", address := "10.0.0.2", environment := some "live" },
    .host { name := "spare", hostGroup := "machines", address := "10.0.0.3", environment := some "test" },
    .hostGroup { name := "web", parents := ["machines"] },
    .host { name := "front", hostGroup := "web", address := "10.0.1.1" },
    .host { name := "db", hostGroup := "web", address := "10.0.1.2" },
    .host { name := "mail", hostGroup := "web", address := "10.0.1.3", environment := some "test" }]

def rackHosts : List Host :=
  [⟨"mail", "machines", "10.0.0.1", some ⟨"all"⟩⟩, ⟨"db", "web", "10.0.1.2", none⟩, ⟨"front", "web", "10.0.1.1", none⟩]

theorem rack_lastServing : (ofRecords rackRecords).hosts "web" "live" = .ok rackHosts ∧
    (rackHosts.map (·.name)).Nodup ∧
    (∃ g ∈ ["machines", "web"], (ofRecords rackRecords).HasServing "live" "mail" g) ∧
    (¬ ∃ g ∈ ["machines", "web"], (ofRecords rackRecords).HasServing "live" "spare" g) ∧
    ∃ before g after, ["machines", "web"] = before ++ g :: after ∧
      ⟨"mail", "machines", "10.0.0.1", some ⟨"all"⟩⟩ ∈ (ofRecords rackRecords).servingHosts "live" g ∧
      ∀ g' ∈ after, ¬ (ofRecords rackRecords).HasServing "live" "mail" g' := by
  have hhosts : (ofRecords rackRecords).hosts "web" "live" = .ok rackHosts := by cbv
  have hlineage : (ofRecords rackRecords).lineage .hostGroup "web" = .ok ["machines", "web"] := by cbv
  obtain ⟨chain, hchain, hnd, hserved, hlast, -⟩ := hosts_lastServing rfl hhosts
  rw [hlineage] at hchain
  cases hchain
  exact ⟨hhosts, hnd, (hserved "mail").1 (by decide), fun h => absurd ((hserved "spare").2 h) (by decide),
    (hlast _).1 List.mem_cons_self⟩

end Inventory
end DeployInventory
