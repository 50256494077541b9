import DeployInventory.Document.Content
import DeployInventory.Proofs.Offences
import Mathlib.Data.List.Nodup
import Mathlib.Data.List.Perm.Basic
/-!
# Proofs.Document.Content — which values of a document stand for variables

A special table is known by its keys alone (`special_iff`) and then has to have texts under them. A value stands for a
variable unless a special table in it, one that arrays and ordinary tables lead to, has something else under a key; the
first such key in the order of the document is the one that is told (`judged_ofToml`).
-/
namespace DeployInventory

open Offences

namespace Toml

/-- **Induction on values**: those in an array or in a table come before it. -/
@[elab_as_elim]
theorem Value.induction {P : Value → Prop} (string : ∀ s, P (.string s)) (integer : ∀ n, P (.integer n))
    (float : ∀ x, P (.float x)) (overflow : ∀ b, P (.overflow b)) (boolean : ∀ b, P (.boolean b))
    (dateTime : ∀ d, P (.dateTime d)) (array : ∀ items, (∀ v ∈ items, P v) → P (.array items))
    (table : ∀ es, (∀ e ∈ es, P e.2) → P (.table es)) (v : Value) : P v := by
  cases v with
  | string s => exact string s
  | integer n => exact integer n
  | float x => exact float x
  | overflow b => exact overflow b
  | boolean b => exact boolean b
  | dateTime d => exact dateTime d
  | array items =>
    exact array items fun w _hw => induction string integer float overflow boolean dateTime array table w
  | table es =>
    exact table es fun e _he => induction string integer float overflow boolean dateTime array table e.2
termination_by sizeOf v
decreasing_by
  · have hw := List.sizeOf_lt_of_mem _hw
    simp only [Value.array.sizeOf_spec]
    omega
  · have he := List.sizeOf_lt_of_mem _he
    cases e
    simp only [Value.table.sizeOf_spec, Prod.mk.sizeOf_spec] at he ⊢
    omega

/-- **The keys of special tables**, in the order in which what is under them is taken. -/
def specialKeys : List (List String) := [["ref"], ["closure"], ["encrypted"], ["encrypted", "key"]]

/-- **A table of a special shape**: its keys are these, in whatever order. -/
structure Special (es : Table) (keys : List String) : Prop where
  special : keys ∈ specialKeys
  keys : (es.map Prod.fst).Perm keys

def TextAt (es : Table) (key : String) : Prop := ∃ s, (key, Value.string s) ∈ es

/-- **What is wrong with a value**: a key of a special table in it with no text under it, at the end of the path of
positions that leads there. -/
inductive Offends : Value → Offences Nat String
  | payload {es keys i key} : Special es keys → keys[i]? = some key → ¬ TextAt es key → Offends (.table es) [i] key
  | item {items i v p key} : items[i]? = some v → Offends v p key → Offends (.array items) (i :: p) key
  | entry {es i e p key} : (∀ keys, ¬ Special es keys) → es[i]? = some e → Offends e.2 p key →
      Offends (.table es) (i :: p) key

end Toml

open Toml (Table Value Special TextAt Offends specialKeys)

variable {es : Table} {keys : List String} {key : String} {v : Value}

namespace SpecialTable

variable {s : SpecialTable}

/-- The entries of a special table, in the order in which their payloads are taken. -/
def payloads : SpecialTable → Table
  | reference v => [("ref", v)]
  | closure v => [("closure", v)]
  | encrypted v none => [("encrypted", v)]
  | encrypted v (some k) => [("encrypted", v), ("key", k)]

theorem keys_payloads_mem (s : SpecialTable) : s.payloads.map Prod.fst ∈ specialKeys := by
  rcases s with _ | _ | ⟨_, _ | _⟩ <;> simp [payloads, specialKeys]

theorem nodup_payloads (s : SpecialTable) : (s.payloads.map Prod.fst).Nodup := by
  have hnodup : ∀ keys ∈ specialKeys, keys.Nodup := by decide
  exact hnodup _ (keys_payloads_mem s)

theorem exists_payloads {l : Table} (h : l.map Prod.fst ∈ specialKeys) : ∃ s, payloads s = l := by
  simp only [specialKeys, List.mem_cons, List.not_mem_nil, or_false, List.map_eq_cons_iff, List.map_eq_nil_iff] at h
  obtain ⟨⟨_, v⟩, _, rfl, rfl, rfl⟩ | ⟨⟨_, v⟩, _, rfl, rfl, rfl⟩ | ⟨⟨_, v⟩, _, rfl, rfl, rfl⟩ |
    ⟨⟨_, v⟩, _, rfl, rfl, ⟨_, k⟩, _, rfl, rfl, rfl⟩ := h
  · exact ⟨.reference v, rfl⟩
  · exact ⟨.closure v, rfl⟩
  · exact ⟨.encrypted v none, rfl⟩
  · exact ⟨.encrypted v (some k), rfl⟩

/-- **A table has the special shape whose entries it lists.** -/
theorem ofTable?_eq_some_iff : ofTable? es = some s ↔ es.Perm s.payloads := by
  constructor
  · intro h
    unfold ofTable? at h
    split at h <;> cases h
    · exact .refl _
    · exact .refl _
    · exact .refl _
    · exact .refl _
    · exact .swap _ _ _
  · intro h
    rcases s with v | v | ⟨v, _ | k⟩
    · rw [List.perm_singleton.1 h]
      rfl
    · rw [List.perm_singleton.1 h]
      rfl
    · rw [List.perm_singleton.1 h]
      rfl
    · have hmem : ("encrypted", v) ∈ es := h.mem_iff.2 List.mem_cons_self
      obtain ⟨before, after, rfl⟩ := List.append_of_mem hmem
      have hrest : (before ++ after).Perm [("key", k)] := (List.perm_middle.symm.trans h).cons_inv
      rcases List.append_eq_singleton_iff.1 (List.perm_singleton.1 hrest) with ⟨rfl, rfl⟩ | ⟨rfl, rfl⟩
      · rfl
      · rfl

theorem special_iff : Special es keys ↔ ∃ s, ofTable? es = some s ∧ s.payloads.map Prod.fst = keys := by
  constructor
  · rintro ⟨hspecial, hkeys⟩
    -- the entries in the order of the keys
    have hcomp : Relation.Comp (List.Forall₂ fun (e : String × Value) k => e.1 = k) List.Perm es keys :=
      ⟨es.map Prod.fst, List.forall₂_map_right_iff.2 (List.forall₂_same.2 fun _ _ => rfl), hkeys⟩
    rw [List.forall₂_comp_perm_eq_perm_comp_forall₂] at hcomp
    obtain ⟨l, hperm, hl⟩ := hcomp
    have hfst : l.map Prod.fst = keys := List.forall₂_eq_eq_eq ▸ List.forall₂_map_left_iff.2 hl
    obtain ⟨s, rfl⟩ := exists_payloads (hfst ▸ hspecial)
    exact ⟨s, ofTable?_eq_some_iff.2 hperm, hfst⟩
  · rintro ⟨s, hs, rfl⟩
    exact ⟨keys_payloads_mem s, (ofTable?_eq_some_iff.1 hs).map Prod.fst⟩

theorem ofTable?_eq_none_iff : ofTable? es = none ↔ ∀ keys, ¬ Special es keys := by
  simp only [special_iff, Option.eq_none_iff_forall_ne_some]
  constructor
  · rintro h keys ⟨s, hs, -⟩
    exact h s hs
  · intro h s hs
    exact h _ ⟨s, hs, rfl⟩

/-! ## Payloads -/

theorem payload_eq_ok_iff {t : String} : payload key v = .ok t ↔ v = .string t := by
  cases v <;> simp [payload]

theorem payload_of_not_text (h : ∀ t, v ≠ .string t) : payload key v = .error key := by
  cases v with
  | string t => exact absurd rfl (h t)
  | _ => rfl

theorem judged_payload (key : String) (v : Value) :
    Judged (· < ·) (fun (p : List Nat) k => p = [] ∧ k = key ∧ ∀ t, v ≠ .string t) (payload key v) := by
  by_cases htext : ∃ t, v = .string t
  · obtain ⟨t, rfl⟩ := htext
    exact judged_ok fun p k hk => hk.2.2 t rfl
  · have hother : ∀ t, v ≠ .string t := not_exists.1 htext
    rw [payload_of_not_text hother]
    exact judged_error fun p k => ⟨fun hk => ⟨hk.1, hk.2.1⟩, fun hk => ⟨hk.1, hk.2, hother⟩⟩

theorem exists_toVariable_eq (s : SpecialTable) :
    ∃ build : List String → Variable, s.toVariable = (s.payloads.mapM fun e => payload e.1 e.2).map build := by
  rcases s with v | v | ⟨v, _ | k⟩
  · refine ⟨fun texts => .reference (texts.headD ""), ?_⟩
    rw [toVariable, payloads, List.mapM_cons]
    cases payload "ref" v <;> rfl
  · refine ⟨fun texts => .closure (texts.headD ""), ?_⟩
    rw [toVariable, payloads, List.mapM_cons]
    cases payload "closure" v <;> rfl
  · refine ⟨fun texts => .encrypted (texts.headD "") none, ?_⟩
    rw [toVariable, payloads, List.mapM_cons]
    cases payload "encrypted" v <;> rfl
  · refine ⟨fun texts => .encrypted (texts.headD "") texts.tail.head?, ?_⟩
    rw [toVariable, payloads, List.mapM_cons, List.mapM_cons]
    cases payload "encrypted" v with
    | error e => rfl
    | ok c => cases payload "key" k <;> rfl

/-- **A special table is refused for the first key** without a text under it. -/
theorem judged_toVariable (h : ofTable? es = some s) : Judged (· < ·) (Offends (.table es)) s.toVariable := by
  obtain ⟨build, hbuild⟩ := exists_toVariable_eq s
  have hperm := ofTable?_eq_some_iff.1 h
  rw [hbuild]
  have hpayloads : Judged (· < ·)
      (ofMembers (fun i : Nat => i) s.payloads fun e p k => p = [] ∧ k = e.1 ∧ ∀ t, e.2 ≠ .string t)
      (s.payloads.mapM fun e => payload e.1 e.2) :=
    Judged.mapM_members (fun _ _ hij => hij) fun e _ => judged_payload e.1 e.2
  refine hpayloads.map.congr fun p key => ?_
  constructor
  · rintro ⟨i, e, p, rfl, hi, rfl, rfl, hother⟩
    refine .payload (special_iff.2 ⟨s, h, rfl⟩) (by rw [List.getElem?_map, hi]; rfl) ?_
    rintro ⟨t, ht⟩
    -- no other entry has the key, so the text would be the payload
    have he : (e.1, Value.string t) = e := List.inj_on_of_nodup_map (nodup_payloads s) (hperm.mem_iff.1 ht)
      (List.mem_of_getElem? hi) rfl
    exact hother t (congrArg Prod.snd he).symm
  · intro hoff
    cases hoff with
    | @payload _ keys i _ hspecial hi htext =>
      obtain ⟨s', hs', rfl⟩ := special_iff.1 hspecial
      cases h.symm.trans hs'
      rw [List.getElem?_map, Option.map_eq_some_iff] at hi
      obtain ⟨e, he, rfl⟩ := hi
      refine ⟨i, e, [], rfl, he, rfl, rfl, fun t ht => htext ⟨t, ?_⟩⟩
      rw [← ht]
      exact hperm.mem_iff.2 (List.mem_of_getElem? he)
    | entry hordinary => exact absurd (special_iff.2 ⟨s, h, rfl⟩) (hordinary _)

end SpecialTable

namespace Variable

theorem ofTomlItems_eq_mapM (items : List Value) : ofTomlItems items = items.mapM ofToml := by
  induction items with
  | nil => rfl
  | cons v items ih => rw [ofTomlItems, ih, List.mapM_cons]

theorem ofTomlEntries_eq_mapM (es : Table) : ofTomlEntries es = es.mapM fun e => (ofToml e.2).map (e.1, ·) := by
  induction es with
  | nil => rfl
  | cons e es ih =>
    obtain ⟨key, v⟩ := e
    rw [ofTomlEntries, ih, List.mapM_cons]
    cases ofToml v <;> rfl

theorem ofToml_array (items : List Value) : ofToml (.array items) = (items.mapM ofToml).map .list := by
  rw [ofToml, ofTomlItems_eq_mapM]

theorem ofToml_special {s : SpecialTable} (h : SpecialTable.ofTable? es = some s) :
    ofToml (.table es) = s.toVariable := by
  rw [ofToml, h]

theorem ofToml_ordinary (h : SpecialTable.ofTable? es = none) : ofToml (.table es) =
    (es.mapM fun e => (ofToml e.2).map (e.1, ·)).map fun l => .map (NameMap.ofList l).entries := by
  rw [ofToml, h, ofTomlEntries_eq_mapM]

/-- **A value stands for a variable unless something is wrong with it**, of which the first is told. -/
theorem judged_ofToml (v : Value) : Judged (· < ·) (Offends v) (ofToml v) := by
  induction v using Value.induction with
  | string | integer | float | overflow | boolean | dateTime => exact judged_ok fun p key h => (by cases h)
  | array items ih =>
    rw [ofToml_array]
    have hitems : Judged (· < ·) (ofMembers (fun i : Nat => i) items Offends) (items.mapM ofToml) :=
      Judged.mapM_members (fun _ _ hij => hij) ih
    refine hitems.map.congr fun p key => ⟨?_, ?_⟩
    · rintro ⟨i, v, p, rfl, hi, hv⟩
      exact .item hi hv
    · intro h
      cases h with
      | item hi hv => exact ⟨_, _, _, rfl, hi, hv⟩
  | table es ih =>
    cases hs : SpecialTable.ofTable? es with
    | some s =>
      rw [ofToml_special hs]
      exact SpecialTable.judged_toVariable hs
    | none =>
      rw [ofToml_ordinary hs]
      have hentries : Judged (· < ·) (ofMembers (fun i : Nat => i) es fun e => Offends e.2)
          (es.mapM fun e => (ofToml e.2).map (e.1, ·)) :=
        Judged.mapM_members (fun _ _ hij => hij) fun e he => (ih e he).map
      have hordinary := SpecialTable.ofTable?_eq_none_iff.1 hs
      refine hentries.map.congr fun p key => ⟨?_, ?_⟩
      · rintro ⟨i, e, p, rfl, hi, he⟩
        exact .entry hordinary hi he
      · intro h
        cases h with
        | payload hspecial => exact absurd hspecial (hordinary _)
        | entry _ hi he => exact ⟨_, _, _, rfl, hi, he⟩

example : ofToml (.array [.table [("key", .integer 1), ("encrypted", .boolean true)], .table [("ref", .integer 2)]]) =
    .error "encrypted" := rfl

end Variable

end DeployInventory
