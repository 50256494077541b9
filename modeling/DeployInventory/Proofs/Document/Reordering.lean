import DeployInventory.Proofs.Document.Content
import DeployInventory.Proofs.NameMap
import DeployInventory.Proofs.Variable.Wire
import Mathlib.Data.List.Forall2
/-!
# Proofs.Document.Reordering — what a variable says of the value it comes from

A variable shows by its kind what kind of value it comes from (`Means`), and its parts come from the parts of the value.
So values that stand for one variable are equal but for the order of the entries of their tables
(`reordered_of_ofToml`), as long as they hold no date-time, which stands for its text, and no float without a document.
-/
namespace DeployInventory

open Offences

/-- Lists that match a third place by place match each other. -/
theorem forall₂_of_common {α β γ : Type} {R : α → γ → Prop} {S : β → γ → Prop} {T : α → β → Prop} {l : List α}
    {k : List β} {m : List γ} (hl : List.Forall₂ R l m) (hk : List.Forall₂ S k m)
    (h : ∀ a ∈ l, ∀ b ∈ k, ∀ c ∈ m, R a c → S b c → T a b) : List.Forall₂ T l k := by
  induction hl generalizing k with
  | nil =>
    cases hk
    exact .nil
  | cons hac _ ih =>
    cases hk with
    | cons hbc hk =>
      refine .cons (h _ List.mem_cons_self _ List.mem_cons_self _ List.mem_cons_self hac hbc) (ih hk ?_)
      exact fun a ha b hb c hc =>
        h a (List.mem_cons_of_mem _ ha) b (List.mem_cons_of_mem _ hb) c (List.mem_cons_of_mem _ hc)

namespace Toml

/-- **A value inside another**, at whatever depth. -/
inductive Within (w : Value) : Value → Prop
  | self : Within w w
  | item {items v} : v ∈ items → Within w v → Within w (.array items)
  | entry {es e} : e ∈ es → Within w e.2 → Within w (.table es)

namespace Value

variable {P Q : Value → Prop} {items : List Value} {es : Table} {v : Value}

def Everywhere (P : Value → Prop) (v : Value) : Prop := ∀ w, Within w v → P w

/-- No key of the table stands twice. -/
def HasDistinctKeys : Value → Prop
  | .table es => (es.map Prod.fst).Nodup
  | _ => True

/-- Neither a date-time nor a float that is not finite. -/
def IsPlain : Value → Prop
  | .dateTime _ => False
  | .overflow _ => False
  | .float x => x.isFinite = true
  | _ => True

theorem Everywhere.self (h : Everywhere P v) : P v := h v .self

@[simp] theorem everywhere_string {s : String} : Everywhere P (.string s) ↔ P (.string s) := by
  refine ⟨Everywhere.self, fun h w hw => ?_⟩
  cases hw
  exact h

@[simp] theorem everywhere_array :
    Everywhere P (.array items) ↔ P (.array items) ∧ ∀ v ∈ items, Everywhere P v := by
  refine ⟨fun h => ⟨h.self, fun v hv w hw => h w (.item hv hw)⟩, fun h w hw => ?_⟩
  cases hw with
  | self => exact h.1
  | item hv hw => exact h.2 _ hv w hw

@[simp] theorem everywhere_table :
    Everywhere P (.table es) ↔ P (.table es) ∧ ∀ e ∈ es, Everywhere P e.2 := by
  refine ⟨fun h => ⟨h.self, fun e he w hw => h w (.entry he hw)⟩, fun h w hw => ?_⟩
  cases hw with
  | self => exact h.1
  | entry he hw => exact h.2 _ he w hw

theorem Everywhere.and (hP : Everywhere P v) (hQ : Everywhere Q v) : Everywhere (fun w => P w ∧ Q w) v :=
  fun w hw => ⟨hP w hw, hQ w hw⟩

end Value

/-- **Values that are equal but for the order of the entries of tables**: the entries of two tables can be put in an
order in which they match key by key. -/
inductive Reordered : Value → Value → Prop
  | refl (v) : Reordered v v
  | array {items items'} : List.Forall₂ Reordered items items' → Reordered (.array items) (.array items')
  | table {es es' l l' : Table} : es.Perm l → es'.Perm l' → l.map Prod.fst = l'.map Prod.fst →
      List.Forall₂ Reordered (l.map Prod.snd) (l'.map Prod.snd) → Reordered (.table es) (.table es')

end Toml

open Toml (Table Value Reordered Offends)

variable {v w : Value} {x : Variable}

/-- The value that a document stands for. -/
def Json.value? : Json → Option Value
  | .bool b => some (.boolean b)
  | .number (.integer n) => some (.integer n)
  | .number (.double x) => some (.float x)
  | .string s => some (.string s)
  | _ => none

namespace SpecialTable

/-- The special table that a variable comes from. -/
def ofVariable? : Variable → Option SpecialTable
  | .reference name => some (.reference (.string name))
  | .closure source => some (.closure (.string source))
  | .encrypted ciphertext key => some (.encrypted (.string ciphertext) (key.map .string))
  | _ => none

theorem ofVariable?_of_toVariable {s : SpecialTable} (h : s.toVariable = .ok x) : ofVariable? x = some s := by
  rcases s with v | v | ⟨v, _ | k⟩
  · obtain ⟨t, ht, rfl⟩ := map_eq_ok_iff.1 h
    rw [payload_eq_ok_iff.1 ht]
    rfl
  · obtain ⟨t, ht, rfl⟩ := map_eq_ok_iff.1 h
    rw [payload_eq_ok_iff.1 ht]
    rfl
  · obtain ⟨t, ht, rfl⟩ := map_eq_ok_iff.1 h
    rw [payload_eq_ok_iff.1 ht]
    rfl
  · obtain ⟨t, ht, h⟩ := bind_eq_ok_iff.1 h
    obtain ⟨a, ha, h⟩ := bind_eq_ok_iff.1 h
    cases h
    rw [payload_eq_ok_iff.1 ht, payload_eq_ok_iff.1 ha]
    rfl

end SpecialTable

namespace Variable

/-- An entry of a table and the variable of the same name. -/
def NamedContent (e : String × Value) (a : String × Variable) : Prop := a.1 = e.1 ∧ ofToml e.2 = .ok a.2

/-- **What a value is that stands for a variable**, told by the variable. -/
inductive Means : Value → Variable → Prop
  | document {v j} : j.value? = some v → Means v (.value j)
  | list {items l} : List.Forall₂ (fun v x => ofToml v = .ok x) items l → Means (.array items) (.list l)
  | map {es l entries} : List.Forall₂ NamedContent es l → (NameMap.ofList l).entries = entries →
      Means (.table es) (.map entries)
  | special {es s x} : es.Perm s.payloads → SpecialTable.ofVariable? x = some s → Means (.table es) x

theorem means_of_ofToml (hv : v.IsPlain) (h : ofToml v = .ok x) : Means v x := by
  cases v with
  | string s => cases h; exact .document rfl
  | integer n => cases h; exact .document rfl
  | boolean b => cases h; exact .document rfl
  | float y =>
    cases h
    have hdocument : Json.ofBinary64 y = .number (.double y) := if_pos hv
    rw [hdocument]
    exact .document rfl
  | overflow b => cases hv
  | dateTime d => cases hv
  | array items =>
    rw [ofToml_array] at h
    obtain ⟨l, hl, rfl⟩ := map_eq_ok_iff.1 h
    exact .list (mapM_eq_ok_iff.1 hl)
  | table es =>
    cases hs : SpecialTable.ofTable? es with
    | some s =>
      rw [ofToml_special hs] at h
      exact .special (SpecialTable.ofTable?_eq_some_iff.1 hs) (SpecialTable.ofVariable?_of_toVariable h)
    | none =>
      rw [ofToml_ordinary hs] at h
      obtain ⟨l, hl, rfl⟩ := map_eq_ok_iff.1 h
      refine .map ((mapM_eq_ok_iff.1 hl).imp fun e a ha => ?_) rfl
      obtain ⟨y, hy, rfl⟩ := map_eq_ok_iff.1 ha
      exact ⟨rfl, hy⟩

/-- The entries of a table can be put in the order of the map. -/
theorem exists_perm_entries {es : Table} {l : List (String × Variable)} (hl : List.Forall₂ NamedContent es l)
    (hes : (es.map Prod.fst).Nodup) : ∃ k, es.Perm k ∧ List.Forall₂ NamedContent k (NameMap.ofList l).entries := by
  have hkeys : es.map Prod.fst = l.map Prod.fst := by
    induction hl with
    | nil => rfl
    | cons hea _ ih => rw [List.map_cons, List.map_cons, hea.1, ih (List.nodup_cons.1 hes).2]
  have hcomp : Relation.Comp (List.Forall₂ NamedContent) List.Perm es (NameMap.ofList l).entries :=
    ⟨l, hl, NameMap.perm_entries_ofList (hkeys ▸ hes)⟩
  rwa [List.forall₂_comp_perm_eq_perm_comp_forall₂] at hcomp

/-- **A variable comes from one value**, but for the order of entries. -/
theorem reordered_of_ofToml : ∀ {v w : Value}, v.Everywhere (fun u => u.HasDistinctKeys ∧ u.IsPlain) →
    w.Everywhere (fun u => u.HasDistinctKeys ∧ u.IsPlain) → ofToml v = .ok x → ofToml w = .ok x → Reordered v w := by
  induction x using Variable.induction with
  | value document =>
    intro v w hv hw hvx hwx
    cases means_of_ofToml hv.self.2 hvx with
    | document hdocument =>
      cases means_of_ofToml hw.self.2 hwx with
      | document hdocument' =>
        cases hdocument.symm.trans hdocument'
        exact .refl v
      | special _ hs => cases hs
    | special _ hs => cases hs
  | list items ih =>
    intro v w hv hw hvx hwx
    cases means_of_ofToml hv.self.2 hvx with
    | list hl =>
      cases means_of_ofToml hw.self.2 hwx with
      | list hl' =>
        exact .array (forall₂_of_common hl hl' fun a ha b hb c hc hac hbc =>
          ih c hc ((Value.everywhere_array.1 hv).2 a ha) ((Value.everywhere_array.1 hw).2 b hb) hac hbc)
      | special _ hs => cases hs
    | special _ hs => cases hs
  | map entries ih =>
    intro v w hv hw hvx hwx
    cases means_of_ofToml hv.self.2 hvx with
    | map hl hentries =>
      cases means_of_ofToml hw.self.2 hwx with
      | map hl' hentries' =>
        obtain ⟨k, hk, hkl⟩ := exists_perm_entries hl hv.self.1
        obtain ⟨k', hk', hkl'⟩ := exists_perm_entries hl' hw.self.1
        rw [hentries] at hkl
        rw [hentries'] at hkl'
        have hmatch : List.Forall₂ (fun e e' => e.1 = e'.1 ∧ Reordered e.2 e'.2) k k' :=
          forall₂_of_common hkl hkl' fun a ha b hb c hc hac hbc => ⟨hac.1.symm.trans hbc.1,
            ih c hc ((Value.everywhere_table.1 hv).2 a (hk.mem_iff.2 ha))
              ((Value.everywhere_table.1 hw).2 b (hk'.mem_iff.2 hb)) hac.2 hbc.2⟩
        refine .table hk hk' ?_ ?_
        · rw [← List.forall₂_eq_eq_eq, List.forall₂_map_left_iff, List.forall₂_map_right_iff]
          exact hmatch.imp fun _ _ h => h.1
        · rw [List.forall₂_map_left_iff, List.forall₂_map_right_iff]
          exact hmatch.imp fun _ _ h => h.2
      | special _ hs => cases hs
    | special _ hs => cases hs
  | reference | closure | encrypted =>
    intro v w hv hw hvx hwx
    cases means_of_ofToml hv.self.2 hvx with
    | special hes hs =>
      cases means_of_ofToml hw.self.2 hwx with
      | special hes' hs' =>
        cases hs.symm.trans hs'
        exact .table hes hes' rfl (List.forall₂_same.2 fun u _ => .refl u)

/-- **Values stand for variables without ambiguity.** -/
theorem ofToml_unambiguous :
    (∀ v, Succeeds (ofToml v) ↔ ∀ p key, ¬ Offends v p key) ∧
    (∀ v key, ofToml v = .error key ↔ ∃ p, First (· < ·) (Offends v) p key) ∧
    ∀ v w x, v.Everywhere Value.HasDistinctKeys → w.Everywhere Value.HasDistinctKeys → v.Everywhere Value.IsPlain →
      w.Everywhere Value.IsPlain → ofToml v = .ok x → ofToml w = .ok x → Reordered v w :=
  ⟨fun v => (judged_ofToml v).succeeds_iff, fun v _ => (judged_ofToml v).eq_error_iff,
    fun _ _ _ hv hw hv' hw' hvx hwx => reordered_of_ofToml (hv.and hv') (hw.and hw') hvx hwx⟩

def zonedTable : Value := .table [("zone", .table [("ref", .string "eu")]), ("ports", .array [])]

def zonedTable' : Value := .table [("ports", .array []), ("zone", .table [("ref", .string "eu")])]

theorem zonedTable_unambiguous : Reordered zonedTable zonedTable' := by
  have hkeys : zonedTable.Everywhere Value.HasDistinctKeys := by simp [zonedTable, Value.HasDistinctKeys]
  have hkeys' : zonedTable'.Everywhere Value.HasDistinctKeys := by simp [zonedTable', Value.HasDistinctKeys]
  have hplain : zonedTable.Everywhere Value.IsPlain := by simp [zonedTable, Value.IsPlain]
  have hplain' : zonedTable'.Everywhere Value.IsPlain := by simp [zonedTable', Value.IsPlain]
  have hread : ofToml zonedTable = .ok (.map [("ports", .list []), ("zone", .reference "eu")]) := by rfl
  exact ofToml_unambiguous.2.2 _ _ _ hkeys hkeys' hplain hplain' hread (by rfl)

end Variable
end DeployInventory
