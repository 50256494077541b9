import DeployInventory.Proofs.Json.Text
import DeployInventory.Proofs.Variable.Conversion
/-!
# Proofs.Variable.KeyOrder — flat objects of documents in key order

A document in key order has its objects ascending by key, so the maps of a flat object that is read from it ascend too,
at every level (`keysAscend_of_ofJson`).
-/
namespace DeployInventory

namespace Json

theorem sorted_of_array {items : List Json} (h : sorted (.array items) = .array items) : ∀ j ∈ items, j.sorted = j := by
  rw [sorted_array, array.injEq] at h
  have hmap : items.map sorted = items.map id := by rw [h, List.map_id]
  exact List.map_inj_left.1 hmap

/-- An object in key order ascends, and so does all within it. -/
theorem sorted_of_object {fs : List (String × Json)} (h : sorted (.object fs) = .object fs) :
    (fs.Pairwise fun a b => a.1 < b.1) ∧ ∀ e ∈ fs, e.2.sorted = e.2 := by
  rw [sorted_object, object.injEq] at h
  have hasc : fs.Pairwise fun a b => a.1 < b.1 := h ▸ ((NameMap.ofList fs).map sorted).ascending
  rw [NameMap.entries_map, NameMap.entries_ofList_of_ascending hasc] at h
  have hmap : (fs.map fun e => (e.1, sorted e.2)) = fs.map id := by rw [h, List.map_id]
  exact ⟨hasc, fun e he => congrArg Prod.snd (List.map_inj_left.1 hmap e he)⟩

end Json

namespace VariableWire

variable {r : Bool} {j : Json} {d d' : Draft} {w w' : VariableWire}

theorem KeysAscend.of_eq (h : w.KeysAscend) (hl : w'.list = w.list) (hm : w'.map = w.map) : w'.KeysAscend := by
  obtain ⟨hitems, hkeys, hentries⟩ := h
  exact ⟨hl ▸ hitems, hm ▸ hkeys, hm ▸ hentries⟩

/-- **What the flat objects have in common that a document holds**: as an object, as the items of a list and as the
entries of a map. -/
structure HoldsAscending (j : Json) : Prop where
  whole : ∀ r w, ofJson r j = .ok w → w.KeysAscend
  items : ∀ r l, itemsOf r j = .ok l → ∀ x ∈ l, x.KeysAscend
  entries : ∀ r l, namedOf r j = .ok l → (l.Pairwise fun a b => a.1 < b.1) ∧ ∀ e ∈ l, e.2.KeysAscend

theorem orNull_eq_some {α : Type} {read : Json → Decoded α} {a : α} (h : Wire.orNull read j = .ok (some a)) :
    read j = .ok a := by
  unfold Wire.orNull at h
  split at h
  · cases h
  · obtain ⟨b, hb, heq⟩ := map_eq_ok_iff.1 h
    rw [hb, Option.some.inj heq]

/-- One more field keeps the maps ascending. -/
theorem keysAscend_takeField {key : String} (hj : HoldsAscending j) (hd : d.wire.KeysAscend)
    (h : takeField r d key j = .ok d') : d'.wire.KeysAscend := by
  by_cases hkey : key ∈ (Draft.slots r).map (·.key)
  · obtain ⟨s, hs, rfl⟩ := List.mem_map.1 hkey
    rw [Draft.fills.take_slot s hs, map_eq_ok_iff] at h
    obtain ⟨a, ha, rfl⟩ := h
    simp only [Draft.slots, List.mem_cons, List.not_mem_nil, or_false] at hs
    rcases hs with rfl | rfl | rfl | rfl | rfl | rfl | rfl | rfl | rfl
    case inr.inr.inr.inr.inr.inl =>
      obtain ⟨-, hkeys, hentries⟩ := hd
      refine ⟨fun l hl => ?_, hkeys, hentries⟩
      obtain rfl : a = some l := hl
      exact hj.items r l (orNull_eq_some ha)
    case inr.inr.inr.inr.inr.inr.inl =>
      obtain ⟨hitems, -, -⟩ := hd
      refine ⟨hitems, fun l hl => ?_, fun l hl => ?_⟩
      all_goals
        obtain rfl : a = some l := hl
      · exact (hj.entries r l (orNull_eq_some ha)).1
      · exact (hj.entries r l (orNull_eq_some ha)).2
    all_goals exact hd.of_eq rfl rfl
  · rw [Draft.fills.take_other key hkey, Except.ok.injEq] at h
    rwa [← h]

theorem keysAscend_takeFields (fs : List (String × Json)) (hfs : ∀ e ∈ fs, HoldsAscending e.2) :
    ∀ d d', d.wire.KeysAscend → takeFields r d fs = .ok d' → d'.wire.KeysAscend := by
  induction fs with
  | nil =>
    intro d d' hd h
    rw [takeFields, Except.ok.injEq] at h
    rwa [← h]
  | cons e fs ih =>
    intro d d' hd h
    obtain ⟨he, hfs⟩ := List.forall_mem_cons.1 hfs
    rw [takeFields, bind_eq_ok_iff] at h
    obtain ⟨d₁, hd₁, h⟩ := h
    exact ih hfs d₁ d' (keysAscend_takeField he hd hd₁) h

theorem keysAscend_takeItems (items : List Json) (hitems : ∀ j ∈ items, HoldsAscending j) :
    ∀ ks d d', d.wire.KeysAscend → takeItems r d ks items = .ok d' → d'.wire.KeysAscend := by
  induction items with
  | nil =>
    intro ks d d' hd h
    rw [takeItems, Except.ok.injEq] at h
    rwa [← h]
  | cons j items ih =>
    intro ks d d' hd h
    obtain ⟨hj, hitems⟩ := List.forall_mem_cons.1 hitems
    cases ks with
    | nil => simp [takeItems] at h
    | cons key ks =>
      rw [takeItems, bind_eq_ok_iff] at h
      obtain ⟨d₁, hd₁, h⟩ := h
      exact ih hitems ks d₁ d' (keysAscend_takeField hj hd hd₁) h

theorem keysAscend_finish (hd : d.wire.KeysAscend) (h : d.finish = .ok w) : w.KeysAscend := by
  obtain ⟨kind, -, h⟩ := bind_eq_ok_iff.1 h
  rw [pure_eq_ok_iff] at h
  subst h
  exact hd.of_eq rfl rfl

theorem keysAscend_listOf (items : List Json) (hitems : ∀ j ∈ items, HoldsAscending j) :
    ∀ l, listOf r items = .ok l → ∀ x ∈ l, x.KeysAscend := by
  induction items with
  | nil =>
    intro l h
    rw [listOf, Except.ok.injEq] at h
    subst h
    simp
  | cons j items ih =>
    intro l h
    obtain ⟨hj, hitems⟩ := List.forall_mem_cons.1 hitems
    rw [listOf, bind_eq_ok_iff] at h
    obtain ⟨x, hx, h⟩ := h
    obtain ⟨rest, hrest, h⟩ := bind_eq_ok_iff.1 h
    rw [pure_eq_ok_iff] at h
    subst h
    exact List.forall_mem_cons.2 ⟨hj.whole r x hx, ih hitems rest hrest⟩

theorem keysAscend_entriesOf (fs : List (String × Json)) (hfs : ∀ e ∈ fs, HoldsAscending e.2) :
    ∀ l, entriesOf r fs = .ok l → l.map Prod.fst = fs.map Prod.fst ∧ ∀ e ∈ l, e.2.KeysAscend := by
  induction fs with
  | nil =>
    intro l h
    rw [entriesOf, Except.ok.injEq] at h
    subst h
    simp
  | cons e fs ih =>
    intro l h
    obtain ⟨he, hfs⟩ := List.forall_mem_cons.1 hfs
    rw [entriesOf, bind_eq_ok_iff] at h
    obtain ⟨x, hx, h⟩ := h
    obtain ⟨rest, hrest, h⟩ := bind_eq_ok_iff.1 h
    rw [pure_eq_ok_iff] at h
    subst h
    obtain ⟨hnames, hall⟩ := ih hfs rest hrest
    exact ⟨by rw [List.map_cons, List.map_cons, hnames], List.forall_mem_cons.2 ⟨he.whole r x hx, hall⟩⟩

theorem keysAscend_empty : Draft.empty.wire.KeysAscend :=
  ⟨fun l hl => (by cases hl), fun l hl => (by cases hl), fun l hl => (by cases hl)⟩

theorem holdsAscending_of_sorted (j : Json) : j.sorted = j → HoldsAscending j := by
  induction j using Json.induction with
  | array items ih =>
    intro hj
    have hitems : ∀ k ∈ items, HoldsAscending k := fun k hk => ih k hk (Json.sorted_of_array hj k hk)
    refine ⟨fun r w h => ?_, fun r l h => keysAscend_listOf items hitems l h, fun r l h => by cases h⟩
    rw [ofJson, bind_eq_ok_iff] at h
    obtain ⟨d, hd, h⟩ := h
    exact keysAscend_finish (keysAscend_takeItems items hitems keys _ d keysAscend_empty hd) h
  | object fs ih =>
    intro hj
    obtain ⟨hasc, hsorted⟩ := Json.sorted_of_object hj
    have hfs : ∀ e ∈ fs, HoldsAscending e.2 := fun e he => ih e he (hsorted e he)
    refine ⟨fun r w h => ?_, fun r l h => (by cases h), fun r l h => ?_⟩
    · rw [ofJson, bind_eq_ok_iff] at h
      obtain ⟨d, hd, h⟩ := h
      exact keysAscend_finish (keysAscend_takeFields fs hfs _ d keysAscend_empty hd) h
    · obtain ⟨hnames, hall⟩ := keysAscend_entriesOf fs hfs l h
      refine ⟨?_, hall⟩
      have hkeys : (l.map Prod.fst).Pairwise (· < ·) := by
        rw [hnames, List.pairwise_map]
        exact hasc
      rwa [List.pairwise_map] at hkeys
  | _ => exact fun _ => ⟨fun r w h => (by simp [ofJson] at h), fun r l h => (by cases h), fun r l h => (by cases h)⟩

/-- **A flat object that is read from a document in key order has its maps in key order.** -/
theorem keysAscend_of_ofJson (h : ofJson r j.sorted = .ok w) : w.KeysAscend :=
  (holdsAscending_of_sorted j.sorted j.sorted_sorted).whole r w h

end VariableWire
end DeployInventory
